import Gafam.Js.Text
import Gafam.Go.Proofs.TextProofs
import Mathlib.Data.List.Count
import Mathlib.Data.List.TakeWhile

/-!
# What a decoder makes of ASCII

The bytes of ASCII are read as themselves wherever they stand, and no other byte is read as a character
of ASCII. So the structure of a message is that of its bytes, whatever its texts are.
-/

namespace Gafam.Js

open Gafam.Go

/-! ## One byte -/

theorem leadByte_ascii {b : UInt8} (hb : b.toNat < 0x80) : leadByte b = (.start, [b.toNat]) := if_pos hb

/-- A byte of ASCII ends the character in front of it. -/
theorem utf8Step_ascii (s : Utf8State) {b : UInt8} (hb : b.toNat < 0x80) :
    utf8Step s b = (.start, s.flush ++ [b.toNat]) := by
  unfold utf8Step Utf8State.flush
  by_cases hm : s.missing = 0
  · rw [if_pos hm, if_pos hm, leadByte_ascii hb]
    rfl
  · have hout : ¬ (s.lower ≤ b.toNat ∧ b.toNat ≤ s.upper) := by
      have := s.continuation
      omega
    rw [if_neg hm, if_neg hm, dif_neg hout, leadByte_ascii hb]
    rfl

/-- A code point outside ASCII. -/
def IsWide (c : Nat) : Prop := 0x80 ≤ c ∧ c < 0x110000

/-- A byte outside ASCII opens a character, or is no UTF-8. -/
theorem leadByte_cases {b : UInt8} (hb : 0x80 ≤ b.toNat) :
    ((leadByte b).2 = [] ∧ (leadByte b).1.missing ≠ 0) ∨ leadByte b = (.start, [runeError]) := by
  unfold leadByte
  dsimp only
  rw [if_neg (Nat.not_lt.2 hb)]
  by_cases htwo : 0xC2 ≤ b.toNat ∧ b.toNat ≤ 0xDF
  · rw [dif_pos htwo]
    exact .inl ⟨rfl, Nat.one_ne_zero⟩
  · rw [dif_neg htwo]
    by_cases hthree : 0xE0 ≤ b.toNat ∧ b.toNat ≤ 0xEF
    · rw [dif_pos hthree]
      exact .inl ⟨rfl, Nat.succ_ne_zero 1⟩
    · rw [dif_neg hthree]
      by_cases hfour : 0xF0 ≤ b.toNat ∧ b.toNat ≤ 0xF4
      · rw [dif_pos hfour]
        exact .inl ⟨rfl, Nat.succ_ne_zero 2⟩
      · rw [dif_neg hfour]
        exact .inr rfl

theorem isWide_runeError : IsWide runeError := by
  unfold IsWide
  decide

theorem leadByte_wide {b : UInt8} (hb : 0x80 ≤ b.toNat) : ∀ c ∈ (leadByte b).2, IsWide c := by
  intro c hc
  rcases leadByte_cases hb with ⟨hnil, -⟩ | herr
  · rw [hnil] at hc
    cases hc
  · rw [herr] at hc
    obtain rfl := List.mem_singleton.1 hc
    exact isWide_runeError

/-- What is read before or at a byte outside ASCII lies outside ASCII. -/
theorem utf8Step_wide (s : Utf8State) {b : UInt8} (hb : 0x80 ≤ b.toNat) :
    ∀ c ∈ (utf8Step s b).2, IsWide c := by
  unfold utf8Step
  by_cases hm : s.missing = 0
  · rw [if_pos hm]
    exact leadByte_wide hb
  · rw [if_neg hm]
    split_ifs with hin hmore
    · nofun
    · intro c hc
      obtain rfl := List.mem_singleton.1 hc
      have hone : s.missing = 1 := by omega
      have hleast := s.least hm
      have hgreatest := s.greatest hm
      have hcont := s.continuation
      rw [hone, Nat.sub_self, Nat.pow_zero, Nat.mul_one] at hleast hgreatest
      unfold IsWide
      omega
    · intro c hc
      rcases List.mem_cons.1 hc with rfl | hc
      · exact isWide_runeError
      · exact leadByte_wide hb c hc

/-- A byte that yields no code point leaves a character open. -/
theorem utf8Step_silent {s : Utf8State} {b : UInt8} (h : (utf8Step s b).2 = []) :
    (utf8Step s b).1.missing ≠ 0 := by
  have hlead : (leadByte b).2 = [] → (leadByte b).1.missing ≠ 0 := by
    intro hnil
    by_cases hb : b.toNat < 0x80
    · rw [leadByte_ascii hb] at hnil
      cases hnil
    · rcases leadByte_cases (Nat.not_lt.1 hb) with ⟨-, hm⟩ | herr
      · exact hm
      · rw [herr] at hnil
        cases hnil
  unfold utf8Step at h ⊢
  by_cases hm : s.missing = 0
  · rw [if_pos hm] at h ⊢
    exact hlead h
  · rw [if_neg hm] at h ⊢
    split_ifs at h ⊢ with hin hmore
    show s.missing - 1 ≠ 0
    omega

/-! ## Texts -/

theorem utf8Run_cons (s : Utf8State) (b : UInt8) (rest : GoString) :
    utf8Run s (b :: rest) =
      ((utf8Run (utf8Step s b).1 rest).1, (utf8Step s b).2 ++ (utf8Run (utf8Step s b).1 rest).2) := rfl

theorem utf8Run_append (s : Utf8State) (a b : GoString) :
    utf8Run s (a ++ b) =
      ((utf8Run (utf8Run s a).1 b).1, (utf8Run s a).2 ++ (utf8Run (utf8Run s a).1 b).2) := by
  induction a generalizing s with
  | nil => rfl
  | cons c a ih =>
    rw [List.cons_append, utf8Run_cons, ih, utf8Run_cons, List.append_assoc]

theorem flush_wide (s : Utf8State) : ∀ c ∈ s.flush, IsWide c := by
  unfold Utf8State.flush
  split_ifs
  · nofun
  · intro c hc
    obtain rfl := List.mem_singleton.1 hc
    exact isWide_runeError

/-- A text with a byte of ASCII in it. -/
theorem utf8Run_cons_ascii (s : Utf8State) {b : UInt8} (hb : b.toNat < 0x80) (rest : GoString) :
    utf8Run s (b :: rest) = ((utf8Run .start rest).1, s.flush ++ b.toNat :: (utf8Run .start rest).2) := by
  rw [utf8Run_cons, utf8Step_ascii s hb]
  simp

/-- The code units of the code points that are read of a text. -/
def readUnits (s : Utf8State) (text : GoString) : JsString := (utf8Run s text).2.flatMap utf16

theorem utf8Decode_eq (text : GoString) :
    utf8Decode text = readUnits .start text ++ (utf8Run .start text).1.flush.flatMap utf16 := by
  unfold utf8Decode readUnits
  rw [List.flatMap_append]

theorem utf16_ascii {b : UInt8} (hb : b.toNat < 0x80) : utf16 b.toNat = [b.toUInt16] := by
  have hlt : b.toNat < 0x10000 := Nat.lt_trans hb (by decide)
  unfold utf16
  rw [if_pos hlt]
  congr 1
  apply UInt16.toNat_inj.1
  rw [UInt8.toNat_toUInt16]
  exact UInt16.toNat_ofNat_of_lt' hlt

theorem utf16_wide {c : Nat} (hc : IsWide c) : ∀ u ∈ utf16 c, ¬ IsAscii u := by
  obtain ⟨hlo, hhi⟩ := hc
  have hge : ∀ n : Nat, 0x80 ≤ n → n < 65536 → ¬ IsAscii (UInt16.ofNat n) := by
    intro n hn hlt hascii
    have := UInt16.lt_iff_toNat_lt.1 hascii
    rw [UInt16.toNat_ofNat_of_lt' hlt] at this
    exact absurd this (Nat.not_lt.2 hn)
  intro u hu
  unfold utf16 at hu
  split_ifs at hu with hsmall
  · obtain rfl := List.mem_singleton.1 hu
    exact hge c hlo hsmall
  · simp only [List.mem_cons, List.not_mem_nil, or_false] at hu
    rcases hu with rfl | rfl
    · exact hge _ (by omega) (by omega)
    · exact hge _ (by omega) (by omega)

/-- Up to the first byte of ASCII the text is read as if it ended there. -/
theorem readUnits_append_ascii (l : GoString) {b : UInt8} (hb : b.toNat < 0x80) (rest : GoString) :
    readUnits .start (l ++ b :: rest) = utf8Decode l ++ b.toUInt16 :: readUnits .start rest := by
  rw [utf8Decode_eq]
  unfold readUnits
  rw [utf8Run_append, utf8Run_cons_ascii _ hb]
  simp [utf16_ascii hb]

theorem readUnits_cons_ascii {b : UInt8} (hb : b.toNat < 0x80) (rest : GoString) :
    readUnits .start (b :: rest) = b.toUInt16 :: readUnits .start rest :=
  readUnits_append_ascii [] hb rest

theorem utf8Decode_cons_ascii {b : UInt8} (hb : b.toNat < 0x80) (rest : GoString) :
    utf8Decode (b :: rest) = b.toUInt16 :: utf8Decode rest := by
  rw [utf8Decode_eq, utf8Decode_eq, readUnits_cons_ascii hb, utf8Run_cons_ascii _ hb]
  rfl

theorem utf8Decode_append_ascii {l : GoString} (hl : ∀ b ∈ l, b.toNat < 0x80) (rest : GoString) :
    utf8Decode (l ++ rest) = ascii l ++ utf8Decode rest := by
  induction l with
  | nil => rfl
  | cons b l ih =>
    have hrest := ih fun c hc => hl c (List.mem_cons_of_mem _ hc)
    rw [List.cons_append, utf8Decode_cons_ascii (hl b (List.mem_cons_self ..)), hrest]
    rfl

/-- A text that yields no code point leaves a character open. -/
theorem utf8Run_silent {l : GoString} {s : Utf8State} (hs : s.missing ≠ 0 ∨ l ≠ []) (hnil : (utf8Run s l).2 = []) :
    (utf8Run s l).1.missing ≠ 0 := by
  induction l generalizing s with
  | nil =>
    rcases hs with hs | hs
    · exact hs
    · exact absurd rfl hs
  | cons b l ih =>
    obtain ⟨hstep, hrest⟩ := List.append_eq_nil_iff.1 hnil
    exact ih (.inl (utf8Step_silent hstep)) hrest

/-- A text that is not empty is not read as an empty one. -/
theorem utf8Decode_ne_nil {text : GoString} (h : text ≠ []) : utf8Decode text ≠ [] := by
  have hunits : ∀ c : Nat, utf16 c ≠ [] := by
    intro c
    unfold utf16
    split_ifs <;> nofun
  intro hnil
  unfold utf8Decode at hnil
  have hpoints : (utf8Run .start text).2 ++ (utf8Run .start text).1.flush = [] := by
    cases hl : (utf8Run .start text).2 ++ (utf8Run .start text).1.flush with
    | nil => rfl
    | cons c l =>
      rw [hl, List.flatMap_cons] at hnil
      exact absurd (List.append_eq_nil_iff.1 hnil).1 (hunits c)
  obtain ⟨hread, hflush⟩ := List.append_eq_nil_iff.1 hpoints
  have hmissing := utf8Run_silent (.inr h) hread
  unfold Utf8State.flush at hflush
  rw [if_neg hmissing] at hflush
  cases hflush

/-! ## Counting -/

theorem count_wide {l : List Nat} (hl : ∀ c ∈ l, IsWide c) {u : UInt16} (hu : IsAscii u) :
    (l.flatMap utf16).count u = 0 := by
  apply List.count_eq_zero.2
  intro hmem
  obtain ⟨c, hc, huc⟩ := List.mem_flatMap.1 hmem
  exact utf16_wide (hl c hc) u huc hu

theorem toUInt16_inj {a b : UInt8} : a.toUInt16 = b.toUInt16 ↔ a = b := by
  constructor
  · intro h
    apply UInt8.toNat_inj.1
    rw [← UInt8.toNat_toUInt16, h, UInt8.toNat_toUInt16]
  · rintro rfl
    rfl

/-- A character of ASCII occurs in what is read as often as in the bytes. -/
theorem count_readUnits (s : Utf8State) (text : GoString) {a : UInt8} (ha : a.toNat < 0x80) :
    (readUnits s text).count a.toUInt16 = text.count a := by
  have hascii : IsAscii a.toUInt16 := by
    apply UInt16.lt_iff_toNat_lt.2
    rw [UInt8.toNat_toUInt16]
    exact ha
  induction text generalizing s with
  | nil => rfl
  | cons b text ih =>
    by_cases hb : b.toNat < 0x80
    · have hrest := ih .start
      unfold readUnits at hrest ⊢
      rw [utf8Run_cons_ascii s hb]
      simp only [List.flatMap_append, List.flatMap_cons, List.count_append]
      rw [count_wide (flush_wide s) hascii, utf16_ascii hb, hrest, Nat.zero_add, List.count_cons,
        List.count_cons, List.count_nil]
      by_cases hba : b = a
      · subst hba
        simp [Nat.add_comm]
      · have hne : b.toUInt16 ≠ a.toUInt16 := fun h => hba (toUInt16_inj.1 h)
        simp [hba, hne]
    · have hba : b ≠ a := by
        rintro rfl
        exact hb ha
      have hrest := ih (utf8Step s b).1
      unfold readUnits at hrest ⊢
      rw [utf8Run_cons, List.flatMap_append, List.count_append, count_wide (utf8Step_wide s (Nat.not_lt.1 hb)) hascii,
        hrest, Nat.zero_add, List.count_cons_of_ne hba]

theorem count_utf8Decode (text : GoString) {a : UInt8} (ha : a.toNat < 0x80) :
    (utf8Decode text).count a.toUInt16 = text.count a := by
  have hascii : IsAscii a.toUInt16 := by
    apply UInt16.lt_iff_toNat_lt.2
    rw [UInt8.toNat_toUInt16]
    exact ha
  rw [utf8Decode_eq, List.count_append, count_readUnits _ _ ha, count_wide (flush_wide _) hascii,
    Nat.add_zero]

/-! ## Chunks -/

theorem skipBom_append (seen : Bool) (a b : List Nat) :
    skipBom seen (a ++ b) = skipBom seen a ++ skipBom (seen || !a.isEmpty) b := by
  cases seen with
  | true => rfl
  | false =>
    cases a with
    | nil => rfl
    | cons c a =>
      show skipBom false (c :: (a ++ b)) = skipBom false (c :: a) ++ b
      by_cases hc : c = 0xFEFF
      · subst hc
        rfl
      · have hskip : ∀ l, skipBom false (c :: l) = c :: l := by
          intro l
          unfold skipBom
          split
          · rename_i rest _ heq
            exact absurd (List.cons.inj heq).1 hc
          · rfl
        rw [hskip, hskip]
        rfl

/-- It does not matter where the chunks end. -/
theorem readAll_eq (d : TextDecoder) (values : List GoString) :
    d.readAll values = (skipBom d.bomSeen (utf8Run d.utf8 values.flatten).2).flatMap utf16 := by
  induction values generalizing d with
  | nil =>
    have hnil : skipBom d.bomSeen [] = [] := by cases d.bomSeen <;> rfl
    show [] = (skipBom d.bomSeen []).flatMap utf16
    rw [hnil]
    rfl
  | cons value values ih =>
    unfold TextDecoder.readAll
    rw [ih, List.flatten_cons, utf8Run_append, skipBom_append, List.flatMap_append]
    rfl

/-- A stream that starts with a byte of ASCII. -/
theorem readAll_new {values : List GoString} {b : UInt8} (hb : b.toNat < 0x80) {rest : GoString}
    (h : values.flatten = b :: rest) :
    TextDecoder.new.readAll values = readUnits .start (b :: rest) := by
  have hskip : skipBom false (utf8Run .start (b :: rest)).2 = (utf8Run .start (b :: rest)).2 := by
    rw [utf8Run_cons_ascii _ hb]
    show skipBom false (b.toNat :: _) = _
    unfold skipBom
    split
    · rename_i l _ heq
      have := (List.cons.inj heq).1
      omega
    · rfl
  rw [readAll_eq, h]
  show (skipBom false (utf8Run .start (b :: rest)).2).flatMap utf16 = _
  rw [hskip]
  rfl

/-! ## Methods of strings -/

theorem dropWhile_head {p : UInt16 → Bool} {s : JsString} {x : UInt16} (hx : s.head? = some x)
    (hp : p x = false) : s.dropWhile p = s := by
  cases s with
  | nil => rfl
  | cons c s =>
    obtain rfl := Option.some.inj hx
    rw [List.dropWhile_cons, if_neg (by simp [hp])]

/-- What `strip` leaves, and what it takes away. -/
theorem strip_spec (p : UInt16 → Bool) (s : JsString) :
    ∃ a b, s = a ++ strip p s ++ b ∧ (∀ u ∈ a, p u = true) ∧ ∀ u ∈ b, p u = true := by
  have hfront := List.takeWhile_append_dropWhile (p := p) (l := s)
  have hback := List.takeWhile_append_dropWhile (p := p) (l := (s.dropWhile p).reverse)
  refine ⟨s.takeWhile p, ((s.dropWhile p).reverse.takeWhile p).reverse, ?_, fun u hu => ?_,
    fun u hu => ?_⟩
  · unfold strip
    rw [List.append_assoc, ← List.reverse_append, hback, List.reverse_reverse, hfront]
  · exact List.mem_takeWhile_imp hu
  · exact List.mem_takeWhile_imp (List.mem_reverse.1 hu)

/-- A text between characters to be taken away. -/
theorem strip_eq {p : UInt16 → Bool} {a core b : JsString} (ha : ∀ u ∈ a, p u = true)
    (hb : ∀ u ∈ b, p u = true) {x y : UInt16} (hx : core.head? = some x) (hpx : p x = false)
    (hy : core.getLast? = some y) (hpy : p y = false) : strip p (a ++ core ++ b) = core := by
  have hne : core ≠ [] := by
    rintro rfl
    cases hx
  have hhead : (core ++ b).head? = some x := by rw [List.head?_append_of_ne_nil _ hne, hx]
  have hlast : core.reverse.head? = some y := by rw [List.head?_reverse, hy]
  unfold strip
  rw [List.append_assoc, List.dropWhile_append_of_pos ha, dropWhile_head hhead hpx,
    List.reverse_append, List.dropWhile_append_of_pos fun u hu => hb u (List.mem_reverse.1 hu),
    dropWhile_head hlast hpy, List.reverse_reverse]

theorem indexOf_cons_ne {sub : JsString} {c d : UInt16} {sub' s : JsString} (hsub : sub = d :: sub')
    (h : c ≠ d) : indexOf sub (c :: s) = (indexOf sub s).map (· + 1) := by
  have hno : sub.isPrefixOf (c :: s) = false := by
    rw [hsub, List.isPrefixOf]
    simp [Ne.symm h]
  conv_lhs => unfold indexOf
  rw [hno]
  rfl

/-- The first occurrence of a separator lies behind a text without its first character. -/
theorem indexOf_append {sub : JsString} {d : UInt16} {sub' : JsString} (hsub : sub = d :: sub')
    {l : JsString} (hl : d ∉ l) (s : JsString) :
    indexOf sub (l ++ s) = (indexOf sub s).map (· + l.length) := by
  induction l with
  | nil =>
    rw [List.nil_append]
    cases indexOf sub s with
    | none => rfl
    | some i => rfl
  | cons c l ih =>
    have hc : c ≠ d := fun h => hl (h ▸ List.mem_cons_self ..)
    have hrest := ih fun h => hl (List.mem_cons_of_mem _ h)
    rw [List.cons_append, indexOf_cons_ne hsub hc, hrest, Option.map_map]
    congr 1

theorem indexOf_self {sub : JsString} {d : UInt16} {sub' : JsString} (hsub : sub = d :: sub')
    (s : JsString) : indexOf sub (sub ++ s) = some 0 := by
  subst hsub
  have hyes : (d :: sub').isPrefixOf (d :: (sub' ++ s)) = true :=
    List.isPrefixOf_iff_prefix.2 (List.prefix_append (d :: sub') s)
  rw [List.cons_append]
  unfold indexOf
  rw [if_pos hyes]

/-- The text in front of the first separator. -/
theorem splitFirst_append {sub : JsString} {d : UInt16} {sub' : JsString} (hsub : sub = d :: sub')
    {l : JsString} (hl : d ∉ l) (s : JsString) : splitFirst sub (l ++ (sub ++ s)) = l := by
  unfold splitFirst
  rw [indexOf_append hsub hl, indexOf_self hsub]
  simp

/-- The text behind the first separator. -/
theorem splitSecond_append {sub : JsString} {d : UInt16} {sub' : JsString} (hsub : sub = d :: sub')
    {l : JsString} (hl : d ∉ l) (s : JsString) :
    splitSecond sub (l ++ (sub ++ s)) = some (splitFirst sub s) := by
  unfold splitSecond
  rw [indexOf_append hsub hl, indexOf_self hsub]
  have hdrop : (l ++ (sub ++ s)).drop (0 + l.length + sub.length) = s := by
    rw [Nat.zero_add, ← List.append_assoc, ← List.length_append, List.drop_left]
  rw [Option.map_some, Option.map_some, hdrop]

theorem mem_ascii_itoa {n : Nat} {u : UInt16} (h : u ∈ ascii (itoa n)) :
    48 ≤ u.toNat ∧ u.toNat ≤ 57 := by
  obtain ⟨b, hb, rfl⟩ := List.mem_map.1 h
  rw [UInt8.toNat_toUInt16]
  exact mem_itoa hb

theorem digitsValue_ascii (s : GoString) : digitsValue (ascii s) = Go.digitsValue s := by
  unfold digitsValue Go.digitsValue ascii
  rw [List.foldl_map]
  simp

/-- `parseInt` reads a number that is written with digits. -/
theorem parseInt_itoa (n : Nat) : parseInt (ascii (itoa n)) = some (n : Int) := by
  obtain ⟨c, l, hcl⟩ : ∃ c l, ascii (itoa n) = c :: l := by
    cases h : ascii (itoa n) with
    | nil => exact absurd (List.map_eq_nil_iff.1 h) (itoa_ne_nil n)
    | cons c l => exact ⟨c, l, rfl⟩
  have hdigits : ∀ u ∈ c :: l, 48 ≤ u.toNat ∧ u.toNat ≤ 57 := by
    intro u hu
    rw [← hcl] at hu
    exact mem_ascii_itoa hu
  obtain ⟨hlo, hhi⟩ := hdigits c (List.mem_cons_self ..)
  have hspace : isTrimSpace c = false := by
    unfold isTrimSpace
    simp
    omega
  have hne : ∀ d : UInt16, d.toNat < 48 → c ≠ d := by
    rintro d hd rfl
    omega
  have htake : (c :: l).takeWhile isDigit = c :: l := by
    apply List.takeWhile_eq_self_iff.2
    intro u hu
    obtain ⟨h1, h2⟩ := hdigits u hu
    unfold isDigit
    simp only [Bool.and_eq_true, decide_eq_true_eq]
    exact ⟨UInt16.le_iff_toNat_le.2 h1, UInt16.le_iff_toNat_le.2 h2⟩
  have hminus : ¬ (c :: l).head? = some 0x2D := fun h => hne _ (by decide) (Option.some.inj h)
  have hplus : ¬ (c :: l).head? = some 0x2B := fun h => hne _ (by decide) (Option.some.inj h)
  unfold parseInt
  rw [hcl]
  rw [dropWhile_head rfl hspace]
  dsimp only
  rw [if_neg (not_or.2 ⟨by simpa using hminus, hplus⟩), htake, if_neg (List.cons_ne_nil _ _),
    if_neg (by simpa using hminus), ← hcl, digitsValue_ascii, digitsValue_itoa]

end Gafam.Js
