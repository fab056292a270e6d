import Gafam.Frontend.Login
import Gafam.Frontend.Proofs.DirectoryProofs
import Gafam.Frontend.Proofs.RequestProofs
import Gafam.Frontend.Proofs.TunnelProofs
import Gafam.Go.Proofs.EncodingProofs
import Gafam.Go.Proofs.TextProofs
import Mathlib.Data.List.MinMax

/-!
# Proofs: whether the page gets in

The safe of a challenge stays in the directory as long as nobody else looks its time up. The lookup of
the page is given one of the newest safes, so that it must be the newest one by itself.
-/

namespace Gafam.Frontend

open Gafam.Go Gafam.Js
open Gafam.Relay (textEncode)
open Gafam.Lib (Row Table runSteps runSteps_cons_eq_some runSteps_invariant)

/-! ## The safe of the challenge is opened -/

theorem unquote_address {s : GoString} (h : ∀ c ∈ s, IsAddressChar c) (rest : JsString) {fuel : Nat}
    (hfuel : s.length < fuel) : Js.unquote fuel (ascii s ++ 0x22 :: rest) = some (ascii s, rest) := by
  induction s generalizing fuel with
  | nil =>
    obtain ⟨n, rfl⟩ : ∃ n, fuel = n + 1 := ⟨fuel - 1, by rw [List.length_nil] at hfuel; omega⟩
    rfl
  | cons c s ih =>
    obtain ⟨n, rfl⟩ : ∃ n, fuel = n + 1 := ⟨fuel - 1, by rw [List.length_cons] at hfuel; omega⟩
    rw [List.length_cons] at hfuel
    obtain ⟨hlo, -, hquote, hback, -⟩ := h c (List.mem_cons_self ..)
    have hq : c.toUInt16 ≠ 0x22 := fun heq => hquote (toUInt16_inj.1 (heq.trans rfl))
    have hb : c.toUInt16 ≠ 0x5C := fun heq => hback (toUInt16_inj.1 (heq.trans rfl))
    have hge : ¬ c.toUInt16 < 0x20 := by
      rw [UInt16.lt_iff_toNat_lt, UInt8.toNat_toUInt16]
      have := UInt8.lt_iff_toNat_lt.1 hlo
      exact Nat.not_lt.2 (Nat.le_of_lt this)
    show Js.unquote (n + 1) (c.toUInt16 :: (ascii s ++ 0x22 :: rest)) = _
    rw [Js.unquote, if_neg hq, if_neg hb, if_neg hge,
      ih (fun d hd => h d (List.mem_cons_of_mem _ hd)) (by omega)]
    rfl

theorem marshalString_address {s : GoString} (h : ∀ c ∈ s, IsAddressChar c) :
    marshalString s = 0x22 :: (s ++ [0x22]) := by
  have hrunes : (segments s).flatMap marshalRune = s := by
    induction s with
    | nil => rfl
    | cons c s ih =>
      obtain ⟨hlo, hhi, hquote, hback, hless, hgreater, hamp⟩ := h c (List.mem_cons_self ..)
      have hlt : c.toNat < 0x80 := Nat.lt_of_lt_of_le (UInt8.lt_iff_toNat_lt.1 hhi) (by decide)
      have hge : ∀ d : UInt8, d ≤ 0x20 → c ≠ d := by
        rintro d hd rfl
        exact absurd (UInt8.lt_iff_toNat_lt.1 hlo) (Nat.not_lt.2 (UInt8.le_iff_toNat_le.1 hd))
      have hbyte : quoteByte c = [c] := by
        unfold quoteByte
        rw [if_neg (by simp [hquote, hback]), if_neg (hge 0x08 (by decide)), if_neg (hge 0x09 (by decide)),
          if_neg (hge 0x0A (by decide)), if_neg (hge 0x0C (by decide)), if_neg (hge 0x0D (by decide)),
          if_neg (by rw [UInt8.lt_iff_toNat_lt]; exact Nat.not_lt.2 (Nat.le_of_lt (UInt8.lt_iff_toNat_lt.1 hlo)))]
      have hrune : marshalRune ⟨c.toNat, [c]⟩ = [c] := by
        show (if c.toNat < 0x80 then marshalByte c else _) = _
        unfold marshalByte
        rw [if_pos hlt, if_neg (by simp [hless, hgreater, hamp]), hbyte]
      rw [segments_cons hlt, List.flatMap_cons, hrune, ih fun d hd => h d (List.mem_cons_of_mem _ hd)]
      rfl
  unfold marshalString
  rw [hrunes]

theorem Draws.vpcUrl_chars (d : Draws) : ∀ c ∈ d.vpcUrl, IsAddressChar c := by
  have hscheme : ∀ c ∈ str "http://", IsAddressChar c := forall_of_all (by decide)
  have hcolon : ∀ c ∈ str ":", IsAddressChar c := forall_of_all (by decide)
  intro c hc
  unfold Draws.vpcUrl at hc
  rcases List.mem_append.1 hc with hc | hc
  · rcases List.mem_append.1 hc with hc | hc
    · rcases List.mem_append.1 hc with hc | hc
      · exact hscheme c hc
      · exact d.address_chars c (List.mem_append_left _ hc)
    · exact hcolon c hc
  · exact d.address_chars c (List.mem_append_right _ hc)

theorem expect_self {c : UInt16} (h : isJsonSpace c = false) (rest : JsString) :
    Js.expect c (c :: rest) = some rest := by
  unfold Js.expect Js.skipSpace
  rw [List.dropWhile_cons_of_neg (by simp [h])]
  exact if_pos rfl

theorem expect_other {c d : UInt16} (h : isJsonSpace d = false) (hne : d ≠ c) (rest : JsString) :
    Js.expect c (d :: rest) = none := by
  unfold Js.expect Js.skipSpace
  rw [List.dropWhile_cons_of_neg (by simp [h])]
  exact if_neg hne

/-- A string in quotes. -/
theorem parseValue_address {s : GoString} (h : ∀ c ∈ s, IsAddressChar c) (fuel : Nat) (rest : JsString) :
    Js.parseValue (fuel + 1) (0x22 :: (ascii s ++ 0x22 :: rest)) = some (.str (ascii s), rest) := by
  have hlen : s.length < (ascii s ++ 0x22 :: rest).length + 1 := by
    rw [List.length_append, ascii, List.length_map]
    omega
  unfold Js.parseValue Js.skipSpace
  rw [List.dropWhile_cons_of_neg (by decide)]
  dsimp only
  rw [if_pos rfl, unquote_address h rest hlen]
  rfl

section Members

variable {key s : GoString} (hkey : ∀ c ∈ key, IsAddressChar c) (h : ∀ c ∈ s, IsAddressChar c) (fuel : Nat)
include hkey h

/-- A member whose key and value are in quotes, before what comes next is looked at. -/
theorem parseMembers_head (tail : JsString) :
    Js.parseMembers (fuel + 2)
        (0x22 :: (ascii key ++ 0x22 :: 0x3A :: 0x22 :: (ascii s ++ 0x22 :: tail))) =
      ((Js.expect 0x7D tail).map fun rest => ([(ascii key, JsonValue.str (ascii s))], rest)).or
        ((Js.expect 0x2C tail).bind fun rest =>
          (Js.parseMembers (fuel + 1) rest).map fun p => ((ascii key, .str (ascii s)) :: p.1, p.2)) := by
  generalize hvalue : (0x3A :: 0x22 :: (ascii s ++ 0x22 :: tail) : JsString) = value
  have hlen : key.length < (ascii key ++ 0x22 :: value).length + 1 := by
    rw [List.length_append, ascii, List.length_map]
    omega
  rw [Js.parseMembers, expect_self (by decide)]
  dsimp only [Option.bind_eq_bind, Option.bind_some]
  rw [unquote_address hkey value hlen, Option.bind_some, ← hvalue, expect_self (by decide),
    Option.bind_some, parseValue_address h, Option.bind_some]
  cases Js.expect 0x7D tail with
  | some rest => rfl
  | none =>
    cases Js.expect 0x2C tail with
    | none => rfl
    | some rest =>
      dsimp only [Option.bind_some, Option.map_none, Option.none_or]
      cases Js.parseMembers (fuel + 1) rest <;> rfl

/-- The last member. -/
theorem parseMembers_last (rest : JsString) :
    Js.parseMembers (fuel + 2)
        (0x22 :: (ascii key ++ 0x22 :: 0x3A :: 0x22 :: (ascii s ++ 0x22 :: 0x7D :: rest))) =
      some ([(ascii key, .str (ascii s))], rest) := by
  rw [parseMembers_head hkey h, expect_self (by decide)]
  rfl

/-- A member in front of others. -/
theorem parseMembers_more (rest : JsString) :
    Js.parseMembers (fuel + 2)
        (0x22 :: (ascii key ++ 0x22 :: 0x3A :: 0x22 :: (ascii s ++ 0x22 :: 0x2C :: rest))) =
      (Js.parseMembers (fuel + 1) rest).map fun p => ((ascii key, .str (ascii s)) :: p.1, p.2) := by
  rw [parseMembers_head hkey h, expect_other (by decide) (by decide), expect_self (by decide)]
  rfl

end Members

/-- The members of the safe as the page reads them. -/
def Draws.members (d : Draws) : List (JsString × JsonValue) :=
  [(ascii "sessionToken", .str (ascii d.sessionToken)), (ascii "vpcUrl", .str (ascii d.vpcUrl))]

/-- The page reads the safe in the clear as it was written. -/
theorem Draws.safeJSON_parsed (d : Draws) :
    jsonParse (textDecode d.safeJSON) = some (.obj d.members) := by
  have htokenKey : ∀ c ∈ str "sessionToken", IsAddressChar c := forall_of_all (by decide)
  have hurlKey : ∀ c ∈ str "vpcUrl", IsAddressChar c := forall_of_all (by decide)
  let second : GoString := 0x22 :: (str "vpcUrl" ++ 0x22 :: 0x3A :: 0x22 :: (d.vpcUrl ++ [0x22, 0x7D]))
  let members : GoString :=
    0x22 :: (str "sessionToken" ++ 0x22 :: 0x3A :: 0x22 :: (d.sessionToken ++ 0x22 :: 0x2C :: second))
  have hbytes : d.safeJSON = 0x7B :: members := by
    unfold Draws.safeJSON marshalObject marshalMember
    simp only [List.map_cons, List.map_nil, joinComma, marshalString_address htokenKey,
      marshalString_address hurlKey, marshalString_address d.token_chars.2,
      marshalString_address d.vpcUrl_chars]
    simp [members, second]
  have hascii : ∀ c ∈ members, c.toNat < 0x80 := by
    have hlt : ∀ c, IsAddressChar c → c.toNat < 0x80 := fun c hc =>
      Nat.lt_of_lt_of_le (UInt8.lt_iff_toNat_lt.1 hc.2.1) (by decide)
    intro c hc
    simp only [members, second, List.mem_cons, List.mem_append, List.not_mem_nil, or_false] at hc
    rcases hc with rfl | hc | rfl | rfl | rfl | hc | rfl | rfl | rfl | hc | rfl | rfl | rfl | hc | rfl | rfl
    all_goals first
      | exact hlt c (htokenKey c hc)
      | exact hlt c (hurlKey c hc)
      | exact hlt c (d.token_chars.2 c hc)
      | exact hlt c (d.vpcUrl_chars c hc)
      | decide
  have htext : textDecode d.safeJSON = 0x7B :: ascii members := by
    have hplain : (codePoints (0x7B :: members)).head? ≠ some 0xFEFF := by
      rw [codePoints_cons_ascii (by decide)]
      exact fun h => absurd (Option.some.inj h) (by decide)
    have hread := utf8Decode_append_ascii hascii []
    rw [List.append_nil] at hread
    rw [hbytes, (textDecode_eq_iff _).2 hplain, utf8Decode_cons_ascii (by decide), hread]
    exact congrArg _ (List.append_nil _)
  have hsecond : ascii second =
      0x22 :: (ascii "vpcUrl" ++ 0x22 :: 0x3A :: 0x22 :: (ascii d.vpcUrl ++ 0x22 :: 0x7D :: [])) := by
    simp [ascii, second]
  have hfirst : ascii members =
      0x22 :: (ascii "sessionToken" ++ 0x22 :: 0x3A :: 0x22 ::
        (ascii d.sessionToken ++ 0x22 :: 0x2C :: ascii second)) := by
    simp [ascii, members]
  have hstrip : strip isJsonSpace (0x7B :: ascii members) = 0x7B :: ascii members := by
    have hlast : (0x7B :: ascii members).getLast? = some 0x7D := by
      rw [hfirst, hsecond]
      simp [List.getLast?_cons, List.getLast?_append]
    have h := @strip_eq isJsonSpace [] (0x7B :: ascii members) [] (by simp) (by simp) 0x7B 0x7D rfl
      (by decide) hlast (by decide)
    rw [List.nil_append, List.append_nil] at h
    exact h
  have hmembers : ∀ fuel, Js.parseMembers (fuel + 3) (ascii members) = some (d.members, []) := by
    intro fuel
    rw [hfirst, parseMembers_more htokenKey d.token_chars.2 (fuel + 1), hsecond,
      parseMembers_last hurlKey d.vpcUrl_chars fuel]
    rfl
  obtain ⟨fuel, hfuel⟩ : ∃ fuel, (0x7B :: ascii members).length + 1 = fuel + 4 := by
    refine ⟨members.length - 2, ?_⟩
    have hlen : 2 ≤ members.length := by
      simp only [members, second, List.length_cons, List.length_append]
      omega
    rw [List.length_cons, ascii, List.length_map]
    omega
  unfold jsonParse
  dsimp only
  have hopen : Js.expect 0x7D (ascii members) = none := by
    rw [hfirst]
    exact expect_other (by decide) (by decide) _
  have hskip : Js.skipSpace (0x7B :: ascii members) = 0x7B :: ascii members :=
    List.dropWhile_cons_of_neg (by decide)
  have hvalue : Js.parseValue (fuel + 4) (0x7B :: ascii members) = some (.obj d.members, []) := by
    rw [Js.parseValue, hskip]
    dsimp only
    rw [if_neg (by decide), if_pos rfl, hopen]
    dsimp only
    rw [hmembers]
    rfl
  rw [htext, hstrip, hfuel, hvalue]

/-- The safe of a challenge is opened with its time and its clicks. -/
theorem safeContents_own (V : Vault) (time : JsString) (clicks : Int) (d : Draws) :
    safeContents V time clicks
        (btoa (V.encrypt (textEncode (passphrase time clicks)) d.salt d.iv d.safeJSON)) (btoa d.salt)
        (btoa d.iv) =
      some (.str (ascii d.vpcUrl), .str (ascii d.sessionToken)) := by
  have hurl : jsonMember (ascii "vpcUrl") (.obj d.members) = some (.str (ascii d.vpcUrl)) := rfl
  have htoken : jsonMember (ascii "sessionToken") (.obj d.members) = some (.str (ascii d.sessionToken)) :=
    rfl
  have hne : ascii d.sessionToken ≠ [] := fun h => d.token_chars.1 (List.map_eq_nil_iff.1 h)
  have htruthy : JsonTruthy (.str (ascii d.vpcUrl)) ∧ JsonTruthy (.str (ascii d.sessionToken)) :=
    ⟨rfl, decide_eq_true hne⟩
  unfold safeContents
  simp only [V.decrypt_encrypt, d.safeJSON_parsed, Option.bind_eq_bind, Option.bind_some, hurl, htoken]
  exact if_pos htruthy

variable {V : Vault} {time : JsString} {clicks : Int}

theorem realAnswer_open (s : Safe) : ¬ (realAnswer s).LockedDown := by
  show ascii (str "locked_down_correct_time") ∉ [ascii (str "success"), ascii (str "encrypted_safe"),
    ascii (str "salt"), ascii (str "iv")]
  decide

theorem fakeAnswer_open (d : Decoy) : ¬ (fakeAnswer d).LockedDown := by
  show ascii (str "locked_down_correct_time") ∉ [ascii (str "success"), ascii (str "encrypted_safe"),
    ascii (str "salt"), ascii (str "iv"), ascii (str "is_fake")]
  decide

/-- The page connects with what the safe that it is given holds. -/
theorem processChallenge_real (s : Safe) {vpcUrl sessionToken : JsonValue} :
    processChallenge V time clicks (realAnswer s) = .connected vpcUrl sessionToken ↔
      safeContents V time clicks s.encryptedSafe s.salt s.iv = some (vpcUrl, sessionToken) := by
  have hsuccess : ∃ v ∈ (realAnswer s).body.lookup (ascii "success"), JsonTruthy v :=
    ⟨.bool true, rfl, rfl⟩
  have hsafe : (realAnswer s).text (ascii "encrypted_safe") = some s.encryptedSafe := rfl
  have hsalt : (realAnswer s).text (ascii "salt") = some s.salt := rfl
  have hiv : (realAnswer s).text (ascii "iv") = some s.iv := rfl
  unfold processChallenge
  rw [if_neg (by show ¬ (200 : Nat) = 429; decide), if_neg (not_not.2 hsuccess)]
  simp only [hsafe, hsalt, hiv, Option.bind_eq_bind, Option.bind_some, if_neg (realAnswer_open s)]
  cases hcontents : safeContents V time clicks s.encryptedSafe s.salt s.iv with
  | none => exact iff_of_false nofun nofun
  | some c =>
    constructor
    · rintro ⟨⟩
      rfl
    · rintro ⟨⟩
      rfl

/-- A decoy that nothing opens. -/
theorem processChallenge_noise {d : Decoy}
    (h : ∀ passphrase, V.decrypt passphrase (btoa d.salt) (btoa d.iv) (btoa d.safe) = none) :
    processChallenge V time clicks (fakeAnswer d) = .failed := by
  have hsuccess : ∃ v ∈ (fakeAnswer d).body.lookup (ascii "success"), JsonTruthy v :=
    ⟨.bool true, rfl, rfl⟩
  have hsafe : (fakeAnswer d).text (ascii "encrypted_safe") = some (btoa d.safe) := rfl
  have hsalt : (fakeAnswer d).text (ascii "salt") = some (btoa d.salt) := rfl
  have hiv : (fakeAnswer d).text (ascii "iv") = some (btoa d.iv) := rfl
  have hcontents : safeContents V time clicks (btoa d.safe) (btoa d.salt) (btoa d.iv) = none := by
    unfold safeContents
    rw [h]
    rfl
  unfold processChallenge
  rw [if_neg (by show ¬ (200 : Nat) = 429; decide), if_neg (not_not.2 hsuccess)]
  simp only [hsafe, hsalt, hiv, Option.bind_eq_bind, Option.bind_some, hcontents,
    if_neg (fakeAnswer_open d)]

/-! ## The page asks for the phone and the time -/

/-- A character that means only itself in a query. -/
def IsQueryChar (c : UInt8) : Prop := 0x20 < c ∧ c < 0x7F ∧ c ∉ [0x23, 0x25, 0x26, 0x2B]

instance (c : UInt8) : Decidable (IsQueryChar c) := inferInstanceAs (Decidable (_ ∧ _ ∧ _))

theorem IsQueryChar.ne {c : UInt8} (h : IsQueryChar c) (d : UInt8) (hd : d ∈ ([0x23, 0x25, 0x26, 0x2B] : GoString)) :
    c ≠ d := by
  rintro rfl
  exact h.2.2 hd

theorem isText_query {s : GoString} (h : ∀ c ∈ s, IsQueryChar c) : IsText (ascii s) := by
  intro u hu
  obtain ⟨c, hc, rfl⟩ := List.mem_map.1 hu
  obtain ⟨hlo, hhi, -⟩ := h c hc
  rw [UInt16.le_iff_toNat_le, UInt16.lt_iff_toNat_lt, UInt8.toNat_toUInt16]
  exact ⟨Nat.le_of_lt (UInt8.lt_iff_toNat_lt.1 hlo), UInt8.lt_iff_toNat_lt.1 hhi⟩

theorem percentDecode_plain {s : GoString} (h : (0x25 : UInt8) ∉ s) : percentDecode s = s := by
  induction s with
  | nil => rfl
  | cons c s ih =>
    obtain ⟨hc, hs⟩ := not_or.1 (mt List.mem_cons.2 h)
    unfold percentDecode
    split
    · next heq => exact absurd (List.cons.inj heq).1.symm hc
    · next heq =>
      obtain ⟨rfl, rfl⟩ := List.cons.inj heq
      rw [ih hs]
    · next heq => cases heq

theorem formDecode_plain {s : GoString} (h : ∀ c ∈ s, IsQueryChar c) : formDecode (ascii s) = ascii s := by
  have hplus : ((ascii s).map fun u => if u = 0x2B then 0x20 else u) = ascii s := by
    refine (List.map_congr_left fun u hu => ?_).trans (List.map_id _)
    obtain ⟨c, hc, rfl⟩ := List.mem_map.1 hu
    exact if_neg fun heq => (h c hc).ne 0x2B (by decide) (toUInt16_inj.1 (heq.trans rfl))
  have hpercent : percentDecode s = s := percentDecode_plain fun hmem => (h _ hmem).ne 0x25 (by decide) rfl
  have hread := utf8Decode_append_ascii
    (fun c hc => Nat.lt_trans (UInt8.lt_iff_toNat_lt.1 (h c hc).2.1) (by decide)) []
  rw [List.append_nil] at hread
  unfold formDecode
  rw [hplus, textEncode_ascii (isText_query h), hpercent, hread]
  exact List.append_nil _

theorem splitOn_plain {c : UInt16} {s : JsString} (h : c ∉ s) : splitOn c s = [s] := by
  induction s with
  | nil => rfl
  | cons u s ih =>
    obtain ⟨hu, hs⟩ := not_or.1 (mt List.mem_cons.2 h)
    unfold splitOn
    rw [if_neg fun heq => hu heq.symm, ih hs]

theorem splitOn_append {c : UInt16} {a : JsString} (h : c ∉ a) (b : JsString) :
    splitOn c (a ++ c :: b) = a :: splitOn c b := by
  induction a with
  | nil => exact if_pos rfl
  | cons u a ih =>
    obtain ⟨hu, ha⟩ := not_or.1 (mt List.mem_cons.2 h)
    show splitOn c (u :: (a ++ c :: b)) = _
    rw [splitOn, if_neg fun heq => hu heq.symm, ih ha]

/-- A name and a value between `=`. -/
theorem param_plain {name s : GoString} (hname : ∀ c ∈ name, IsQueryChar c ∧ c ≠ 0x3D)
    (h : ∀ c ∈ s, IsQueryChar c) :
    formDecode ((ascii name ++ 0x3D :: ascii s).takeWhile fun u => u ≠ 0x3D) = ascii name ∧
      formDecode (((ascii name ++ 0x3D :: ascii s).dropWhile fun u => u ≠ 0x3D).drop 1) = ascii s := by
  have hne : ∀ u ∈ ascii name, decide (u ≠ 0x3D) = true := by
    intro u hu
    obtain ⟨c, hc, rfl⟩ := List.mem_map.1 hu
    exact decide_eq_true fun heq => (hname c hc).2 (toUInt16_inj.1 (heq.trans rfl))
  rw [List.takeWhile_append_of_pos hne, List.dropWhile_append_of_pos hne]
  constructor
  · rw [List.takeWhile_cons_of_neg (by simp), List.append_nil]
    exact formDecode_plain fun c hc => (hname c hc).1
  · rw [List.dropWhile_cons_of_neg (by simp)]
    exact formDecode_plain h

/-- The page asks for a phone and a time in which nothing means anything in a query: digits, for
example, but not a leading `+`. -/
theorem pageLookup_plain (ip : JsString) {phone time : GoString} (hphone : ∀ c ∈ phone, IsQueryChar c)
    (htime : ∀ c ∈ time, IsQueryChar c) :
    (pageLookup ip (ascii phone) (ascii time)).AsksFor (ascii phone) (ascii time) := by
  let first : GoString := str "phone" ++ 0x3D :: phone
  let second : GoString := str "time" ++ 0x3D :: time
  have hplain : ∀ {name s : GoString}, (∀ c ∈ name, IsQueryChar c) → (∀ c ∈ s, IsQueryChar c) →
      ∀ c ∈ name ++ 0x3D :: s, IsQueryChar c := by
    intro name s hname hs c hc
    rcases List.mem_append.1 hc with hc | hc
    · exact hname c hc
    · rcases List.mem_cons.1 hc with rfl | hc
      · decide
      · exact hs c hc
  have hphoneName : ∀ c ∈ str "phone", IsQueryChar c ∧ c ≠ 0x3D := forall_of_all (by decide)
  have htimeName : ∀ c ∈ str "time", IsQueryChar c ∧ c ≠ 0x3D := forall_of_all (by decide)
  have hfirst := hplain (fun c hc => (hphoneName c hc).1) hphone
  have hsecond := hplain (fun c hc => (htimeName c hc).1) htime
  have hamp : ∀ {s : GoString}, (∀ c ∈ s, IsQueryChar c) → (0x26 : UInt16) ∉ ascii s := by
    intro s hs hmem
    obtain ⟨c, hc, heq⟩ := List.mem_map.1 hmem
    exact (hs c hc).ne 0x26 (by decide) (toUInt16_inj.1 (heq.trans rfl))
  have htext : ascii "phone=" ++ ascii phone ++ ascii "&time=" ++ ascii time =
      ascii first ++ 0x26 :: ascii second := by
    have hnames : str "phone=" = str "phone" ++ [0x3D] ∧ str "&time=" = 0x26 :: (str "time" ++ [0x3D]) :=
      ⟨rfl, rfl⟩
    rw [hnames.1, hnames.2]
    simp [ascii, first, second]
  have hquery : queryOf (ascii first ++ 0x26 :: ascii second) = ascii first ++ 0x26 :: ascii second := by
    have hall : ∀ c ∈ first ++ 0x26 :: second, 0x20 < c ∧ c ≠ 0x23 := by
      intro c hc
      rcases List.mem_append.1 hc with hc | hc
      · exact ⟨(hfirst c hc).1, (hfirst c hc).ne 0x23 (by decide)⟩
      · rcases List.mem_cons.1 hc with rfl | hc
        · decide
        · exact ⟨(hsecond c hc).1, (hsecond c hc).ne 0x23 (by decide)⟩
    have hascii : ascii first ++ 0x26 :: ascii second = ascii (first ++ 0x26 :: second) := by
      simp [ascii]
    unfold queryOf
    rw [hascii, List.filter_eq_self.2, List.takeWhile_eq_self_iff.2]
    · intro u hu
      obtain ⟨c, hc, rfl⟩ := List.mem_map.1 hu
      exact decide_eq_true fun heq => (hall c hc).2 (toUInt16_inj.1 (heq.trans rfl))
    · intro u hu
      obtain ⟨c, hc, rfl⟩ := List.mem_map.1 hu
      have hlo := UInt8.lt_iff_toNat_lt.1 (hall c hc).1
      have hge : ∀ v : UInt16, v.toNat ≤ 0x20 → c.toUInt16 ≠ v := by
        rintro v hv rfl
        rw [UInt8.toNat_toUInt16] at hv
        exact absurd hlo (Nat.not_lt.2 hv)
      exact decide_eq_true ⟨hge 0x09 (by decide), hge 0x0A (by decide), hge 0x0D (by decide)⟩
  have hpieces : (splitOn 0x26 (ascii first ++ 0x26 :: ascii second)).filter (fun p => p ≠ []) =
      [ascii first, ascii second] := by
    rw [splitOn_append (hamp hfirst), splitOn_plain (hamp hsecond)]
    rfl
  have h1 := param_plain hphoneName hphone
  have h2 := param_plain htimeName htime
  unfold Lookup.AsksFor pageLookup searchParam
  dsimp only
  have hparts : ascii first = ascii "phone" ++ 0x3D :: ascii phone ∧
      ascii second = ascii "time" ++ 0x3D :: ascii time := by
    simp [ascii, first, second]
  rw [htext, hquery, hpieces, hparts.1, hparts.2, List.map_cons, List.map_cons, h1.1, h1.2, h2.1, h2.2]
  exact ⟨rfl, rfl⟩

/-! ## The safe waits for its lookup -/

/-- The row that a lookup has selected and is not done with. -/
def Phase.held : Phase → Option Nat
  | .found safe => safe.map Row.id
  | .destroying safe => some safe.id
  | .counting safe => safe.map Row.id
  | .consuming safe => some safe.id
  | _ => none

/-- A lookup that has not selected yet. -/
def Phase.isEarly : Phase → Bool
  | .start => true
  | .rated _ => true
  | .resetting => true
  | .looking => true
  | _ => false

theorem newest_spec {db : Database} {l : Lookup} {pick : Nat} {safe : Row Safe}
    (h : db.newest l pick = some safe) :
    safe ∈ db.safes.rows ∧ safe.val.Matches l ∧
      ∀ r ∈ db.safes.rows, r.val.Matches l → r.val.createdAt ≤ safe.val.createdAt := by
  have hspec := List.find?_some h
  simp only [decide_eq_true_eq] at hspec
  exact ⟨List.mem_of_find?_eq_some h, hspec.2⟩

section Moves

variable {db db' : Database} {clock : Nat} {l : Lookup} {phase phase' : Phase}

theorem Moves.unanswered (h : Moves db clock l phase db' phase') : phase.isAnswered = false := by
  cases h <;> rfl

/-- What a lookup holds it has held before, or it selects it now. -/
theorem Moves.held (h : Moves db clock l phase db' phase') {id : Nat} (hid : phase'.held = some id) :
    phase.held = some id ∨ ∃ safe ∈ db.safes.rows, safe.val.Matches l ∧ safe.id = id := by
  cases h with
  | find safe pick hfind =>
    obtain ⟨hmem, hmatch, -⟩ := newest_spec hfind
    exact .inr ⟨safe, hmem, hmatch, Option.some.inj hid⟩
  | lock safe => exact .inl hid
  | go safe => exact .inl hid
  | count safe => exact .inl hid
  | _ => cases hid

/-- Only the row that is held can change. -/
theorem Moves.keeps_row (h : Moves db clock l phase db' phase') {own : Row Safe}
    (hown : own ∈ db.safes.rows) (hid : phase.held ≠ some own.id) : own ∈ db'.safes.rows := by
  cases h with
  | destroy safe d =>
    refine List.mem_filter.2 ⟨hown, ?_⟩
    have hne : own.id ≠ safe.id := fun h => hid (congrArg some h.symm)
    simp [hne]
  | consume safe =>
    have hne : own.id ≠ safe.id := fun h => hid (congrArg some h.symm)
    exact Table.mem_update.2 (.inl ⟨hown, hne⟩)
  | _ => exact hown

/-- Before it selects, a lookup leaves the safes alone. -/
theorem Moves.early (h : Moves db clock l phase db' phase') (hearly : phase'.isEarly = true) :
    phase.isEarly = true ∧ db'.safes = db.safes := by
  cases h with
  | read => exact ⟨rfl, rfl⟩
  | pass row hpass => exact ⟨rfl, rfl⟩
  | expire row hold => exact ⟨rfl, rfl⟩
  | reset => exact ⟨rfl, rfl⟩
  | _ => cases hearly

end Moves

/-- No lookup holds a row that is not there yet. -/
def HeldOld (w : Directory) : Prop := ∀ q ∈ w.requests, ∀ id, q.phase.held = some id → id ≤ w.db.safes.seq

theorem heldOld_step {w w' : Directory} {a : DirectoryAction} (h : HeldOld w)
    (hstep : directoryStep w a = some w') : HeldOld w' := by
  rcases directoryStep_cases hstep with ⟨i, l, phase, phase', db, pick, d, rfl, hi, hmove, rfl⟩ |
    ⟨i, l, phase, rfl, hi, hnone, rfl⟩ | ⟨l, rfl, rfl⟩ | ⟨phone, safe, salt, iv, time, rfl, hs'⟩ |
    ⟨ms, rfl, rfl⟩
  · intro q hq id hid
    show id ≤ db.safes.seq
    rw [hmove.safes.1]
    rcases List.mem_or_eq_of_mem_set hq with hq | rfl
    · exact h q hq id hid
    · rcases hmove.held hid with hheld | ⟨safe, hmem, -, rfl⟩
      · exact h _ (List.mem_of_getElem? hi) id hheld
      · exact w.db.safes.le_seq safe hmem
  · exact fun q hq => h q (List.mem_of_mem_eraseIdx hq)
  · intro q hq id hid
    rcases List.mem_append.1 hq with hq | hq
    · exact h q hq id hid
    · obtain rfl := List.mem_singleton.1 hq
      cases hid
  · rcases hs' with rfl | rfl
    · exact h
    · exact fun q hq id hid => Nat.le_succ_of_le (h q hq id hid)
  · exact h

/-- The row is in the table, and nobody holds it or asks for it. -/
structure Waits (own : Row Safe) (w : Directory) : Prop where
  row : own ∈ w.db.safes.rows
  unheld : ∀ q ∈ w.requests, q.phase.held ≠ some own.id
  quiet : ∀ q ∈ w.requests, q.phase.isAnswered = true ∨
    ¬ q.lookup.AsksFor own.val.phoneNumber own.val.accessTime

/-- Whatever happens in the directory, short of a lookup of this time. -/
theorem waits_step {own : Row Safe} {w w' : Directory} {a : DirectoryAction} (h : Waits own w)
    (ha : (LoginAction.others a).Quiet own.val.phoneNumber own.val.accessTime)
    (hstep : directoryStep w a = some w') : Waits own w' := by
  rcases directoryStep_cases hstep with ⟨i, l, phase, phase', db, pick, d, rfl, hi, hmove, rfl⟩ |
    ⟨i, l, phase, rfl, hi, hnone, rfl⟩ | ⟨l, rfl, rfl⟩ | ⟨phone, safe, salt, iv, time, rfl, hs'⟩ |
    ⟨ms, rfl, rfl⟩
  · have hq := List.mem_of_getElem? hi
    have helse : ¬ l.AsksFor own.val.phoneNumber own.val.accessTime := by
      rcases h.quiet _ hq with hanswered | helse
      · rw [hmove.unanswered] at hanswered
        cases hanswered
      · exact helse
    refine ⟨hmove.keeps_row h.row (h.unheld _ hq), fun q hq' => ?_, fun q hq' => ?_⟩
    · rcases List.mem_or_eq_of_mem_set hq' with hq' | rfl
      · exact h.unheld q hq'
      · intro hid
        rcases hmove.held hid with hheld | ⟨safe, hmem, hmatch, hid⟩
        · exact h.unheld _ hq hheld
        · -- a lookup that selects the row asks for it
          obtain rfl := Table.row_unique hmem h.row hid
          exact helse ⟨hmatch.1.symm, hmatch.2.1.symm⟩
    · rcases List.mem_or_eq_of_mem_set hq' with hq' | rfl
      · exact h.quiet q hq'
      · exact .inr helse
  · exact ⟨h.row, fun q hq => h.unheld q (List.mem_of_mem_eraseIdx hq),
      fun q hq => h.quiet q (List.mem_of_mem_eraseIdx hq)⟩
  · refine ⟨h.row, fun q hq => ?_, fun q hq => ?_⟩
    · rcases List.mem_append.1 hq with hq | hq
      · exact h.unheld q hq
      · obtain rfl := List.mem_singleton.1 hq
        nofun
    · rcases List.mem_append.1 hq with hq | hq
      · exact h.quiet q hq
      · obtain rfl := List.mem_singleton.1 hq
        exact .inr ha
  · rcases hs' with rfl | rfl
    · exact h
    · exact ⟨Table.mem_insert.2 (.inl h.row), h.unheld, h.quiet⟩
  · exact ⟨h.row, h.unheld, h.quiet⟩

/-! ## The lookup of the page -/

/-- Something happens in the directory, or the lookup makes a move. -/
theorem loginStep_cases {l : Lookup} {s s' : Login} {x : LoginAction} (h : loginStep l s x = some s') :
    (∃ a w, x = .others a ∧ directoryStep s.world a = some w ∧ s' = ⟨w, s.phase⟩) ∨
      ∃ pick d db phase, x = .own pick d ∧ Moves s.world.db s.world.clock l s.phase db phase ∧
        s' = ⟨⟨db, s.world.clock, s.world.requests⟩, phase⟩ := by
  cases x with
  | others a =>
    obtain ⟨w, hw, rfl⟩ := Option.map_eq_some_iff.1 h
    exact .inl ⟨a, w, rfl, hw, rfl⟩
  | own pick d =>
    obtain ⟨⟨db, phase⟩, hstep, rfl⟩ := Option.map_eq_some_iff.1 h
    exact .inr ⟨pick, d, db, phase, rfl, lookupStep_moves hstep, rfl⟩

/-- Until the lookup of the page selects, the row waits. -/
theorem waits_login {l : Lookup} {own : Row Safe} {s s' : Login} {x : LoginAction}
    (h : s.phase.isEarly = true → Waits own s.world)
    (hx : x.Quiet own.val.phoneNumber own.val.accessTime) (hstep : loginStep l s x = some s') :
    s'.phase.isEarly = true → Waits own s'.world := by
  intro hearly
  rcases loginStep_cases hstep with ⟨a, w, rfl, hw, rfl⟩ | ⟨pick, d, db, phase, rfl, hmove, rfl⟩
  · exact waits_step (h hearly) hx hw
  · obtain ⟨hearly, hsafes⟩ := hmove.early hearly
    obtain ⟨hrow, hunheld, hquiet⟩ := h hearly
    refine ⟨?_, hunheld, hquiet⟩
    show own ∈ db.safes.rows
    rw [hsafes]
    exact hrow

/-- The lookup has selected this row, and answers with it unless it destroys it. -/
def Phase.Leads (safe : Row Safe) : Phase → Prop
  | .found s => s = some safe
  | .counting s => s = some safe
  | .consuming s => s = safe
  | .destroying _ => True
  | .answered _ r => r = realAnswer safe.val ∨ r.LockedDown
  | _ => False

theorem lockdownAnswer_lockedDown (d : Decoy) : (lockdownAnswer d).LockedDown := by
  show ascii (str "locked_down_correct_time") ∈ [ascii (str "success"), ascii (str "encrypted_safe"),
    ascii (str "salt"), ascii (str "iv"), ascii (str "locked_down_correct_time")]
  decide

theorem leads_login {l : Lookup} {safe : Row Safe} {s s' : Login} {x : LoginAction}
    (h : s.phase.Leads safe) (hstep : loginStep l s x = some s') : s'.phase.Leads safe := by
  rcases loginStep_cases hstep with ⟨a, w, rfl, hw, rfl⟩ | ⟨pick, d, db, phase, rfl, hmove, rfl⟩
  · exact h
  · obtain ⟨world, phase⟩ := s
    cases hmove with
    | lock safe' => trivial
    | go safe' => exact h
    | destroy safe' d => exact .inr (lockdownAnswer_lockedDown d)
    | count safe' => exact Option.some.inj h
    | consume safe' =>
      obtain rfl : safe' = safe := h
      exact .inl rfl
    | decoy d => cases h
    | _ => exact h.elim

/-! ## The newest row -/

/-- Of the rows with a property, some are the newest. -/
theorem exists_newest {rows : List (Row Safe)} {P : Row Safe → Prop} [DecidablePred P] {r : Row Safe}
    (hr : r ∈ rows) (hP : P r) :
    ∃ r' ∈ rows, P r' ∧ ∀ r'' ∈ rows, P r'' → r''.val.createdAt ≤ r'.val.createdAt := by
  let createdAt := fun r : Row Safe => r.val.createdAt
  have hmem : ∀ {r'}, r' ∈ rows.filter P ↔ r' ∈ rows ∧ P r' := by simp [List.mem_filter]
  have hsome : (rows.filter P).argmax createdAt ≠ none :=
    fun h => List.ne_nil_of_mem (hmem.2 ⟨hr, hP⟩) (List.argmax_eq_none.1 h)
  obtain ⟨r', hr'⟩ := Option.ne_none_iff_exists'.1 hsome
  obtain ⟨hrow, hP'⟩ := hmem.1 (List.argmax_mem hr')
  refine ⟨r', hrow, hP', fun r'' hr'' hP'' => ?_⟩
  have hle : createdAt r'' ≤ createdAt r' := List.le_of_mem_argmax (hmem.2 ⟨hr'', hP''⟩) hr'
  exact hle

/-- A row that is one of the newest can be picked. -/
theorem newest_of_max {db : Database} {l : Lookup} {r : Row Safe} (hr : r ∈ db.safes.rows)
    (hmatch : r.val.Matches l)
    (hmax : ∀ r' ∈ db.safes.rows, r'.val.Matches l → r'.val.createdAt ≤ r.val.createdAt) :
    db.newest l r.id = some r := by
  cases hfind : db.newest l r.id with
  | none =>
    have hno := List.find?_eq_none.1 hfind r hr
    exact absurd (decide_eq_true ⟨rfl, hmatch, hmax⟩) hno
  | some r' =>
    have hspec := List.find?_some hfind
    simp only [decide_eq_true_eq] at hspec
    rw [Table.row_unique (newest_spec hfind).1 hr hspec.1]

/-- Besides a row that is not newer than another one, there is one that can be picked. -/
theorem newest_other {db : Database} {l : Lookup} {own r : Row Safe} (hr : r ∈ db.safes.rows)
    (hmatch : r.val.Matches l) (hne : r.id ≠ own.id)
    (hold : own.val.Matches l → own.val.createdAt ≤ r.val.createdAt) (hown : own ∈ db.safes.rows) :
    ∃ r' ∈ db.safes.rows, r'.id ≠ own.id ∧ db.newest l r'.id = some r' := by
  obtain ⟨r', hr', ⟨hmatch', hne'⟩, hmax⟩ :=
    @exists_newest db.safes.rows (fun r' => r'.val.Matches l ∧ r'.id ≠ own.id) _ r hr ⟨hmatch, hne⟩
  refine ⟨r', hr', hne', newest_of_max hr' hmatch' fun r'' hr'' hmatch'' => ?_⟩
  by_cases hid : r''.id = own.id
  · obtain rfl := Table.row_unique hr'' hown hid
    exact Nat.le_trans (hold hmatch'') (hmax r hr ⟨hmatch, hne⟩)
  · exact hmax r'' hr'' ⟨hmatch'', hid⟩

/-- A lookup never gets stuck. -/
theorem lookup_goesOn (db : Database) (clock : Nat) (l : Lookup) (decoy : Decoy) {phase : Phase}
    (h : phase.isAnswered = false) : ∃ pick, (lookupStep db clock l pick decoy phase).isSome := by
  cases phase with
  | answered safe r => cases h
  | rated row =>
    refine ⟨none, ?_⟩
    cases row with
    | none => rfl
    | some row =>
      unfold lookupStep
      dsimp only
      split_ifs <;> rfl
  | looking =>
    by_cases hreal : ∃ r ∈ db.safes.rows, r.val.Matches l
    · obtain ⟨r, hr, hmatch⟩ := hreal
      obtain ⟨r', hr', hmatch', hmax⟩ :=
        @exists_newest db.safes.rows (fun r' => r'.val.Matches l) _ r hr hmatch
      refine ⟨some r'.id, ?_⟩
      show ((db.newest l r'.id).map _).isSome
      rw [newest_of_max hr' hmatch' hmax]
      rfl
    · refine ⟨none, ?_⟩
      unfold lookupStep
      dsimp only
      rw [if_neg hreal]
      rfl
  | found safe =>
    refine ⟨none, ?_⟩
    cases safe with
    | none => rfl
    | some safe =>
      unfold lookupStep
      dsimp only
      split_ifs <;> rfl
  | counting safe => exact ⟨none, by cases safe <;> rfl⟩
  | _ => exact ⟨none, rfl⟩

/-! ## Whether the page gets in -/

/-- The row of the challenge. -/
def ownRow (V : Vault) (req : ChallengeRequest) (d : Draws) (w : Directory) : Row Safe :=
  ⟨w.db.safes.seq + 1, ⟨req.phone,
    btoa (V.encrypt (textEncode (passphrase req.challengeTime req.challengeClicks)) d.salt d.iv d.safeJSON),
    btoa d.salt, btoa d.iv, req.challengeTime, false, w.clock / 1000⟩⟩

theorem btoa_ne_nil {s : GoString} (h : s ≠ []) : btoa s ≠ [] :=
  fun hnil => base64Encode_ne_nil h (List.map_eq_nil_iff.1 hnil)

variable {req : ChallengeRequest} {d : Draws} {a : DirectoryAction}

/-- A challenge that is accepted has a phone and a time, and its safe is deposited. -/
theorem challengeAuthHandler_spec (h : challengeAuthHandler V req d = some a) :
    (req.phone ≠ [] ∧ req.challengeTime ≠ []) ∧
      a = depositSafe V req.phone req.challengeTime req.challengeClicks d := by
  unfold challengeAuthHandler at h
  by_cases hbad : req.phone = [] ∨ req.challengeTime = [] ∨ req.challengeClicks < 1 ∨ req.challengeClicks > 8
  · rw [if_pos hbad] at h
    cases h
  · rw [if_neg hbad] at h
    exact ⟨⟨fun hp => hbad (.inl hp), fun ht => hbad (.inr (.inl ht))⟩, (Option.some.inj h).symm⟩

theorem deposit_own (h : challengeAuthHandler V req d = some a) (w : Directory) :
    directoryStep w a =
      some { w with db := { w.db with safes := w.db.safes.insert (ownRow V req d w).val } } := by
  obtain ⟨⟨hphone, htime⟩, rfl⟩ := challengeAuthHandler_spec h
  have hsalt : d.salt ≠ [] := fun hnil => by
    have := d.salt_length
    rw [hnil] at this
    cases this
  have hiv : d.iv ≠ [] := fun hnil => by
    have := d.iv_length
    rw [hnil] at this
    cases this
  have hfull : ¬ (req.phone = [] ∨ btoa (V.encrypt
      (textEncode (passphrase req.challengeTime req.challengeClicks)) d.salt d.iv d.safeJSON) = [] ∨
      btoa d.salt = [] ∨ btoa d.iv = [] ∨ req.challengeTime = []) := by
    rintro (h | h | h | h | h)
    · exact hphone h
    · exact btoa_ne_nil (V.encrypt_ne_nil _ _ _ _) h
    · exact btoa_ne_nil hsalt h
    · exact btoa_ne_nil hiv h
    · exact htime h
  exact if_neg hfull

/-- Right after the deposit the safe waits, when no lookup of its time is under way. -/
theorem waits_start (h : challengeAuthHandler V req d = some a) {before : List DirectoryAction}
    {w w' : Directory} (hbefore : runSteps directoryStep .empty before = some w)
    (hidle : ∀ q ∈ w.requests, q.phase.isAnswered = true ∨ ¬ q.lookup.AsksFor req.phone req.challengeTime)
    (hdeposit : directoryStep w a = some w') : Waits (ownRow V req d w) w' := by
  have hold : HeldOld w := runSteps_invariant (fun _ _ _ => heldOld_step) hbefore nofun
  rw [deposit_own h] at hdeposit
  cases hdeposit
  refine ⟨Table.mem_insert.2 (.inr rfl), fun q hq hid => ?_, hidle⟩
  have hle := hold q hq _ hid
  exact absurd hle (Nat.not_succ_le_self _)

section Page

variable {l : Lookup} {s : Login}

/-- The steps of the page from the selection on, when the safes are not destroyed. -/
theorem answered_real {r : Row Safe} (hphase : s.phase = .looking)
    (hpick : s.world.db.newest l r.id = some r)
    (hfew : s.world.db.globalAttempts l.phone (s.world.clock / 1000) < 20) (decoy : Decoy) :
    ∃ s', runSteps (loginStep l) s
        [.own (some r.id) decoy, .own none decoy, .own none decoy, .own none decoy] = some s' ∧
      s'.phase = .answered (some r) (realAnswer r.val) := by
  obtain ⟨⟨db, clock, requests⟩, phase⟩ := s
  obtain rfl : phase = .looking := hphase
  have h1 : loginStep l ⟨⟨db, clock, requests⟩, .looking⟩ (.own (some r.id) decoy) =
      some ⟨⟨db, clock, requests⟩, .found (some r)⟩ := by
    show ((db.newest l r.id).map _).map _ = _
    rw [show db.newest l r.id = some r from hpick]
    rfl
  have h2 : loginStep l ⟨⟨db, clock, requests⟩, .found (some r)⟩ (.own none decoy) =
      some ⟨⟨db, clock, requests⟩, .counting (some r)⟩ := by
    have hstep : lookupStep db clock l none decoy (.found (some r)) = some (db, .counting (some r)) :=
      if_neg (Nat.not_le.2 hfew)
    unfold loginStep
    dsimp only
    rw [hstep]
    rfl
  exact ⟨_, runSteps_cons_eq_some.2 ⟨_, h1, runSteps_cons_eq_some.2 ⟨_, h2, rfl⟩⟩, rfl⟩

/-- The page is given a decoy when there is no safe. -/
theorem answered_decoy (hphase : s.phase = .looking)
    (hnone : ¬ ∃ r ∈ s.world.db.safes.rows, r.val.Matches l) (decoy : Decoy) :
    ∃ s', runSteps (loginStep l) s [.own none decoy, .own none decoy, .own none decoy] = some s' ∧
      s'.phase = .answered none (fakeAnswer decoy) := by
  obtain ⟨⟨db, clock, requests⟩, phase⟩ := s
  obtain rfl : phase = .looking := hphase
  have h1 : loginStep l ⟨⟨db, clock, requests⟩, .looking⟩ (.own none decoy) =
      some ⟨⟨db, clock, requests⟩, .found none⟩ := by
    have hstep : lookupStep db clock l none decoy .looking = some (db, .found none) := if_neg hnone
    unfold loginStep
    dsimp only
    rw [hstep]
    rfl
  exact ⟨_, runSteps_cons_eq_some.2 ⟨_, h1, rfl⟩, rfl⟩

/-- The newest row leads to an answer with it. -/
theorem connects_newest {own : Row Safe} (hphase : s.phase = .looking) (hown : own ∈ s.world.db.safes.rows)
    (hmatch : own.val.Matches l)
    (hnewest : ∀ r ∈ s.world.db.safes.rows, r.id ≠ own.id → r.val.Matches l →
      r.val.createdAt < own.val.createdAt)
    {pick : Option Nat} {decoy : Decoy} {as : List LoginAction} {s' : Login} {safe : Option (Row Safe)}
    {r : Response} (hrun : runSteps (loginStep l) s (.own pick decoy :: as) = some s')
    (hanswer : s'.phase = .answered safe r) (hopen : ¬ r.LockedDown) : r = realAnswer own.val := by
  obtain ⟨t, hfirst, hrun⟩ := runSteps_cons_eq_some.1 hrun
  have hleads : t.phase.Leads own := by
    rcases loginStep_cases hfirst with ⟨a, w, hx, -⟩ | ⟨pick', d', db, phase, -, hmove, rfl⟩
    · cases hx
    · rw [hphase] at hmove
      cases hmove with
      | find r pick hfind =>
        obtain ⟨hr, hrmatch, hmax⟩ := newest_spec hfind
        by_cases hid : r.id = own.id
        · exact congrArg some (Table.row_unique hr hown hid)
        · have hlt := hnewest r hr hid hrmatch
          have hle := hmax own hown hmatch
          omega
      | miss hmiss => exact absurd ⟨own, hown, hmatch⟩ hmiss
  have hend := runSteps_invariant (fun _ _ _ => leads_login) hrun hleads
  rw [hanswer] at hend
  exact hend.resolve_right hopen

end Page

/-- The page gets in exactly if its lookup asks for this phone and this time, and every other safe there
is older. It does not ask for a phone whose text means something in a query, and a honeypot, or a
challenge programmed again, is no older. -/
theorem login_iff {before : List DirectoryAction} {as : List LoginAction} {w w' : Directory} {s : Login}
    {ip : JsString} (haccept : challengeAuthHandler V req d = some a)
    (hbefore : runSteps directoryStep .empty before = some w)
    (hidle : ∀ q ∈ w.requests, q.phase.isAnswered = true ∨ ¬ q.lookup.AsksFor req.phone req.challengeTime)
    (hdeposit : directoryStep w a = some w')
    (hrun : runSteps (loginStep (pageLookup ip req.phone req.challengeTime)) ⟨w', .start⟩ as = some s)
    (hquiet : ∀ x ∈ as, x.Quiet req.phone req.challengeTime) (hphase : s.phase = .looking)
    (hfew : s.world.db.globalAttempts (pageLookup ip req.phone req.challengeTime).phone
      (s.world.clock / 1000) < 20)
    (hfresh : ∀ r ∈ s.world.db.safes.rows, r.id ≠ w.db.safes.seq + 1 →
      safeContents V req.challengeTime req.challengeClicks r.val.encryptedSafe r.val.salt r.val.iv ≠
        some (.str (ascii d.vpcUrl), .str (ascii d.sessionToken))) :
    LogsIn V req d (pageLookup ip req.phone req.challengeTime) s ↔
      (pageLookup ip req.phone req.challengeTime).AsksFor req.phone req.challengeTime ∧
        ∀ r ∈ s.world.db.safes.rows, r.id ≠ w.db.safes.seq + 1 →
          r.val.Matches (pageLookup ip req.phone req.challengeTime) → r.val.createdAt < w.clock / 1000 := by
  generalize pageLookup ip req.phone req.challengeTime = l at *
  obtain ⟨hgiven, -⟩ := challengeAuthHandler_spec haccept
  have hwaits : s.phase.isEarly = true → Waits (ownRow V req d w) s.world := by
    refine Lib.runSteps_invariant_of_meet (fun _ _ _ h hC hstep => waits_login h hC hstep) hrun ?_ fun _ =>
      waits_start haccept hbefore hidle hdeposit
    exact Lib.stepsMeet_of_forall (fun x hx _ => hquiet x hx) _
  rw [hphase] at hwaits
  obtain ⟨hown, -, -⟩ := hwaits rfl
  have hmatch : (ownRow V req d w).val.Matches l ↔ l.AsksFor req.phone req.challengeTime :=
    ⟨fun h => ⟨h.1.symm, h.2.1.symm⟩, fun h => ⟨h.1.symm, h.2.symm, rfl⟩⟩
  have hcontents : processChallenge V req.challengeTime req.challengeClicks
      (realAnswer (ownRow V req d w).val) = .connected (.str (ascii d.vpcUrl)) (.str (ascii d.sessionToken)) :=
    (processChallenge_real _).2 (safeContents_own ..)
  constructor
  · intro hlogs
    -- any other row that can be picked makes the page fail
    have hother : ∀ r ∈ s.world.db.safes.rows, r.id ≠ w.db.safes.seq + 1 →
        s.world.db.newest l r.id ≠ some r := by
      intro r hr hne hpick
      obtain ⟨decoy, -⟩ := V.noise
      obtain ⟨s', hrun', hanswer⟩ := answered_real hphase hpick hfew decoy
      have hconnect := hlogs.connects _ _ _ _ _ _ hrun' hanswer (realAnswer_open r.val)
      exact hfresh r hr hne ((processChallenge_real _).1 hconnect)
    have hasks : l.AsksFor req.phone req.challengeTime := by
      by_contra helse
      by_cases hreal : ∃ r ∈ s.world.db.safes.rows, r.val.Matches l
      · obtain ⟨r, hr, hrmatch⟩ := hreal
        have hne : r.id ≠ (ownRow V req d w).id := by
          intro hid
          obtain rfl := Table.row_unique hr hown hid
          exact helse (hmatch.1 hrmatch)
        obtain ⟨r', hr', hne', hpick⟩ :=
          newest_other hr hrmatch hne (fun h => absurd (hmatch.1 h) helse) hown
        exact hother r' hr' hne' hpick
      · obtain ⟨decoy, hnoise⟩ := V.noise
        obtain ⟨s', hrun', hanswer⟩ := answered_decoy hphase hreal decoy
        have hconnect := hlogs.connects _ _ _ _ _ _ hrun' hanswer (fakeAnswer_open decoy)
        rw [processChallenge_noise hnoise] at hconnect
        cases hconnect
    refine ⟨hasks, fun r hr hne hrmatch => ?_⟩
    by_contra hnew
    obtain ⟨r', hr', hne', hpick⟩ := newest_other hr hrmatch hne (fun _ => Nat.not_lt.1 hnew) hown
    exact hother r' hr' hne' hpick
  · rintro ⟨hasks, hnewest⟩
    refine ⟨?_, fun as' s' hrun' hopen => ?_, fun pick decoy as' s' safe r hrun' hanswer hopen => ?_⟩
    · obtain ⟨hphone, htime⟩ := hasks
      rw [hphone, htime]
      exact hgiven
    · obtain ⟨decoy, -⟩ := V.noise
      obtain ⟨pick, hsome⟩ := lookup_goesOn s'.world.db s'.world.clock l decoy hopen
      refine ⟨pick, decoy, ?_⟩
      show ((lookupStep s'.world.db s'.world.clock l pick decoy s'.phase).map _).isSome
      rw [Option.isSome_map]
      exact hsome
    · rw [connects_newest hphase hown (hmatch.2 hasks) hnewest hrun' hanswer hopen]
      exact hcontents

/-- The bytes of a text in base64. -/
theorem toUInt8_btoa (bytes : GoString) : (btoa bytes).map UInt16.toUInt8 = base64Encode bytes := by
  unfold btoa ascii
  rw [List.map_map]
  exact List.map_id'' UInt8.toUInt8_toUInt16 _

/-- What stands in front of a text that is sealed with this passphrase. -/
def label (passphrase : GoString) : GoString := 1 :: (passphrase ++ [0])

/-- The text behind the label of this passphrase. -/
def unlabel (passphrase encryptedSafe : JsString) : Option GoString := do
  let bytes ← base64Decode (encryptedSafe.map UInt16.toUInt8)
  if (label (textEncode passphrase)).isPrefixOf bytes then
    some (bytes.drop (label (textEncode passphrase)).length)
  else none

theorem unlabel_eq (passphrase : JsString) (bytes : GoString) :
    unlabel passphrase (btoa bytes) =
      if (label (textEncode passphrase)).isPrefixOf bytes then
        some (bytes.drop (label (textEncode passphrase)).length)
      else none := by
  unfold unlabel
  rw [toUInt8_btoa, base64Decode_encode]
  rfl

/-- A vault that writes the passphrase in front of the text, and opens a safe with no other. -/
def labelVault : Vault where
  encrypt passphrase _ _ plaintext := label passphrase ++ plaintext
  decrypt passphrase _ _ encryptedSafe := unlabel passphrase encryptedSafe
  decrypt_encrypt := by
    intro passphrase salt iv plaintext
    have hprefix := List.isPrefixOf_iff_prefix.2 (List.prefix_append (label (textEncode passphrase)) plaintext)
    rw [unlabel_eq, if_pos hprefix, List.drop_left]
  encrypt_ne_nil := nofun
  noise := by
    refine ⟨zeros, fun passphrase => ?_⟩
    have hno : (label (textEncode passphrase)).isPrefixOf zeros.safe = false := rfl
    rw [unlabel_eq, if_neg (Bool.eq_false_iff.1 hno)]

theorem length_salt : (List.replicate 16 (0 : UInt8)).length = 16 := List.length_replicate

theorem length_iv : (List.replicate 12 (0 : UInt8)).length = 12 := List.length_replicate

/-- A safe that names this address. -/
def drawsOf (publicIP : GoString) (h : ∀ c ∈ publicIP ++ str "5150", IsAddressChar c) : Draws where
  sessionToken := "c5f2"
  publicIP := publicIP
  port := "5150"
  salt := List.replicate 16 0
  iv := List.replicate 12 0
  token_chars := ⟨by decide, forall_of_all (by decide)⟩
  address_chars := h
  salt_length := length_salt
  iv_length := length_iv

/-- The address of the relay. -/
def relayDraws : Draws := drawsOf "192.0.2.7" (forall_of_all (by decide))

/-- Another address. -/
def honeypotDraws : Draws := drawsOf "203.0.113.9" (forall_of_all (by decide))

/-- Three clicks at 18:36. -/
def request1836 : ChallengeRequest := ⟨ascii "0600000000", ascii "1836", 3⟩

/-- The safe of the challenge, in a directory that was empty. -/
def own1836 : Row Safe := ownRow labelVault request1836 relayDraws .empty

/-- The directory after the deposit. -/
def deposited1836 : Directory := ⟨⟨Table.empty.insert own1836.val, [], unique_nil⟩, 0, []⟩

theorem asks1836 : (pageLookup (ascii "192.0.2.1") request1836.phone request1836.challengeTime).AsksFor
    request1836.phone request1836.challengeTime :=
  pageLookup_plain _ (forall_of_all (by decide)) (forall_of_all (by decide))

theorem accept1836 : challengeAuthHandler labelVault request1836 relayDraws =
    some (depositSafe labelVault request1836.phone request1836.challengeTime 3 relayDraws) := rfl

theorem login_own1836 : LogsIn labelVault request1836 relayDraws
    (pageLookup (ascii "192.0.2.1") request1836.phone request1836.challengeTime) ⟨deposited1836, .looking⟩ := by
  have hone : ∀ r ∈ deposited1836.db.safes.rows, r.id = Directory.empty.db.safes.seq + 1 := by
    intro r hr
    obtain rfl := List.mem_singleton.1 hr
    rfl
  refine (@login_iff labelVault request1836 relayDraws _ [] [.own none zeros, .own none zeros] .empty
    deposited1836 ⟨deposited1836, .looking⟩ (ascii "192.0.2.1") accept1836 rfl nofun ?_ ?_ ?_ rfl ?_ ?_).2
      ⟨asks1836, ?_⟩
  · exact deposit_own accept1836 .empty
  · rfl
  · intro x hx
    simp only [List.mem_cons, List.not_mem_nil, or_false, or_self] at hx
    rw [hx]
    trivial
  · exact Nat.zero_lt_succ _
  · exact fun r hr hne => absurd (hone r hr) hne
  · exact fun r hr hne => absurd (hone r hr) hne

/-- The safe of a honeypot for the same minute, in the same second. -/
def honeypot1836 : Row Safe :=
  ⟨2, ⟨request1836.phone,
    btoa (labelVault.encrypt (textEncode (passphrase (ascii "1836") 2)) honeypotDraws.salt honeypotDraws.iv
      honeypotDraws.safeJSON),
    btoa honeypotDraws.salt, btoa honeypotDraws.iv, ascii "1836", false, 0⟩⟩

/-- The directory with the honeypot. -/
def masked1836 : Directory := ⟨⟨(Table.empty.insert own1836.val).insert honeypot1836.val, [], unique_nil⟩, 0, []⟩

theorem honeypot1836_deposited :
    honeypot labelVault request1836.phone 18 36 1 honeypotDraws =
        some (depositSafe labelVault request1836.phone (ascii "1836") 2 honeypotDraws) ∧
      directoryStep deposited1836 (depositSafe labelVault request1836.phone (ascii "1836") 2 honeypotDraws) =
        some masked1836 := by
  refine ⟨rfl, ?_⟩
  have haccept : challengeAuthHandler labelVault ⟨request1836.phone, ascii "1836", 2⟩ honeypotDraws =
      some (depositSafe labelVault request1836.phone (ascii "1836") 2 honeypotDraws) := rfl
  exact deposit_own haccept deposited1836

/-- A honeypot that is deposited after the challenge takes its place. -/
theorem honeypot_instead : ¬ ∀ (V : Vault) (req : ChallengeRequest) (d : Draws) (a : DirectoryAction)
    (before : List DirectoryAction) (as : List LoginAction) (w w' : Directory) (s : Login) (ip : JsString),
    challengeAuthHandler V req d = some a → runSteps directoryStep .empty before = some w →
    (∀ q ∈ w.requests, q.phase.isAnswered = true ∨ ¬ q.lookup.AsksFor req.phone req.challengeTime) →
    directoryStep w a = some w' →
    runSteps (loginStep (pageLookup ip req.phone req.challengeTime)) ⟨w', .start⟩ as = some s →
    (∀ x ∈ as, x.Quiet req.phone req.challengeTime) → s.phase = .looking →
    s.world.db.globalAttempts (pageLookup ip req.phone req.challengeTime).phone (s.world.clock / 1000) < 20 →
    LogsIn V req d (pageLookup ip req.phone req.challengeTime) s := by
  intro h
  have hfirst : ∀ l, loginStep l ⟨deposited1836, .start⟩ (.others (depositSafe labelVault request1836.phone
      (ascii "1836") 2 honeypotDraws)) = some ⟨masked1836, .start⟩ := by
    intro l
    unfold loginStep
    dsimp only
    rw [honeypot1836_deposited.2]
    rfl
  have hlogs := h labelVault request1836 relayDraws _ [] [.others (depositSafe labelVault request1836.phone
    (ascii "1836") 2 honeypotDraws), .own none zeros, .own none zeros] .empty deposited1836
    ⟨masked1836, .looking⟩ (ascii "192.0.2.1") accept1836 rfl nofun (deposit_own accept1836 .empty)
    (runSteps_cons_eq_some.2 ⟨⟨masked1836, .start⟩, hfirst _, rfl⟩)
    (by
      intro x hx
      simp only [List.mem_cons, List.not_mem_nil, or_false, or_self] at hx
      rcases hx with rfl | rfl <;> trivial)
    rfl (Nat.zero_lt_succ _)
  have hasks := asks1836
  revert hlogs hasks
  generalize pageLookup (ascii "192.0.2.1") request1836.phone request1836.challengeTime = l
  intro hlogs hasks
  have hpick : masked1836.db.newest l honeypot1836.id = some honeypot1836 := by
    refine newest_of_max ?_ ⟨hasks.1.symm, hasks.2.symm, rfl⟩ fun r hr _ => ?_
    · exact List.mem_cons_of_mem _ (List.mem_singleton_self _)
    · rcases List.mem_cons.1 hr with rfl | hr
      · exact Nat.le_refl 0
      · obtain rfl := List.mem_singleton.1 hr
        exact Nat.le_refl 0
  obtain ⟨s', hrun, hanswer⟩ :=
    @answered_real l ⟨masked1836, .looking⟩ honeypot1836 rfl hpick (Nat.zero_lt_succ _) zeros
  have hconnect := hlogs.connects _ _ _ _ _ _ hrun hanswer (realAnswer_open honeypot1836.val)
  have hcontents := (processChallenge_real _).1 hconnect
  have hshut : labelVault.decrypt (passphrase (ascii "1836") 3) honeypot1836.val.salt honeypot1836.val.iv
      honeypot1836.val.encryptedSafe = none := by
    have hother : (label (textEncode (passphrase (ascii "1836") 3))).isPrefixOf
        (labelVault.encrypt (textEncode (passphrase (ascii "1836") 2)) honeypotDraws.salt honeypotDraws.iv
          honeypotDraws.safeJSON) = false := rfl
    exact (unlabel_eq _ _).trans (if_neg (Bool.eq_false_iff.1 hother))
  unfold safeContents at hcontents
  have hshut' : labelVault.decrypt (passphrase request1836.challengeTime request1836.challengeClicks)
      honeypot1836.val.salt honeypot1836.val.iv honeypot1836.val.encryptedSafe = none := hshut
  rw [hshut'] at hcontents
  cases hcontents

end Gafam.Frontend
