import Gafam.Go.Time
import Gafam.Go.Proofs.TextProofs
import Mathlib.Data.List.Induction

/-!
# Days and their names

Every day has a valid date and a name of its own. A name is read back iff the year has four digits, and among such
names the order of the strings is that of the days.
-/

namespace Gafam.Go

open Gafam.Lib

/-! ## The calendar -/

set_option maxRecDepth 8000 in
theorem sum_eraYears : eraYears.sum = eraDays := by decide

theorem sum_monthLengths (year : Int) : (monthLengths year).sum = yearLength year := by
  unfold monthLengths yearLength
  cases isLeap year <;> rfl

theorem isLeap_era (era : Int) (y : Nat) : isLeap (era * 400 + y) = isLeap y := by
  have h4 : (era * 400 + y) % 4 = (y : Int) % 4 := by omega
  have h100 : (era * 400 + y) % 100 = (y : Int) % 100 := by omega
  have h400 : (era * 400 + y) % 400 = (y : Int) % 400 := by omega
  unfold isLeap
  rw [h4, h100, h400]

/-- A day of an era lies in one of its years, and there in one of the months. -/
theorem locate_year {n : Nat} (h : n < eraDays) :
    (locate eraYears n).1 < 400 ∧ (locate eraYears n).2 < (monthLengths (locate eraYears n).1).sum := by
  rw [← sum_eraYears] at h
  obtain ⟨l, hl, hlt⟩ := locate_spec h
  have hfst := locate_fst_lt h
  have hlength : eraYears.length = 400 := (List.length_map _).trans List.length_range
  rw [hlength] at hfst
  refine ⟨hfst, ?_⟩
  have hyear : ∀ y : Nat, y < 400 → eraYears[y]? = some (yearLength y) := by
    intro y hy
    unfold eraYears
    rw [List.getElem?_map, List.getElem?_range hy]
    rfl
  rw [hyear _ hfst] at hl
  cases hl
  rw [sum_monthLengths]
  exact hlt

/-- The date is one of the calendar. -/
structure Date.Valid (d : Date) : Prop where
  month_pos : 1 ≤ d.month
  month_le : d.month ≤ 12
  day_pos : 1 ≤ d.day
  day_le : d.day ≤ daysIn d.year d.month

theorem valid_dateOf (days : Int) : (dateOf days).Valid := by
  have hera : ((days + 719528) % eraDays).toNat < eraDays := by
    unfold eraDays
    omega
  obtain ⟨-, hday⟩ := locate_year hera
  obtain ⟨l, hl, hlt⟩ := locate_spec hday
  have hmonth := locate_fst_lt hday
  constructor
  · exact Nat.succ_pos _
  · exact hmonth
  · exact Nat.succ_pos _
  · unfold dateOf daysIn
    have hleap := isLeap_era ((days + 719528) / eraDays) (locate eraYears ((days + 719528) % eraDays).toNat).1
    simp only [monthLengths, hleap, Nat.add_sub_cancel] at hl hlt ⊢
    rw [List.getD_eq_getElem?_getD, hl]
    exact hlt

theorem daysIn_le (year : Int) (month : Nat) : daysIn year month ≤ 31 := by
  unfold daysIn
  rw [List.getD_eq_getElem?_getD]
  cases h : (monthLengths year)[month - 1]? with
  | none => exact Nat.zero_le _
  | some l =>
    have hmem := List.mem_of_getElem? h
    unfold monthLengths at hmem
    cases hleap : isLeap year
    · rw [hleap] at hmem
      exact (by decide : ∀ l ∈ [31, 28, 31, 30, 31, 30, 31, 31, 30, 31, 30, 31], l ≤ 31) l hmem
    · rw [hleap] at hmem
      exact (by decide : ∀ l ∈ [31, 29, 31, 30, 31, 30, 31, 31, 30, 31, 30, 31], l ≤ 31) l hmem

theorem Date.Valid.bounds {d : Date} (h : d.Valid) : d.month < 100 ∧ d.day < 100 := by
  have hmonth := h.month_le
  have hday := h.day_le.trans (daysIn_le d.year d.month)
  omega

/-- The order of dates. -/
def Date.Before (d e : Date) : Prop :=
  d.year < e.year ∨ d.year = e.year ∧ (d.month < e.month ∨ d.month = e.month ∧ d.day < e.day)

/-- Later days have later dates. -/
theorem dateOf_before {a b : Int} (h : a < b) : (dateOf a).Before (dateOf b) := by
  have hbound : ∀ days : Int, ((days + 719528) % eraDays).toNat < eraDays := by
    intro days
    unfold eraDays
    omega
  have ha := (locate_year (hbound a)).1
  have hb := (locate_year (hbound b)).1
  have hsplit : (a + 719528) / eraDays < (b + 719528) / eraDays ∨
      (a + 719528) / eraDays = (b + 719528) / eraDays ∧
        ((a + 719528) % eraDays).toNat < ((b + 719528) % eraDays).toNat := by
    unfold eraDays
    omega
  unfold Date.Before dateOf
  rcases hsplit with hera | ⟨hera, hday⟩
  · left
    dsimp only
    omega
  · dsimp only
    rw [hera]
    rcases locate_mono eraYears hday with hyear | ⟨hyear, hplace⟩
    · left
      omega
    · right
      rw [hyear]
      refine ⟨rfl, ?_⟩
      rcases locate_mono (monthLengths (locate eraYears ((b + 719528) % eraDays).toNat).1) hplace with
        hmonth | ⟨hmonth, hplace⟩
      · left
        omega
      · right
        rw [hmonth]
        exact ⟨rfl, by omega⟩

theorem Date.Before.ne {d e : Date} (h : d.Before e) : d ≠ e := by
  rintro rfl
  unfold Date.Before at h
  omega

theorem dateOf_inj {a b : Int} (h : dateOf a = dateOf b) : a = b := by
  rcases lt_trichotomy a b with hlt | heq | hlt
  · exact absurd h (dateOf_before hlt).ne
  · exact heq
  · exact absurd h.symm (dateOf_before hlt).ne

/-! ## Digits -/

theorem toNat_digit (n : Nat) : (UInt8.ofNat (0x30 + n % 10)).toNat = 48 + n % 10 := by
  rw [UInt8.toNat_ofNat']
  omega

theorem isDigit_digit (n : Nat) : isDigit (UInt8.ofNat (0x30 + n % 10)) = true := by
  have := toNat_digit n
  exact isDigit_of_bounds (by omega)

theorem length_lastDigits (width n : Nat) : (lastDigits width n).length = width := by
  induction width generalizing n with
  | zero => rfl
  | succ width ih => rw [lastDigits, List.length_append, ih, List.length_singleton]

theorem all_isDigit_lastDigits (width n : Nat) : (lastDigits width n).all isDigit = true := by
  induction width generalizing n with
  | zero => rfl
  | succ width ih =>
    rw [lastDigits, List.all_append, ih, List.all_cons, List.all_nil, isDigit_digit]
    rfl

theorem digitsValue_append (s : GoString) (b : UInt8) :
    digitsValue (s ++ [b]) = digitsValue s * 10 + (b.toNat - 0x30) := by
  unfold digitsValue
  rw [List.foldl_append]
  rfl

theorem digitsValue_lastDigits (width n : Nat) : digitsValue (lastDigits width n) = n % 10 ^ width := by
  induction width generalizing n with
  | zero =>
    rw [Nat.pow_zero, Nat.mod_one]
    rfl
  | succ width ih =>
    have hdigit := toNat_digit n
    rw [lastDigits, digitsValue_append, ih, hdigit, Nat.pow_succ, Nat.mul_comm (10 ^ width) 10, Nat.mod_mul]
    omega

/-- A number with more digits than the width is longer. -/
theorem digitsValue_lt {s : GoString} (h : s.all isDigit = true) : digitsValue s < 10 ^ s.length := by
  induction s using List.reverseRecOn with
  | nil => exact Nat.one_pos
  | append_singleton s b ih =>
    rw [List.all_append, Bool.and_eq_true] at h
    have hb : b.toNat ≤ 57 := by
      have hdigit : isDigit b = true := by simpa using h.2
      unfold isDigit at hdigit
      simp only [Bool.and_eq_true, decide_eq_true_eq, UInt8.le_iff_toNat_le] at hdigit
      exact hdigit.2
    rw [digitsValue_append, List.length_append, List.length_singleton, Nat.pow_succ]
    have := ih h.1
    omega

theorem all_isDigit_appendNat (n width : Nat) : (appendNat n width).all isDigit = true := by
  unfold appendNat
  split_ifs
  · exact all_isDigit_lastDigits width n
  · exact all_isDigit_itoa n

theorem digitsValue_appendNat (n width : Nat) : digitsValue (appendNat n width) = n := by
  unfold appendNat
  split_ifs with h
  · rw [digitsValue_lastDigits, Nat.mod_eq_of_lt h]
  · exact digitsValue_itoa n

theorem appendNat_inj {n k width : Nat} (h : appendNat n width = appendNat k width) : n = k := by
  rw [← digitsValue_appendNat n width, h, digitsValue_appendNat]

theorem lt_length_appendNat (n width : Nat) (h : 10 ^ width ≤ n) : width < (appendNat n width).length := by
  by_contra hle
  have hlt := digitsValue_lt (all_isDigit_appendNat n width)
  rw [digitsValue_appendNat] at hlt
  have hpow := Nat.pow_le_pow_right (n := 10) (by omega) (Nat.not_lt.1 hle)
  omega

/-- Strings of one length, of which the first is less. -/
theorem append_lt_append {a b : GoString} (hlen : a.length = b.length) (h : a < b) (x y : GoString) : a ++ x < b ++ y := by
  induction a generalizing b with
  | nil =>
    rw [List.length_eq_zero_iff.1 hlen.symm] at h
    exact absurd h (List.lt_irrefl _)
  | cons c a ih =>
    cases b with
    | nil => cases hlen
    | cons d b =>
      rw [List.cons_lt_cons_iff] at h
      rw [List.cons_append, List.cons_append, List.cons_lt_cons_iff]
      rcases h with h | ⟨rfl, h⟩
      · exact .inl h
      · exact .inr ⟨rfl, ih (Nat.succ.inj hlen) h⟩

theorem lastDigits_congr {width n k : Nat} (h : n % 10 ^ width = k % 10 ^ width) :
    lastDigits width n = lastDigits width k := by
  induction width generalizing n k with
  | zero => rfl
  | succ width ih =>
    rw [Nat.pow_succ, Nat.mul_comm (10 ^ width) 10, Nat.mod_mul, Nat.mod_mul] at h
    have hrest : n / 10 % 10 ^ width = k / 10 % 10 ^ width := by omega
    have hdigit : n % 10 = k % 10 := by omega
    rw [lastDigits, lastDigits, ih hrest, hdigit]

/-- Among numbers of one width, the order of the strings is that of the numbers. -/
theorem lastDigits_lt {width n k : Nat} (h : n % 10 ^ width < k % 10 ^ width) :
    lastDigits width n < lastDigits width k := by
  induction width generalizing n k with
  | zero =>
    rw [Nat.pow_zero, Nat.mod_one, Nat.mod_one] at h
    cases h
  | succ width ih =>
    rw [Nat.pow_succ, Nat.mul_comm (10 ^ width) 10, Nat.mod_mul, Nat.mod_mul] at h
    rw [lastDigits, lastDigits]
    rcases Nat.lt_trichotomy (n / 10 % 10 ^ width) (k / 10 % 10 ^ width) with hlt | heq | hgt
    · exact append_lt_append (by rw [length_lastDigits, length_lastDigits]) (ih hlt) _ _
    · rw [lastDigits_congr heq]
      refine List.append_left_lt ?_
      rw [List.cons_lt_cons_iff, UInt8.lt_iff_toNat_lt, toNat_digit, toNat_digit]
      left
      omega
    · omega

/-! ## Names -/

theorem appendNat_small {n width : Nat} (h : n < 10 ^ width) : appendNat n width = lastDigits width n := if_pos h

theorem length_appendNat {n width : Nat} (h : n < 10 ^ width) : (appendNat n width).length = width := by
  rw [appendNat_small h, length_lastDigits]

theorem notMem_appendNat {n width : Nat} : 0x2D ∉ appendNat n width := by
  intro h
  have hdigit := List.all_eq_true.1 (all_isDigit_appendNat n width) _ h
  exact absurd hdigit (by decide)

theorem appendInt_inj {n k : Int} {width : Nat} (h : appendInt n width = appendInt k width) : n = k := by
  unfold appendInt at h
  split_ifs at h with hn hk hk
  · have := appendNat_inj (List.cons.inj h).2
    omega
  · exact absurd (h ▸ List.mem_cons_self ..) notMem_appendNat
  · exact absurd (h.symm ▸ List.mem_cons_self ..) notMem_appendNat
  · have := appendNat_inj h
    omega

/-- The end of a name always has the same length. -/
theorem length_formatDate {d : Date} (h : d.Valid) : (formatDate d).length = (appendInt d.year 4).length + 6 := by
  obtain ⟨hmonth, hday⟩ := h.bounds
  unfold formatDate
  simp only [List.length_append, List.length_cons]
  rw [length_appendNat hmonth, length_appendNat hday]

theorem formatDate_inj {d e : Date} (hd : d.Valid) (he : e.Valid) (h : formatDate d = formatDate e) : d = e := by
  obtain ⟨hdm, hdd⟩ := hd.bounds
  obtain ⟨hem, hed⟩ := he.bounds
  unfold formatDate at h
  have hlen : (0x2D :: (appendNat d.month 2 ++ 0x2D :: appendNat d.day 2) : GoString).length =
      (0x2D :: (appendNat e.month 2 ++ 0x2D :: appendNat e.day 2) : GoString).length := by
    simp only [List.length_cons, List.length_append]
    rw [length_appendNat hdm, length_appendNat hdd, length_appendNat hem, length_appendNat hed]
  obtain ⟨hyear, hrest⟩ := List.append_inj' h hlen
  obtain ⟨hmonth, hday⟩ := List.append_inj (List.cons.inj hrest).2
    (by rw [length_appendNat hdm, length_appendNat hem])
  have hy := appendInt_inj hyear
  have hm := appendNat_inj hmonth
  have hdy := appendNat_inj (List.cons.inj hday).2
  cases d
  cases e
  simp_all

/-- A year of four digits. -/
def Date.FourDigits (d : Date) : Prop := 0 ≤ d.year ∧ d.year ≤ 9999

/-- The names of such dates are ordered like the dates. -/
theorem formatDate_lt {d e : Date} (hd : d.Valid) (he : e.Valid) (hd4 : d.FourDigits) (he4 : e.FourDigits)
    (h : d.Before e) : formatDate d < formatDate e := by
  obtain ⟨hdm, hdd⟩ := hd.bounds
  obtain ⟨hem, hed⟩ := he.bounds
  have hyear : ∀ {f : Date}, f.FourDigits → appendInt f.year 4 = lastDigits 4 f.year.natAbs := by
    rintro f ⟨hlo, hhi⟩
    unfold appendInt
    rw [if_neg (Int.not_lt.2 hlo), appendNat_small (by omega)]
  have hlen : ∀ width n k : Nat, (lastDigits width n).length = (lastDigits width k).length := by
    intro width n k
    rw [length_lastDigits, length_lastDigits]
  unfold formatDate
  rw [hyear hd4, hyear he4, appendNat_small hdm, appendNat_small hdd, appendNat_small hem, appendNat_small hed]
  obtain ⟨hd0, hd9⟩ := hd4
  obtain ⟨he0, he9⟩ := he4
  rcases h with hlt | ⟨heq, hlt | ⟨heq', hlt⟩⟩
  · exact append_lt_append (hlen ..) (lastDigits_lt (by omega)) _ _
  · rw [heq]
    refine List.append_left_lt ?_
    rw [List.cons_lt_cons_iff]
    exact .inr ⟨rfl, append_lt_append (hlen ..) (lastDigits_lt (by omega)) _ _⟩
  · rw [heq, heq']
    refine List.append_left_lt ?_
    rw [List.cons_lt_cons_iff]
    refine .inr ⟨rfl, List.append_left_lt ?_⟩
    rw [List.cons_lt_cons_iff]
    exact .inr ⟨rfl, lastDigits_lt (by omega)⟩

/-! ## Reading -/

theorem lastDigits_two (n : Nat) :
    lastDigits 2 n = [UInt8.ofNat (0x30 + n / 10 % 10), UInt8.ofNat (0x30 + n % 10)] := rfl

theorem lastDigits_four (n : Nat) :
    lastDigits 4 n = [UInt8.ofNat (0x30 + n / 10 / 10 / 10 % 10), UInt8.ofNat (0x30 + n / 10 / 10 % 10),
      UInt8.ofNat (0x30 + n / 10 % 10), UInt8.ofNat (0x30 + n % 10)] := rfl

/-- A name is read back iff its year has four digits. -/
theorem parsesDate_formatDate {d : Date} (h : d.Valid) : parsesDate (formatDate d) = true ↔ d.FourDigits := by
  obtain ⟨hmonth, hday⟩ := h.bounds
  constructor
  · intro hparse
    have hlen : (formatDate d).length = 10 := by
      unfold parsesDate at hparse
      split at hparse
      · next heq => rw [heq]; rfl
      · cases hparse
    rw [length_formatDate h] at hlen
    unfold appendInt at hlen
    constructor
    · by_contra hneg
      rw [if_pos (by omega), List.length_cons] at hlen
      by_cases hsmall : d.year.natAbs < 10 ^ 4
      · rw [length_appendNat hsmall] at hlen
        omega
      · have := lt_length_appendNat _ _ (Nat.not_lt.1 hsmall)
        omega
    · by_contra hbig
      rw [if_neg (by omega)] at hlen
      have := lt_length_appendNat d.year.natAbs 4 (by omega)
      omega
  · rintro ⟨hlo, hhi⟩
    have hy : d.year.natAbs < 10 ^ 4 := by omega
    have hyear : digitsValue (lastDigits 4 d.year.natAbs) = d.year.natAbs :=
      (digitsValue_lastDigits 4 d.year.natAbs).trans (Nat.mod_eq_of_lt hy)
    have hmonth' : digitsValue (lastDigits 2 d.month) = d.month :=
      (digitsValue_lastDigits 2 d.month).trans (Nat.mod_eq_of_lt hmonth)
    have hday' : digitsValue (lastDigits 2 d.day) = d.day :=
      (digitsValue_lastDigits 2 d.day).trans (Nat.mod_eq_of_lt hday)
    have hdigits := all_isDigit_lastDigits 4 d.year.natAbs
    have hdigitsM := all_isDigit_lastDigits 2 d.month
    have hdigitsD := all_isDigit_lastDigits 2 d.day
    unfold formatDate appendInt
    rw [if_neg (by omega), appendNat_small hy, appendNat_small hmonth, appendNat_small hday]
    rw [lastDigits_four] at hyear hdigits ⊢
    rw [lastDigits_two] at hmonth' hdigitsM ⊢
    rw [lastDigits_two] at hday' hdigitsD ⊢
    generalize UInt8.ofNat (0x30 + d.year.natAbs / 10 / 10 / 10 % 10) = y1 at *
    generalize UInt8.ofNat (0x30 + d.year.natAbs / 10 / 10 % 10) = y2 at *
    generalize UInt8.ofNat (0x30 + d.year.natAbs / 10 % 10) = y3 at *
    generalize UInt8.ofNat (0x30 + d.year.natAbs % 10) = y4 at *
    generalize UInt8.ofNat (0x30 + d.month / 10 % 10) = m1 at *
    generalize UInt8.ofNat (0x30 + d.month % 10) = m2 at *
    generalize UInt8.ofNat (0x30 + d.day / 10 % 10) = d1 at *
    generalize UInt8.ofNat (0x30 + d.day % 10) = d2 at *
    have hall : [y1, y2, y3, y4, m1, m2, d1, d2].all isDigit = true := by
      simp_all
    have habs : ((d.year.natAbs : Nat) : Int) = d.year := by omega
    simp only [List.cons_append, List.nil_append, parsesDate, hall, hyear, hmonth', hday', habs]
    simp [h.month_pos, h.month_le, h.day_pos, h.day_le]

/-!
## Times are read back

The days up to a date are those of its era, of the years before it and of the months before it. So a time
that was written with a year of four digits is read back, and no other one is read.
-/

/-! ### Days -/

theorem daysOf_dateOf (days : Int) : daysOf (dateOf days) = days + 719528 := by
  have hlt : ((days + 719528) % eraDays).toNat < eraDays := by
    unfold eraDays
    omega
  obtain ⟨hyear, hday⟩ := locate_year hlt
  have hleap := isLeap_era ((days + 719528) / eraDays) (locate eraYears ((days + 719528) % eraDays).toNat).1
  have hlt' : ((days + 719528) % eraDays).toNat < eraYears.sum := by rwa [sum_eraYears]
  have hsumY := sum_locate hlt'
  have hsumM := sum_locate hday
  unfold dateOf daysOf
  dsimp only
  generalize hy : (locate eraYears ((days + 719528) % eraDays).toNat).1 = y at *
  have hera : ((days + 719528) / eraDays * 400 + (y : Int)) / 400 = (days + 719528) / eraDays := by omega
  have hmod : (((days + 719528) / eraDays * 400 + (y : Int)) % 400).toNat = y := by omega
  have hmonths : monthLengths ((days + 719528) / eraDays * 400 + (y : Int)) = monthLengths y := by
    unfold monthLengths
    rw [hleap]
  rw [hera, hmod, hmonths, Nat.add_sub_cancel, Nat.add_sub_cancel, Nat.add_assoc, hsumM, hsumY]
  unfold eraDays
  omega

/-! ### Texts -/

theorem formatDate_fourDigits {d : Date} (h : d.Valid) (h4 : d.FourDigits) :
    (formatDate d).length = 10 ∧ readDate (formatDate d) = d := by
  obtain ⟨hmonth, hday⟩ := h.bounds
  obtain ⟨hlo, hhi⟩ := h4
  have hy : d.year.natAbs < 10 ^ 4 := by omega
  have htext : formatDate d =
      lastDigits 4 d.year.natAbs ++ 0x2D :: (lastDigits 2 d.month ++ 0x2D :: lastDigits 2 d.day) := by
    unfold formatDate appendInt
    rw [if_neg (by omega), appendNat_small hy, appendNat_small hmonth, appendNat_small hday]
  have hyear : (digitsValue (lastDigits 4 d.year.natAbs) : Int) = d.year := by
    rw [digitsValue_lastDigits, Nat.mod_eq_of_lt hy]
    omega
  have hmonth' : digitsValue (lastDigits 2 d.month) = d.month :=
    (digitsValue_lastDigits 2 d.month).trans (Nat.mod_eq_of_lt hmonth)
  have hday' : digitsValue (lastDigits 2 d.day) = d.day :=
    (digitsValue_lastDigits 2 d.day).trans (Nat.mod_eq_of_lt hday)
  rw [htext]
  refine ⟨rfl, ?_⟩
  show (⟨digitsValue (lastDigits 4 d.year.natAbs), digitsValue (lastDigits 2 d.month),
    digitsValue (lastDigits 2 d.day)⟩ : Date) = d
  rw [hyear, hmonth', hday']

/-- A date in front of another text is read only if its year has four digits. -/
theorem fourDigits_of_parsesDate {d : Date} {rest : GoString}
    (hparse : parsesDate ((formatDate d ++ rest).take 10) = true) : d.FourDigits := by
  unfold parsesDate at hparse
  split at hparse
  · next y1 y2 y3 y4 h1 m1 m2 h2 d1 d2 htake =>
    simp only [Bool.and_eq_true, decide_eq_true_eq] at hparse
    obtain ⟨⟨⟨⟨⟨⟨hdigits, hdash⟩, -⟩, -⟩, -⟩, -⟩, -⟩ := hparse
    rw [List.all_cons, Bool.and_eq_true] at hdigits
    unfold formatDate appendInt at htake
    constructor
    · by_contra hneg
      rw [if_pos (by omega)] at htake
      have hhead : (0x2D : UInt8) = y1 := List.head_eq_of_cons_eq htake
      rw [← hhead] at hdigits
      exact absurd hdigits.1 (by decide)
    · by_contra hbig
      rw [if_neg (by omega)] at htake
      have hlong := lt_length_appendNat d.year.natAbs 4 (by omega)
      have hfifth : (appendNat d.year.natAbs 4)[4]? = some h1 := by
        have hget := congrArg (fun s : GoString => s[4]?) htake
        rwa [List.getElem?_take_of_lt (by omega), List.append_assoc, List.getElem?_append_left hlong] at hget
      have hdigit := List.all_eq_true.1 (all_isDigit_appendNat d.year.natAbs 4) h1 (List.mem_of_getElem? hfifth)
      rw [hdash] at hdigit
      exact absurd hdigit (by decide)
  · cases hparse

/-- Two digits of a number below 100. -/
theorem twoDigits {n : Nat} (h : n < 100) : ∃ a b, appendNat n 2 = [a, b] ∧ isDigit a = true ∧ isDigit b = true ∧
    digitsValue [a, b] = n := by
  refine ⟨UInt8.ofNat (0x30 + n / 10 % 10), UInt8.ofNat (0x30 + n % 10), appendNat_small h, isDigit_digit _,
    isDigit_digit _, ?_⟩
  rw [← lastDigits_two, digitsValue_lastDigits]
  exact Nat.mod_eq_of_lt h

/-- A time is read back if its year has four digits, and not read otherwise. -/
theorem parseDateTime_formatDateTime (secs : Int) :
    parseDateTime (formatDateTime secs) =
      if 0 ≤ yearOf secs ∧ yearOf secs ≤ 9999 then some secs else none := by
  have hvalid := valid_dateOf (secs / 86400 - 719528)
  have hn : (secs % 86400).toNat < 86400 := by omega
  obtain ⟨h1, h2, hhour, hh1, hh2, hh⟩ := twoDigits (n := (secs % 86400).toNat / 3600) (by omega)
  obtain ⟨m1, m2, hminute, hm1, hm2, hm⟩ := twoDigits (n := (secs % 86400).toNat / 60 % 60) (by omega)
  obtain ⟨s1, s2, hsecond, hs1, hs2, hs⟩ := twoDigits (n := (secs % 86400).toNat % 60) (by omega)
  split_ifs with h4
  · obtain ⟨hlen, hread⟩ := formatDate_fourDigits hvalid h4
    have htext : formatDateTime secs = formatDate (dateOf (secs / 86400 - 719528)) ++
        [0x20, h1, h2, 0x3A, m1, m2, 0x3A, s1, s2] := by
      simp only [formatDateTime, hhour, hminute, hsecond]
      rfl
    have htake : (formatDateTime secs).take 10 = formatDate (dateOf (secs / 86400 - 719528)) := by
      rw [htext, ← hlen, List.take_left]
    have hdrop : (formatDateTime secs).drop 10 = [0x20, h1, h2, 0x3A, m1, m2, 0x3A, s1, s2] := by
      rw [htext, ← hlen, List.drop_left]
    have hdate := (parsesDate_formatDate hvalid).2 h4
    have hall : [h1, h2, m1, m2, s1, s2].all isDigit = true := by
      simp [hh1, hh2, hm1, hm2, hs1, hs2]
    simp only [parseDateTime, hdrop, htake, hdate, hall, hread, daysOf_dateOf, hh, hm, hs, decide_true,
      Bool.true_and, Bool.and_true]
    rw [if_pos (by simp only [Bool.and_eq_true, decide_eq_true_eq]; omega)]
    congr 1
    omega
  · unfold parseDateTime
    split
    · dsimp only
      rw [if_neg]
      intro hif
      simp only [Bool.and_eq_true] at hif
      exact h4 (fourDigits_of_parsesDate hif.1.1.1.1.1.1.1)
    · rfl

end Gafam.Go
