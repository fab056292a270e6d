import Gafam.Lib.RegexRules
import Mathlib.Data.List.Forall2

/-!
# The first match

A search tries the places of a text from the left. For an expression that opens with some units, reads on to a closing
unit and ends there, the first match begins where the first opener is that a closing unit follows.
-/

namespace Gafam.Lib

/-- A match, and the text around it. -/
structure Found (α : Type) where
  before : List α
  text : List α
  after : List α
  groups : List (Nat × List α)

namespace Regex

variable {α : Type}

/-- The preferred match at a place. -/
def matchAt (r : Regex α) (before rest : List α) : Option (Found α) :=
  (r.run ⟨before, rest, []⟩).head?.map fun q =>
    ⟨before.reverse, consumed ⟨before, rest, []⟩ q, q.rest, q.groups⟩

def findFrom (r : Regex α) : List α → List α → Option (Found α)
  | before, [] => matchAt r before []
  | before, a :: rest => (matchAt r before (a :: rest)).or (findFrom r (a :: before) rest)

/-- The first match. -/
def find (r : Regex α) (s : List α) : Option (Found α) := findFrom r [] s

/-! ## Places -/

theorem forall_splits_cons {a : α} {s : List α} {P : List α → List α → Prop} :
    (∀ x y, a :: s = x ++ y → P x y) ↔ P [] (a :: s) ∧ ∀ x y, s = x ++ y → P (a :: x) y := by
  constructor
  · exact fun h => ⟨h [] (a :: s) rfl, fun x y hs => h (a :: x) y (congrArg (a :: ·) hs)⟩
  · rintro ⟨hnil, hcons⟩ x y h
    cases x with
    | nil =>
      obtain rfl : a :: s = y := h
      exact hnil
    | cons b x =>
      obtain ⟨rfl, hs⟩ := List.cons.inj h
      exact hcons x y hs

theorem findFrom_eq_none {r : Regex α} {before s : List α} :
    findFrom r before s = none ↔ ∀ x y, s = x ++ y → matchAt r (x.reverse ++ before) y = none := by
  induction s generalizing before with
  | nil =>
    constructor
    · intro h x y hs
      obtain ⟨rfl, rfl⟩ := List.append_eq_nil_iff.1 hs.symm
      exact h
    · exact fun h => h [] [] rfl
  | cons a s ih =>
    rw [findFrom, Option.or_eq_none_iff, ih, forall_splits_cons]
    simp only [List.reverse_nil, List.nil_append, List.reverse_cons, List.append_assoc, List.singleton_append]

/-- A first match is one, and there is none in front of it. -/
theorem findFrom_eq_some {r : Regex α} {before s : List α} {m : Found α} :
    findFrom r before s = some m ↔ ∃ x y, s = x ++ y ∧ matchAt r (x.reverse ++ before) y = some m ∧
      ∀ x' y', s = x' ++ y' → x'.length < x.length → matchAt r (x'.reverse ++ before) y' = none := by
  induction s generalizing before with
  | nil =>
    constructor
    · exact fun h => ⟨[], [], rfl, h, fun x' y' _ hlt => absurd hlt (Nat.not_lt_zero _)⟩
    · rintro ⟨x, y, hs, hm, -⟩
      obtain ⟨rfl, rfl⟩ := List.append_eq_nil_iff.1 hs.symm
      exact hm
  | cons a s ih =>
    have hshift (x : List α) : (a :: x).reverse ++ before = x.reverse ++ a :: before := by
      rw [List.reverse_cons, List.append_assoc, List.singleton_append]
    rw [findFrom]
    cases hat : matchAt r before (a :: s) with
    | some m' =>
      rw [Option.some_or, ← hat]
      constructor
      · exact fun h => ⟨[], a :: s, rfl, h, fun x' y' _ hlt => absurd hlt (Nat.not_lt_zero _)⟩
      · rintro ⟨x, y, hs, hm, hfirst⟩
        cases x with
        | nil =>
          obtain rfl : a :: s = y := hs
          exact hm
        | cons b x =>
          have hnone := hfirst [] (a :: s) rfl (Nat.succ_pos _)
          exact absurd (hnone.symm.trans hat) nofun
    | none =>
      rw [Option.none_or, ih]
      constructor
      · rintro ⟨x, y, rfl, hm, hfirst⟩
        refine ⟨a :: x, y, rfl, by rwa [hshift], ?_⟩
        rw [forall_splits_cons]
        refine ⟨fun _ => hat, fun x' y' hs hlt => ?_⟩
        rw [hshift]
        exact hfirst x' y' hs (Nat.lt_of_succ_lt_succ hlt)
      · rintro ⟨x, y, hs, hm, hfirst⟩
        cases x with
        | nil =>
          obtain rfl : a :: s = y := hs
          exact absurd (hat.symm.trans hm) nofun
        | cons b x =>
          obtain ⟨rfl, hs'⟩ := List.cons.inj hs
          refine ⟨x, y, hs', by rwa [hshift] at hm, fun x' y' hs'' hlt => ?_⟩
          rw [← hshift]
          exact hfirst (a :: x') y' (congrArg (a :: ·) hs'') (Nat.succ_lt_succ hlt)

theorem matchAt_eq_none {r : Regex α} {before s : List α} :
    matchAt r before s = none ↔ ∀ q, q ∉ r.run ⟨before, s, []⟩ := by
  rw [matchAt, Option.map_eq_none_iff, List.head?_eq_none_iff, List.eq_nil_iff_forall_not_mem]

theorem consumed_after {p : Place α} {w rest : List α} {g : List (Nat × List α)} (h : p.rest = w ++ rest) :
    consumed p (Place.after p w rest g) = w := by
  rw [consumed, h, Place.after, List.length_append, Nat.add_sub_cancel, List.take_left]

/-! ## Openers -/

/-- Units of the given classes, one after the other. -/
def Reads (cs : List (α → Bool)) (u : List α) : Prop := List.Forall₂ (fun c a => c a = true) cs u

/-- The text has an opener behind its part `a`. -/
def Occurs (cs : List (α → Bool)) (a s : List α) : Prop := ∃ u b, s = a ++ (u ++ b) ∧ Reads cs u

/-- No opener. -/
def Free (cs : List (α → Bool)) (s : List α) : Prop := ∀ a, ¬ Occurs cs a s

def units (cs : List (α → Bool)) : Regex α := seqs (cs.map unit)

theorem mem_run_units {cs : List (α → Bool)} {p q : Place α} :
    q ∈ (units cs).run p ↔ ∃ u rest, p.rest = u ++ rest ∧ Reads cs u ∧ q = Place.after p u rest [] := by
  induction cs generalizing p with
  | nil =>
    constructor
    · intro h
      rw [List.mem_singleton.1 h]
      exact ⟨[], p.rest, rfl, .nil, rfl⟩
    · rintro ⟨u, rest, hp, ⟨⟩, rfl⟩
      rw [List.nil_append] at hp
      exact List.mem_singleton.2 (by rw [Place.after, ← hp]; rfl)
  | cons c cs ih =>
    constructor
    · intro h
      obtain ⟨t, ht, hq⟩ := List.mem_flatMap.1 h
      obtain ⟨a, rest, hp, ha, rfl⟩ := mem_run_unit.1 ht
      obtain ⟨u, rest', hrest, hu, rfl⟩ := ih.1 hq
      refine ⟨a :: u, rest', ?_, .cons ha hu, by simp [Place.after]⟩
      rw [hp]
      exact congrArg (a :: ·) hrest
    · rintro ⟨_, rest, hp, hu, rfl⟩
      cases hu with
      | @cons _ a _ u ha hu =>
        refine List.mem_flatMap.2 ⟨Place.after p [a] (u ++ rest) [], mem_run_unit.2 ⟨a, u ++ rest, hp, ha, rfl⟩, ?_⟩
        exact ih.2 ⟨u, rest, rfl, hu, by simp [Place.after]⟩

theorem mem_rounds_unit {c : α → Bool} {fuel : Nat} {p q : Place α} :
    q ∈ rounds (unit c).run fuel p ↔
      ∃ w rest, p.rest = w ++ rest ∧ w.length ≤ fuel ∧ (∀ a ∈ w, c a = true) ∧ q = Place.after p w rest [] := by
  have hself : ∀ p : Place α, p = Place.after p [] p.rest [] := fun p => rfl
  induction fuel generalizing p with
  | zero =>
    constructor
    · intro h
      rw [List.mem_singleton.1 h]
      exact ⟨[], p.rest, rfl, Nat.le_refl _, fun a ha => absurd ha List.not_mem_nil, hself p⟩
    · rintro ⟨w, rest, hp, hlen, -, rfl⟩
      obtain rfl := List.length_eq_zero_iff.1 (Nat.le_zero.1 hlen)
      rw [List.nil_append] at hp
      exact List.mem_singleton.2 (by rw [← hp]; rfl)
  | succ fuel ih =>
    rw [rounds, List.mem_append, List.mem_flatMap]
    constructor
    · rintro (⟨t, ht, hq⟩ | h)
      · obtain ⟨a, rest, hp, ha, rfl⟩ := mem_run_unit.1 (List.mem_filter.1 ht).1
        obtain ⟨w, rest', hrest, hlen, hall, rfl⟩ := ih.1 hq
        refine ⟨a :: w, rest', ?_, Nat.succ_le_succ hlen, List.forall_mem_cons.2 ⟨ha, hall⟩, by simp [Place.after]⟩
        rw [hp]
        exact congrArg (a :: ·) hrest
      · rw [List.mem_singleton.1 h]
        exact ⟨[], p.rest, rfl, Nat.zero_le _, fun a ha => absurd ha List.not_mem_nil, hself p⟩
    · rintro ⟨w, rest, hp, hlen, hall, rfl⟩
      cases w with
      | nil =>
        rw [List.nil_append] at hp
        exact .inr (List.mem_singleton.2 (by rw [← hp]; rfl))
      | cons a w =>
        obtain ⟨ha, hall⟩ := List.forall_mem_cons.1 hall
        refine .inl ⟨Place.after p [a] (w ++ rest) [], List.mem_filter.2 ⟨mem_run_unit.2 ⟨a, w ++ rest, hp, ha, rfl⟩, ?_⟩, ?_⟩
        · rw [hp]
          exact decide_eq_true (Nat.lt_succ_self _)
        · exact ih.2 ⟨w, rest, rfl, Nat.le_of_succ_le_succ hlen, hall, by simp [Place.after]⟩

theorem mem_run_star_unit {c : α → Bool} {p q : Place α} :
    q ∈ (star (unit c)).run p ↔
      ∃ w rest, p.rest = w ++ rest ∧ (∀ a ∈ w, c a = true) ∧ q = Place.after p w rest [] := by
  refine mem_rounds_unit.trans ⟨?_, ?_⟩
  · rintro ⟨w, rest, hp, -, hall, hq⟩
    exact ⟨w, rest, hp, hall, hq⟩
  · rintro ⟨w, rest, hp, hall, hq⟩
    refine ⟨w, rest, hp, ?_, hall, hq⟩
    rw [hp, List.length_append]
    exact Nat.le_add_right _ _

theorem matchAt_units_eq_none {cs : List (α → Bool)} {before s : List α} :
    matchAt (units cs) before s = none ↔ ∀ u b, s = u ++ b → ¬ Reads cs u := by
  rw [matchAt_eq_none]
  constructor
  · exact fun h u b hs hu => h _ (mem_run_units.2 ⟨u, b, hs, hu, rfl⟩)
  · intro h q hq
    obtain ⟨u, b, hs, hu, -⟩ := mem_run_units.1 hq
    exact h u b hs hu

theorem find_units_eq_none {cs : List (α → Bool)} {s : List α} : find (units cs) s = none ↔ Free cs s := by
  simp only [find, findFrom_eq_none, matchAt_units_eq_none]
  constructor
  · rintro h a ⟨u, b, hs, hu⟩
    exact h a (u ++ b) hs u b rfl hu
  · rintro h x y hs u b rfl hu
    exact h x ⟨u, b, hs, hu⟩

/-! ### The first opener -/

/-- An opener begins with the unit, which does not stand anywhere else in it. -/
def Opens (lt : α) (cs : List (α → Bool)) : Prop := ∀ u, Reads cs u → ∃ u', u = lt :: u' ∧ lt ∉ u'

section
variable {lt : α} {cs : List (α → Bool)}

theorem Reads.all {p : α → Prop} {u : List α} (hcs : ∀ c ∈ cs, ∀ a, c a = true → p a) (hu : Reads cs u) :
    ∀ a ∈ u, p a := by
  induction hu with
  | nil => exact fun a ha => absurd ha List.not_mem_nil
  | cons ha _ ih =>
    obtain ⟨hc, hcs⟩ := List.forall_mem_cons.1 hcs
    exact List.forall_mem_cons.2 ⟨hc _ ha, ih hcs⟩

theorem opens_cons {c : α → Bool} (hc : ∀ a, c a = true → a = lt) (hcs : ∀ d ∈ cs, d lt = false) :
    Opens lt (c :: cs) := by
  intro u hu
  cases hu with
  | @cons _ a _ u ha hu =>
    obtain rfl := hc a ha
    refine ⟨u, rfl, fun hmem => ?_⟩
    have hne : ∀ b ∈ u, b ≠ a := Reads.all (fun d hd b hb hba => by rw [hba, hcs d hd] at hb; cases hb) hu
    exact hne a hmem rfl

/-- Openers that a map does not tell from others are found in a text if they are found in its image. -/
theorem Free.of_map_eq {f : α → α} (hf : ∀ u v, u.map f = v.map f → Reads cs u → Reads cs v) {s t : List α}
    (h : s.map f = t.map f) (ht : Free cs t) : Free cs s := by
  rintro a ⟨u, b, rfl, hu⟩
  rw [List.map_append, List.map_append] at h
  obtain ⟨a', r, rfl, -, hr⟩ := List.map_eq_append_iff.1 h.symm
  obtain ⟨u', b', rfl, hu', -⟩ := List.map_eq_append_iff.1 hr
  exact ht a' ⟨u', b', rfl, hf u u' hu'.symm hu⟩

theorem Occurs.append {a s : List α} (h : Occurs cs a s) (t : List α) : Occurs cs a (s ++ t) := by
  obtain ⟨u, b, rfl, hu⟩ := h
  exact ⟨u, b ++ t, by simp, hu⟩

theorem Free.of_append {s t : List α} (h : Free cs (s ++ t)) : Free cs s := fun a ha => h a (Occurs.append ha t)

/-- No opener begins in a part without one, and reaches into what is behind it. -/
theorem Free.le (hcs : Opens lt cs) {p a s : List α} (hp : Free cs p) (h : Occurs cs a (p ++ lt :: s)) :
    p.length ≤ a.length := by
  obtain ⟨u, b, heq, hu⟩ := h
  obtain ⟨u', rfl, hnot⟩ := hcs u hu
  rcases List.append_eq_append_iff.1 heq with ⟨w, rfl, -⟩ | ⟨w, rfl, hw⟩
  · rw [List.length_append]
    exact Nat.le_add_right _ _
  · -- the opener begins `w` in front of the unit
    rcases w with _ | ⟨x, w⟩
    · exact Nat.le_of_eq (by rw [List.append_nil])
    · obtain ⟨rfl, hw'⟩ := List.cons.inj hw
      rcases List.append_eq_append_iff.1 hw' with ⟨v, rfl, -⟩ | ⟨v, hu', hv⟩
      · exact absurd ⟨lt :: u', v, by simp, hu⟩ (hp a)
      · rcases v with _ | ⟨y, v⟩
        · rw [List.append_nil] at hu'
          exact absurd ⟨lt :: u', [], by simp [hu'], hu⟩ (hp a)
        · obtain ⟨rfl, -⟩ := List.cons.inj hv
          exact absurd (by simp [hu']) hnot

/-- The part in front of a first opener. -/
theorem free_of_first (hcs : Opens lt cs) {a s : List α} (hfirst : ∀ c, Occurs cs c (a ++ s) → a.length ≤ c.length) :
    Free cs a := by
  intro c hc
  have hle := hfirst c (hc.append s)
  obtain ⟨u, b, rfl, hu⟩ := hc
  obtain ⟨u', rfl, -⟩ := hcs u hu
  simp only [List.length_append, List.length_cons] at hle
  omega

/-- The first openers of a text stand at one place. -/
theorem first_unique (hcs : Opens lt cs) {p q s t u v : List α} (hp : Free cs p) (hq : Free cs q)
    (hu : Reads cs u) (hv : Reads cs v) (h : p ++ (u ++ s) = q ++ (v ++ t)) : p = q ∧ u = v ∧ s = t := by
  obtain ⟨u', hu', -⟩ := hcs u hu
  obtain ⟨v', hv', -⟩ := hcs v hv
  have hle : p.length ≤ q.length := by
    refine hp.le hcs (s := u' ++ s) ⟨v, t, ?_, hv⟩
    rw [← h, hu', List.cons_append]
  have hge : q.length ≤ p.length := by
    refine hq.le hcs (s := v' ++ t) ⟨u, s, ?_, hu⟩
    rw [h, hv', List.cons_append]
  obtain ⟨hpq, hrest⟩ := List.append_inj h (Nat.le_antisymm hle hge)
  exact ⟨hpq, List.append_inj hrest (hu.length_eq.symm.trans hv.length_eq)⟩

/-- A text without openers, or one cut at its first. -/
theorem free_or_first (hcs : Opens lt cs) (s : List α) :
    Free cs s ∨ ∃ p u b, s = p ++ (u ++ b) ∧ Reads cs u ∧ Free cs p := by
  cases hfind : find (units cs) s with
  | none => exact .inl (find_units_eq_none.1 hfind)
  | some m =>
    obtain ⟨p, y, rfl, hm, hfirst⟩ := findFrom_eq_some.1 hfind
    have hsome : matchAt (units cs) (p.reverse ++ []) y ≠ none := fun h => by rw [h] at hm; cases hm
    simp only [ne_eq, matchAt_units_eq_none, not_forall, not_not] at hsome
    obtain ⟨u, b, rfl, hu⟩ := hsome
    refine .inr ⟨p, u, b, rfl, hu, free_of_first hcs (s := u ++ b) fun c hc => Nat.le_of_not_lt fun hlt => ?_⟩
    obtain ⟨v, t, hs, hv⟩ := hc
    exact matchAt_units_eq_none.1 (hfirst c (v ++ t) hs hlt) v t rfl hv

end

/-! ## Tags -/

theorem append_close_inj {close : α} {v w s t : List α} (hv : close ∉ v) (hw : close ∉ w)
    (h : v ++ close :: s = w ++ close :: t) :
    v = w ∧ s = t := by
  have hpart {v w s t : List α} (hw : close ∉ w) (h : v ++ close :: s = w ++ close :: t) : w.length ≤ v.length := by
    rcases List.append_eq_append_iff.1 h with ⟨x, rfl, hx⟩ | ⟨x, rfl, -⟩
    · rcases x with _ | ⟨y, x⟩
      · exact Nat.le_of_eq (by rw [List.append_nil])
      · obtain ⟨rfl, -⟩ := List.cons.inj hx
        exact absurd (by simp) hw
    · rw [List.length_append]
      exact Nat.le_add_right _ _
  obtain ⟨rfl, hrest⟩ := List.append_inj h (Nat.le_antisymm (hpart hv h.symm) (hpart hw h))
  exact ⟨rfl, (List.cons.inj hrest).2⟩

section
variable {cs : List (α → Bool)} {close : α}

/-- A text that is a tag. -/
def IsTag (cs : List (α → Bool)) (close : α) (t : List α) : Prop :=
  ∃ u v, t = u ++ (v ++ [close]) ∧ Reads cs u ∧ close ∉ v

theorem IsTag.closed {t : List α} (hcs : ∀ c ∈ cs, c close = false) (h : IsTag cs close t) :
    ∃ m, t = m ++ [close] ∧ close ∉ m := by
  obtain ⟨u, v, rfl, hu, hv⟩ := h
  refine ⟨u ++ v, by rw [List.append_assoc], fun hmem => (List.mem_append.1 hmem).elim (fun hmem => ?_) hv⟩
  have hne : ∀ a ∈ u, a ≠ close := Reads.all (fun c hc a ha hac => by rw [hac, hcs c hc] at ha; cases ha) hu
  exact hne close hmem rfl

end

section
variable [DecidableEq α] {cs : List (α → Bool)} {close : α} {n : Option Nat}

/-- What is read up to the closing unit, which may be a group. -/
def inside (close : α) : Option Nat → Regex α
  | none => star (unit fun a => a ≠ close)
  | some n => group n (star (unit fun a => a ≠ close))

/-- An opener, and all up to the closing unit. -/
def tag (cs : List (α → Bool)) (close : α) (n : Option Nat) : Regex α :=
  seqs [units cs, inside close n, unit (· = close)]

/-- The group of what is read. -/
def captured : Option Nat → List α → List (Nat × List α)
  | none, _ => []
  | some n, v => [(n, v)]

theorem mem_run_inside {p q : Place α} :
    q ∈ (inside close n).run p ↔
      ∃ v rest, p.rest = v ++ rest ∧ close ∉ v ∧ q = Place.after p v rest (captured n v) := by
  have hnot (v : List α) : (∀ a ∈ v, decide (a ≠ close) = true) ↔ close ∉ v := by
    simp only [decide_eq_true_eq]
    exact ⟨fun h hmem => h close hmem rfl, fun h a ha hac => h (hac ▸ ha)⟩
  cases n with
  | none =>
    refine mem_run_star_unit.trans ?_
    simp only [hnot, captured]
  | some n =>
    constructor
    · intro h
      obtain ⟨t, ht, rfl⟩ := List.mem_map.1 h
      obtain ⟨v, rest, hp, hv, rfl⟩ := mem_run_star_unit.1 ht
      refine ⟨v, rest, hp, (hnot v).1 hv, ?_⟩
      simp [Place.after, captured, hp]
    · rintro ⟨v, rest, hp, hv, rfl⟩
      refine List.mem_map.2 ⟨Place.after p v rest [], mem_run_star_unit.2 ⟨v, rest, hp, (hnot v).2 hv, rfl⟩, ?_⟩
      simp [Place.after, captured, hp]

theorem mem_run_tag {p q : Place α} :
    q ∈ (tag cs close n).run p ↔
      ∃ u v rest, p.rest = u ++ (v ++ close :: rest) ∧ Reads cs u ∧ close ∉ v ∧
        q = Place.after p (u ++ (v ++ [close])) rest (captured n v) := by
  constructor
  · intro h
    obtain ⟨t, ht, h'⟩ := List.mem_flatMap.1 h
    obtain ⟨t', ht', h''⟩ := List.mem_flatMap.1 h'
    obtain ⟨t'', ht'', hq⟩ := List.mem_flatMap.1 h''
    obtain ⟨u, rest, hp, hu, rfl⟩ := mem_run_units.1 ht
    obtain ⟨v, rest', rfl : rest = v ++ rest', hv, rfl⟩ := mem_run_inside.1 ht'
    obtain ⟨a, rest'', rfl : rest' = a :: rest'', ha, rfl⟩ := mem_run_unit.1 ht''
    obtain rfl := of_decide_eq_true ha
    rw [List.mem_singleton.1 hq]
    exact ⟨u, v, rest'', hp, hu, hv, by simp [Place.after]⟩
  · rintro ⟨u, v, rest, hp, hu, hv, rfl⟩
    refine List.mem_flatMap.2 ⟨_, mem_run_units.2 ⟨u, v ++ close :: rest, hp, hu, rfl⟩, ?_⟩
    refine List.mem_flatMap.2 ⟨_, mem_run_inside.2 ⟨v, close :: rest, rfl, hv, rfl⟩, ?_⟩
    refine List.mem_flatMap.2 ⟨_, mem_run_unit.2 ⟨close, rest, rfl, decide_eq_true rfl, rfl⟩, ?_⟩
    exact List.mem_singleton.2 (by simp [Place.after])

theorem matchAt_tag_eq_none {before s : List α} :
    matchAt (tag cs close n) before s = none ↔ ∀ u b, s = u ++ b → Reads cs u → close ∉ b := by
  rw [matchAt_eq_none]
  constructor
  · rintro h u b rfl hu hclose
    obtain ⟨v, rest, rfl, hv⟩ := List.eq_append_cons_of_mem hclose
    exact h _ (mem_run_tag.2 ⟨u, v, rest, rfl, hu, hv, rfl⟩)
  · intro h q hq
    obtain ⟨u, v, rest, hs, hu, -, -⟩ := mem_run_tag.1 hq
    exact h u (v ++ close :: rest) hs hu (List.mem_append_right _ (List.mem_cons_self ..))

theorem matchAt_tag_eq_some {before u v rest : List α} (hu : Reads cs u) (hv : close ∉ v) :
    matchAt (tag cs close n) before (u ++ (v ++ close :: rest)) =
      some ⟨before.reverse, u ++ (v ++ [close]), rest, captured n v⟩ := by
  have hmem := (mem_run_tag (n := n) (p := ⟨before, u ++ (v ++ close :: rest), []⟩)).2 ⟨u, v, rest, rfl, hu, hv, rfl⟩
  obtain ⟨q, l, hrun⟩ := List.exists_cons_of_ne_nil (List.ne_nil_of_mem hmem)
  -- every match at the place ends at the first closing unit behind the opener
  obtain ⟨u', v', rest', hs, hu', hv', rfl⟩ := mem_run_tag.1 (hrun ▸ List.mem_cons_self ..)
  obtain ⟨rfl, htail⟩ := List.append_inj hs (hu.length_eq.symm.trans hu'.length_eq)
  obtain ⟨rfl, rfl⟩ := append_close_inj hv hv' htail
  rw [matchAt, hrun, List.head?_cons, Option.map_some, consumed_after (by simp)]
  simp [Place.after]

/-- The first tag begins with the first opener. -/
theorem find_tag_eq_some {lt : α} (hcs : Opens lt cs) {s : List α} {m : Found α} :
    find (tag cs close n) s = some m ↔ ∃ u v, s = m.before ++ (u ++ (v ++ close :: m.after)) ∧ Free cs m.before ∧
      Reads cs u ∧ close ∉ v ∧ m.text = u ++ (v ++ [close]) ∧ m.groups = captured n v := by
  rw [find, findFrom_eq_some]
  constructor
  · rintro ⟨x, y, rfl, hm, hfirst⟩
    have hsome : matchAt (tag cs close n) (x.reverse ++ []) y ≠ none := fun h => by rw [h] at hm; cases hm
    simp only [ne_eq, matchAt_tag_eq_none, not_forall, not_not] at hsome
    obtain ⟨u, b, rfl, hu, hclose⟩ := hsome
    obtain ⟨v, rest, rfl, hv⟩ := List.eq_append_cons_of_mem hclose
    rw [matchAt_tag_eq_some hu hv] at hm
    obtain rfl := Option.some.inj hm
    refine ⟨u, v, by simp, ?_, hu, hv, rfl, rfl⟩
    rw [List.append_nil, List.reverse_reverse]
    refine free_of_first hcs (a := x) (s := u ++ (v ++ close :: rest)) fun c hc => Nat.le_of_not_lt fun hlt => ?_
    obtain ⟨w, t, hs, hw⟩ := hc
    -- an opener further in front would be closed here too
    refine matchAt_tag_eq_none.1 (hfirst c (w ++ t) hs hlt) w t rfl hw ?_
    have heq : (x ++ (u ++ v)) ++ close :: rest = (c ++ w) ++ t := by simpa using hs
    have hlen := hu.length_eq.symm.trans hw.length_eq
    rcases List.append_eq_append_iff.1 heq with ⟨z, hz, -⟩ | ⟨z, -, rfl⟩
    · have hz := congrArg List.length hz
      simp only [List.length_append] at hz
      omega
    · exact List.mem_append_right _ (List.mem_cons_self ..)
  · rintro ⟨u, v, rfl, hfree, hu, hv, htext, hgroups⟩
    refine ⟨m.before, _, rfl, ?_, ?_⟩
    · rw [matchAt_tag_eq_some hu hv, List.append_nil, List.reverse_reverse, ← htext, ← hgroups]
    · rintro x y hs hlt
      rw [matchAt_tag_eq_none]
      rintro w t rfl hw
      obtain ⟨u', rfl, -⟩ := hcs u hu
      have hle := hfree.le hcs (s := u' ++ (v ++ close :: m.after)) ⟨w, t, hs, hw⟩
      exact absurd hle (Nat.not_le_of_lt hlt)

end

end Regex

/-! ## Marked units

Two cuts of one text are the same if they stand at marked units with equally many marked ones in front of them, or
behind them.
-/

section
variable {α : Type} {p : α → Bool}

theorem prefix_unique {a b s t : List α} {x y : α} (hx : p x = true) (hy : p y = true) (h : a ++ x :: s = b ++ y :: t)
    (hcount : a.countP p = b.countP p) : a = b ∧ x :: s = y :: t := by
  have hle {a b s t : List α} {x y : α} (hy : p y = true) (h : a ++ x :: s = b ++ y :: t)
      (hcount : a.countP p = b.countP p) : a.length ≤ b.length := by
    rcases List.append_eq_append_iff.1 h with ⟨w, rfl, -⟩ | ⟨w, rfl, hw⟩
    · rw [List.length_append]
      exact Nat.le_add_right _ _
    · rcases w with _ | ⟨z, w⟩
      · exact Nat.le_of_eq (by rw [List.append_nil])
      · obtain ⟨rfl, -⟩ := List.cons.inj hw
        rw [List.countP_append, List.countP_cons_of_pos hy] at hcount
        omega
  exact List.append_inj h (Nat.le_antisymm (hle hy h hcount) (hle hx h.symm hcount.symm))

theorem suffix_unique {a b s t : List α} {x y : α} (hx : p x = true) (hy : p y = true) (h : a ++ x :: s = b ++ y :: t)
    (hcount : s.countP p = t.countP p) : a = b ∧ x :: s = y :: t := by
  refine prefix_unique hx hy h ?_
  have hall := congrArg (List.countP p) h
  rw [List.countP_append, List.countP_append, List.countP_cons_of_pos hx, List.countP_cons_of_pos hy] at hall
  omega

/-- Texts with the same marked units and the same image under a map that keeps all others. -/
theorem eq_of_map_eq {f : α → α} (hf : ∀ a, p (f a) = p a) (hid : ∀ a, p a = false → f a = a) {s t : List α}
    (hmap : s.map f = t.map f) (hfilter : s.filter p = t.filter p) : s = t := by
  induction s generalizing t with
  | nil => exact (List.map_eq_nil_iff.1 hmap.symm).symm
  | cons a s ih =>
    obtain ⟨b, t, rfl, hab, hst⟩ := List.map_eq_cons_iff.1 hmap.symm
    have hp : p a = p b := by rw [← hf a, ← hab, hf b]
    by_cases ha : p a = true
    · rw [List.filter_cons_of_pos ha, List.filter_cons_of_pos (hp ▸ ha)] at hfilter
      obtain ⟨rfl, hrest⟩ := List.cons.inj hfilter
      rw [ih hst.symm hrest]
    · have hb : p b = false := by rw [← hp, Bool.eq_false_iff]; exact ha
      rw [List.filter_cons_of_neg ha, List.filter_cons_of_neg (hp ▸ ha)] at hfilter
      rw [ih hst.symm hfilter, ← hid a (Bool.eq_false_iff.2 ha), ← hab, hid b hb]

end

end Gafam.Lib
