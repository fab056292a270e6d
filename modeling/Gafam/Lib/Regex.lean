import Mathlib.Data.List.Basic
import Mathlib.Tactic.Common

/-!
# Regular expressions with backtracking

An expression is run at a place of a text and gives every way to match there, the preferred one first: an
alternative prefers its first branch, and a repetition one more round. An engine reports the first match at the
first place that has one. `Word` says what a match can look like, without the assertions.
-/

namespace Gafam.Lib

/-- A place in a text: what stands before it, last unit first, what stands behind it, and the groups so far. -/
structure Place (α : Type) where
  before : List α
  rest : List α
  groups : List (Nat × List α)

inductive Regex (α : Type)
  | empty
  /-- one unit of a class -/
  | unit (p : α → Bool)
  | seq (r s : Regex α)
  | alt (r s : Regex α)
  /-- any number of rounds, as many as possible first -/
  | star (r : Regex α)
  | group (n : Nat) (r : Regex α)
  /-- a property of what stands before the place, last unit first, and behind it -/
  | assert (p : List α → List α → Bool)

namespace Regex

variable {α : Type}

/-- At most `fuel` rounds; a round that reads nothing does not count as one. -/
def rounds (f : Place α → List (Place α)) : Nat → Place α → List (Place α)
  | 0, p => [p]
  | fuel + 1, p => ((f p).filter fun q => q.rest.length < p.rest.length).flatMap (rounds f fuel) ++ [p]

/-- The places that a match from a place can lead to, the preferred one first. -/
def run : Regex α → Place α → List (Place α)
  | empty => fun p => [p]
  | unit c => fun p =>
    match p.rest with
    | [] => []
    | a :: rest => if c a then [⟨a :: p.before, rest, p.groups⟩] else []
  | seq r s => fun p => (r.run p).flatMap s.run
  | alt r s => fun p => r.run p ++ s.run p
  | star r => fun p => rounds r.run p.rest.length p
  | group n r => fun p => (r.run p).map fun q =>
    { q with groups := (n, p.rest.take (p.rest.length - q.rest.length)) :: q.groups }
  | assert c => fun p => if c p.before p.rest then [p] else []

/-! ## Abbreviations -/

/-- This text. -/
def lit [DecidableEq α] : List α → Regex α
  | [] => empty
  | a :: l => seq (unit (· = a)) (lit l)

/-- One after the other. -/
def seqs : List (Regex α) → Regex α
  | [] => empty
  | r :: rs => seq r (seqs rs)

/-- One of them, the first ones preferred. -/
def alts : List (Regex α) → Regex α
  | [] => unit fun _ => false
  | r :: rs => alt r (alts rs)

/-- `r?` -/
def opt (r : Regex α) : Regex α := alt r empty

/-- `r+` -/
def plus (r : Regex α) : Regex α := seq r (star r)

/-- `r{n}` -/
def times (r : Regex α) : Nat → Regex α
  | 0 => empty
  | n + 1 => seq r (times r n)

/-- `r{0,n}` -/
def upTo (r : Regex α) : Nat → Regex α
  | 0 => empty
  | n + 1 => opt (seq r (upTo r n))

/-- `r{m,m+n}` -/
def between (r : Regex α) (m n : Nat) : Regex α := seq (times r m) (upTo r n)

/-- `^` -/
def start : Regex α := assert fun before _ => before.isEmpty

/-- `$` -/
def stop : Regex α := assert fun _ rest => rest.isEmpty

/-! ## Searching -/

/-- A text falls into units that belong to no match, and matches. -/
inductive Piece (α : Type)
  | plain (a : α)
  | found (text : List α) (groups : List (Nat × List α))

def Piece.text : Piece α → List α
  | .plain a => [a]
  | .found w _ => w

/-- The pieces of a text from a place on. After an empty match the search goes on one unit further. -/
def scan (r : Regex α) : Nat → List α → List α → List (Piece α)
  | 0, _, rest => rest.map .plain
  | fuel + 1, before, rest =>
    match (r.run ⟨before, rest, []⟩).head?, rest with
    | none, [] => []
    | none, a :: rest => .plain a :: scan r fuel (a :: before) rest
    | some q, [] => [.found [] q.groups]
    | some q, a :: rest =>
      if q.rest.length < (a :: rest).length then
        .found ((a :: rest).take ((a :: rest).length - q.rest.length)) q.groups :: scan r fuel q.before q.rest
      else .found [] q.groups :: .plain a :: scan r fuel (a :: before) rest

/-- The pieces of a text. -/
def pieces (r : Regex α) (s : List α) : List (Piece α) := scan r (s.length + 1) [] s

/-- The matches in a text. -/
def findAll (r : Regex α) (s : List α) : List (List α × List (Nat × List α)) :=
  (pieces r s).filterMap fun
    | .plain _ => none
    | .found w groups => some (w, groups)

/-- The text with something in the place of every match. -/
def replaceAll (r : Regex α) (f : List (Nat × List α) → List α) (s : List α) : List α :=
  (pieces r s).flatMap fun
    | .plain a => [a]
    | .found _ groups => f groups

/-- The first match in a text. -/
def exec (r : Regex α) (s : List α) : Option (List α × List (Nat × List α)) := (findAll r s).head?

/-- There is a match. -/
def test (r : Regex α) (s : List α) : Bool := (exec r s).isSome

/-- The text of a group. -/
def groupText (groups : List (Nat × List α)) (n : Nat) : List α := (groups.lookup n).getD []

/-! ## What a match looks like -/

/-- A text that an expression can match, and the groups that it takes from it, the last one first. -/
inductive Word : Regex α → List α → List (Nat × List α) → Prop
  | empty : Word .empty [] []
  | unit {c : α → Bool} {a : α} (h : c a = true) : Word (.unit c) [a] []
  | seq {r s : Regex α} {u v : List α} {g k : List (Nat × List α)} (hu : Word r u g) (hv : Word s v k) :
    Word (.seq r s) (u ++ v) (k ++ g)
  | left {r s : Regex α} {u : List α} {g : List (Nat × List α)} (h : Word r u g) : Word (.alt r s) u g
  | right {r s : Regex α} {u : List α} {g : List (Nat × List α)} (h : Word s u g) : Word (.alt r s) u g
  | done {r : Regex α} : Word (.star r) [] []
  | round {r : Regex α} {u v : List α} {g k : List (Nat × List α)} (hu : Word r u g) (hv : Word (.star r) v k) :
    Word (.star r) (u ++ v) (k ++ g)
  | group {n : Nat} {r : Regex α} {u : List α} {g : List (Nat × List α)} (h : Word r u g) :
    Word (.group n r) u ((n, u) :: g)
  | assert {c : List α → List α → Bool} : Word (.assert c) [] []

/-- A match leads from one place to another over some text. -/
structure Leads (r : Regex α) (p q : Place α) (w : List α) (g : List (Nat × List α)) : Prop where
  rest : p.rest = w ++ q.rest
  before : q.before = w.reverse ++ p.before
  groups : q.groups = g ++ p.groups
  word : Word r w g

theorem leads_seq {r s : Regex α} {p q t : Place α} {u v : List α} {g k : List (Nat × List α)}
    (h : Leads r p q u g) (h' : Leads s q t v k) : Leads (.seq r s) p t (u ++ v) (k ++ g) where
  rest := by rw [h.rest, h'.rest, List.append_assoc]
  before := by rw [h'.before, h.before, List.reverse_append, List.append_assoc]
  groups := by rw [h'.groups, h.groups, List.append_assoc]
  word := .seq h.word h'.word

theorem leads_rounds {r : Regex α} (ih : ∀ p q, q ∈ r.run p → ∃ w g, Leads r p q w g) (fuel : Nat) (p q : Place α)
    (h : q ∈ rounds r.run fuel p) : ∃ w g, Leads (.star r) p q w g := by
  induction fuel generalizing p with
  | zero =>
    obtain rfl := List.mem_singleton.1 h
    exact ⟨[], [], rfl, rfl, rfl, .done⟩
  | succ fuel ihfuel =>
    unfold rounds at h
    rcases List.mem_append.1 h with h | h
    · obtain ⟨t, ht, h⟩ := List.mem_flatMap.1 h
      obtain ⟨u, g, hu⟩ := ih p t (List.mem_filter.1 ht).1
      obtain ⟨v, k, hv⟩ := ihfuel t h
      have hseq := leads_seq hu hv
      exact ⟨u ++ v, k ++ g, hseq.rest, hseq.before, hseq.groups, .round hu.word hv.word⟩
    · obtain rfl := List.mem_singleton.1 h
      exact ⟨[], [], rfl, rfl, rfl, .done⟩

/-- Every match that is found is one. -/
theorem leads_of_mem_run (r : Regex α) : ∀ p q, q ∈ r.run p → ∃ w g, Leads r p q w g := by
  induction r with
  | empty =>
    intro p q h
    obtain rfl := List.mem_singleton.1 h
    exact ⟨[], [], rfl, rfl, rfl, .empty⟩
  | unit c =>
    intro p q h
    unfold run at h
    split at h
    · cases h
    · next a rest hrest =>
      split_ifs at h with hc
      · obtain rfl := List.mem_singleton.1 h
        exact ⟨[a], [], hrest, rfl, rfl, .unit hc⟩
      · cases h
  | seq r s ihr ihs =>
    intro p q h
    obtain ⟨t, ht, h⟩ := List.mem_flatMap.1 h
    obtain ⟨u, g, hu⟩ := ihr p t ht
    obtain ⟨v, k, hv⟩ := ihs t q h
    exact ⟨_, _, leads_seq hu hv⟩
  | alt r s ihr ihs =>
    intro p q h
    rcases List.mem_append.1 h with h | h
    · obtain ⟨w, g, hw⟩ := ihr p q h
      exact ⟨w, g, hw.rest, hw.before, hw.groups, .left hw.word⟩
    · obtain ⟨w, g, hw⟩ := ihs p q h
      exact ⟨w, g, hw.rest, hw.before, hw.groups, .right hw.word⟩
  | star r ih => exact fun p q h => leads_rounds ih _ p q h
  | group n r ih =>
    intro p q h
    obtain ⟨t, ht, rfl⟩ := List.mem_map.1 h
    obtain ⟨w, g, hw⟩ := ih p t ht
    have htake : p.rest.take (p.rest.length - t.rest.length) = w := by
      rw [hw.rest, List.length_append, Nat.add_sub_cancel, List.take_left]
    refine ⟨w, (n, w) :: g, hw.rest, hw.before, ?_, .group hw.word⟩
    rw [htake]
    exact congrArg _ hw.groups
  | assert c =>
    intro p q h
    unfold run at h
    split_ifs at h
    · obtain rfl := List.mem_singleton.1 h
      exact ⟨[], [], rfl, rfl, rfl, .assert⟩
    · cases h

/-! ## Pieces -/

/-- The pieces of a text make up the text, and what is found is a word of the expression. -/
theorem scan_text (r : Regex α) (fuel : Nat) (before rest : List α) :
    (scan r fuel before rest).flatMap Piece.text = rest ∧
      ∀ w g, .found w g ∈ scan r fuel before rest → Word r w g := by
  induction fuel generalizing before rest with
  | zero =>
    unfold scan
    refine ⟨?_, fun w g h => ?_⟩
    · rw [List.flatMap_map]
      exact List.flatMap_singleton' rest
    · obtain ⟨a, _, ha⟩ := List.mem_map.1 h
      cases ha
  | succ fuel ih =>
    have hlead (q : Place α) (h : (r.run ⟨before, rest, []⟩).head? = some q) :
        ∃ w, rest = w ++ q.rest ∧ Word r w q.groups := by
      obtain ⟨w, g, hw⟩ := leads_of_mem_run r _ q (List.mem_of_mem_head? h)
      have hgroups : q.groups = g := by rw [hw.groups, List.append_nil]
      exact ⟨w, hw.rest, hgroups ▸ hw.word⟩
    unfold scan
    cases hhead : (r.run ⟨before, rest, []⟩).head? with
    | none =>
      cases rest with
      | nil => exact ⟨rfl, fun w g h => absurd h List.not_mem_nil⟩
      | cons a rest =>
        refine ⟨congrArg (a :: ·) (ih (a :: before) rest).1, fun w g h => ?_⟩
        exact (ih (a :: before) rest).2 w g ((List.mem_cons.1 h).resolve_left fun h => by cases h)
    | some q =>
      obtain ⟨w, hrest, hword⟩ := hlead q hhead
      cases rest with
      | nil =>
        obtain ⟨rfl, -⟩ := List.append_eq_nil_iff.1 hrest.symm
        refine ⟨rfl, fun w g h => ?_⟩
        cases List.mem_singleton.1 h
        exact hword
      | cons a rest =>
        dsimp only
        split_ifs with hlen
        · have htake : (a :: rest).take ((a :: rest).length - q.rest.length) = w := by
            rw [hrest, List.length_append, Nat.add_sub_cancel, List.take_left]
          rw [htake]
          refine ⟨?_, fun w' g h => ?_⟩
          · rw [List.flatMap_cons, (ih q.before q.rest).1]
            exact hrest.symm
          · rcases List.mem_cons.1 h with h | h
            · cases h
              exact hword
            · exact (ih q.before q.rest).2 w' g h
        · have hw : w = [] := by
            rw [hrest, List.length_append] at hlen
            exact List.length_eq_zero_iff.1 (by omega)
          rw [hw] at hword
          refine ⟨congrArg (a :: ·) (ih (a :: before) rest).1, fun w' g h => ?_⟩
          rcases List.mem_cons.1 h with h | h
          · cases h
            exact hword
          · exact (ih (a :: before) rest).2 w' g ((List.mem_cons.1 h).resolve_left fun h => by cases h)

theorem text_pieces (r : Regex α) (s : List α) : (pieces r s).flatMap Piece.text = s := (scan_text r _ [] s).1

theorem word_of_mem_pieces {r : Regex α} {s w : List α} {g : List (Nat × List α)} (h : .found w g ∈ pieces r s) :
    Word r w g := (scan_text r _ [] s).2 w g h

theorem word_of_exec {r : Regex α} {s w : List α} {g : List (Nat × List α)} (h : exec r s = some (w, g)) :
    Word r w g := by
  obtain ⟨x, hx, hfound⟩ := List.mem_filterMap.1 (List.mem_of_mem_head? h)
  cases x with
  | plain a => cases hfound
  | found w' g' =>
    cases hfound
    exact word_of_mem_pieces hx

/-- A property that survives in front of and behind every match, and that its replacement has, is kept by
`replaceAll`. -/
theorem replaceAll_keeps {P Q : List α → Prop} (r : Regex α) (f : List (Nat × List α) → List α)
    (hmono : ∀ s, P s → Q s) (happend : ∀ s t, Q s → Q t → Q (s ++ t))
    (hfound : ∀ a w b g, Word r w g → P (a ++ (w ++ b)) → P a ∧ P b ∧ Q (f g)) {s : List α} (h : P s) :
    Q (replaceAll r f s) := by
  have hall (l : List (Piece α)) (hl : ∀ w g, .found w g ∈ l → Word r w g) (a : List α)
      (ha : P (a ++ l.flatMap Piece.text)) :
      Q (a ++ l.flatMap fun | .plain a => [a] | .found _ groups => f groups) := by
    induction l generalizing a with
    | nil =>
      rw [List.flatMap_nil, List.append_nil] at ha ⊢
      exact hmono a ha
    | cons x l ih =>
      have hl' := fun w g (h : .found w g ∈ l) => hl w g (List.mem_cons_of_mem _ h)
      cases x with
      | plain b =>
        rw [List.flatMap_cons, ← List.append_assoc] at ha ⊢
        exact ih hl' _ ha
      | found w g =>
        rw [List.flatMap_cons] at ha ⊢
        obtain ⟨hbefore, hbehind, hreplaced⟩ := hfound a w _ g (hl w g (List.mem_cons_self ..)) ha
        exact happend _ _ (hmono a hbefore) (happend _ _ hreplaced (ih hl' [] hbehind))
  exact hall (pieces r s) (fun w g => word_of_mem_pieces) [] (by rw [List.nil_append, text_pieces]; exact h)

/-! ## Words of simple expressions -/

section
variable {r s : Regex α} {w : List α} {g : List (Nat × List α)}

theorem word_unit {c : α → Bool} : Word (.unit c) w g ↔ ∃ a, c a = true ∧ w = [a] ∧ g = [] := by
  constructor
  · rintro ⟨⟩
    exact ⟨_, ‹_›, rfl, rfl⟩
  · rintro ⟨a, h, rfl, rfl⟩
    exact .unit h

theorem word_seq : Word (.seq r s) w g ↔ ∃ u v k l, Word r u k ∧ Word s v l ∧ w = u ++ v ∧ g = l ++ k := by
  constructor
  · rintro ⟨⟩
    exact ⟨_, _, _, _, ‹_›, ‹_›, rfl, rfl⟩
  · rintro ⟨u, v, k, l, hu, hv, rfl, rfl⟩
    exact .seq hu hv

theorem word_alt : Word (.alt r s) w g ↔ Word r w g ∨ Word s w g := by
  constructor
  · rintro ⟨⟩
    · exact .inl ‹_›
    · exact .inr ‹_›
  · exact fun h => h.elim .left .right

theorem word_empty : Word (.empty : Regex α) w g ↔ w = [] ∧ g = [] := by
  constructor
  · rintro ⟨⟩
    exact ⟨rfl, rfl⟩
  · rintro ⟨rfl, rfl⟩
    exact .empty

theorem word_assert {c : List α → List α → Bool} : Word (.assert c) w g ↔ w = [] ∧ g = [] := by
  constructor
  · rintro ⟨⟩
    exact ⟨rfl, rfl⟩
  · rintro ⟨rfl, rfl⟩
    exact .assert

theorem word_group {n : Nat} : Word (.group n r) w g ↔ ∃ k, Word r w k ∧ g = (n, w) :: k := by
  constructor
  · rintro ⟨⟩
    exact ⟨_, ‹_›, rfl⟩
  · rintro ⟨k, h, rfl⟩
    exact .group h

theorem word_lit [DecidableEq α] {l : List α} : Word (lit l) w g ↔ w = l ∧ g = [] := by
  induction l generalizing w g with
  | nil => exact word_empty
  | cons a l ih =>
    rw [lit, word_seq]
    constructor
    · rintro ⟨u, v, k, m, hu, hv, rfl, rfl⟩
      obtain ⟨b, hb, rfl, rfl⟩ := word_unit.1 hu
      obtain ⟨rfl, rfl⟩ := ih.1 hv
      exact ⟨by rw [of_decide_eq_true hb]; rfl, rfl⟩
    · rintro ⟨rfl, rfl⟩
      exact ⟨[a], l, [], [], word_unit.2 ⟨a, decide_eq_true rfl, rfl, rfl⟩, ih.2 ⟨rfl, rfl⟩, rfl, rfl⟩

/-- Rounds of one unit each. -/
theorem word_star_unit {c : α → Bool} (h : Word (.star (.unit c)) w g) : (∀ a ∈ w, c a = true) ∧ g = [] := by
  generalize hr : Regex.star (.unit c) = r at h
  induction h with
  | done => exact ⟨fun a ha => absurd ha List.not_mem_nil, rfl⟩
  | round hu hv ihu ihv =>
    cases hr
    obtain ⟨a, ha, rfl, rfl⟩ := word_unit.1 hu
    obtain ⟨hall, rfl⟩ := ihv rfl
    refine ⟨fun b hb => ?_, rfl⟩
    rcases List.mem_append.1 hb with hb | hb
    · rw [List.mem_singleton.1 hb]
      exact ha
    · exact hall b hb
  | _ => cases hr

/-- A number of rounds of one unit each. -/
theorem word_between_unit {c : α → Bool} {m n : Nat} (h : Word (between (.unit c) m n) w g) :
    m ≤ w.length ∧ w.length ≤ m + n := by
  have htimes (m : Nat) (u : List α) (k : List (Nat × List α)) (h : Word (times (.unit c) m) u k) : u.length = m := by
    induction m generalizing u k with
    | zero => rw [(word_empty.1 h).1, List.length_nil]
    | succ m ih =>
      obtain ⟨x, v, k, l, hx, hv, rfl, -⟩ := word_seq.1 h
      obtain ⟨a, -, rfl, -⟩ := word_unit.1 hx
      rw [List.length_append, ih v l hv, List.length_singleton, Nat.add_comm]
  have hupTo (n : Nat) (u : List α) (k : List (Nat × List α)) (h : Word (upTo (.unit c) n) u k) : u.length ≤ n := by
    induction n generalizing u k with
    | zero => exact Nat.le_of_eq (congrArg List.length (word_empty.1 h).1)
    | succ n ih =>
      rcases word_alt.1 h with h | h
      · obtain ⟨x, v, k, l, hx, hv, rfl, -⟩ := word_seq.1 h
        obtain ⟨a, -, rfl, -⟩ := word_unit.1 hx
        rw [List.length_append, List.length_singleton, Nat.add_comm]
        exact Nat.succ_le_succ (ih v l hv)
      · rw [(word_empty.1 h).1]
        exact Nat.zero_le _
  obtain ⟨u, v, k, l, hu, hv, rfl, -⟩ := word_seq.1 h
  have hlen := htimes m u k hu
  have hle := hupTo n v l hv
  rw [List.length_append]
  omega

theorem word_plus_unit {c : α → Bool} (h : Word (plus (.unit c)) w g) :
    w ≠ [] ∧ (∀ a ∈ w, c a = true) ∧ g = [] := by
  obtain ⟨u, v, k, l, hu, hv, rfl, rfl⟩ := word_seq.1 h
  obtain ⟨a, ha, rfl, rfl⟩ := word_unit.1 hu
  obtain ⟨hall, rfl⟩ := word_star_unit hv
  exact ⟨List.cons_ne_nil _ _, List.forall_mem_cons.2 ⟨ha, hall⟩, rfl⟩

end

end Regex

end Gafam.Lib
