import Gafam.Lib.Steps
import Mathlib.Logic.Function.Basic

/-!
# Cells that are read, changed and written back

A request reads its cell, changes what it has read, and writes the result back, in two steps between which
other requests go on. As long as every request writes while its cell still has the value that it read, the
cells are what the requests make of them one after the other.
-/

namespace Gafam.Lib

variable {κ ε : Type} {V : κ → Type}

/-- A request: its cell, and what it makes of the value there unless it refuses. -/
structure Rmw (ε : Type) (V : κ → Type) where
  cell : κ
  edit : V cell → Except ε (V cell)
  /-- A write that fails is reported to the client. -/
  heeds : Bool

/-- Where a request stands. -/
inductive Rmw.Phase (r : Rmw ε V)
  | waiting
  | loaded (seen : V r.cell)
  | finished

/-- The cells, the requests that have come in, and those that were acknowledged, in this order. -/
structure Cells (ε : Type) (V : κ → Type) where
  values : ∀ k, V k
  requests : List ((r : Rmw ε V) × r.Phase)
  acked : List (Rmw ε V)

/-- `misload` is a read that fails, `misstore` a write that fails. -/
inductive CellsAction (ε : Type) (V : κ → Type)
  | arrive (r : Rmw ε V)
  | load (i : Nat)
  | misload (i : Nat)
  | store (i : Nat)
  | misstore (i : Nat)

namespace Cells

/-- The cells before any request. -/
def start (ε : Type) (values : ∀ k, V k) : Cells ε V := ⟨values, [], []⟩

/-- The request has been answered. -/
def finish (s : Cells ε V) (i : Nat) (r : Rmw ε V) : Cells ε V :=
  { s with requests := s.requests.set i ⟨r, .finished⟩ }

/-- The answer after a write that failed. -/
def unwritten (s : Cells ε V) (i : Nat) (r : Rmw ε V) (seen : V r.cell) : Option (Cells ε V) :=
  match r.edit seen with
  | .error _ => none
  | .ok _ => some { s.finish i r with acked := if r.heeds then s.acked else s.acked ++ [r] }

theorem unwritten_values {s s' : Cells ε V} {i : Nat} {r : Rmw ε V} {seen : V r.cell}
    (h : s.unwritten i r seen = some s') (hr : r.heeds = true) :
    s'.values = s.values ∧ s'.acked = s.acked := by
  unfold unwritten at h
  split at h
  · cases h
  · cases h
    rw [hr]
    exact ⟨rfl, rfl⟩

variable [DecidableEq κ]

/-- The write of a request that has read `seen`, or its refusal. -/
def write (s : Cells ε V) (i : Nat) (r : Rmw ε V) (seen : V r.cell) : Cells ε V :=
  match r.edit seen with
  | .error _ => s.finish i r
  | .ok v => { s.finish i r with values := Function.update s.values r.cell v, acked := s.acked ++ [r] }

/-- A request by itself. -/
def apply (values : ∀ k, V k) (r : Rmw ε V) : Except ε (∀ k, V k) :=
  (r.edit (values r.cell)).map (Function.update values r.cell)

/-- Requests one after the other, none of which refuses. -/
def applyAll (values : ∀ k, V k) (l : List (Rmw ε V)) : Except ε (∀ k, V k) := l.foldlM apply values

/-- The cells are the outcome of the acknowledged requests in some order. -/
def Serial (v₀ : ∀ k, V k) (s : Cells ε V) : Prop :=
  ∃ l, l.Perm s.acked ∧ applyAll v₀ l = .ok s.values

theorem applyAll_concat {v₀ v v' : ∀ k, V k} {l : List (Rmw ε V)} {r : Rmw ε V}
    (h : applyAll v₀ l = .ok v) (hr : apply v r = .ok v') : applyAll v₀ (l ++ [r]) = .ok v' := by
  unfold applyAll at h ⊢
  rw [List.foldlM_append, h]
  show (List.foldlM apply v [r]) = .ok v'
  rw [List.foldlM_cons, hr]
  rfl

/-- The write of a request that has read what its cell has is that request by itself. -/
theorem applyAll_write {v₀ : ∀ k, V k} {s : Cells ε V} (h : applyAll v₀ s.acked = .ok s.values) (i : Nat)
    (r : Rmw ε V) : applyAll v₀ (s.write i r (s.values r.cell)).acked
      = .ok (s.write i r (s.values r.cell)).values := by
  unfold write
  cases hedit : r.edit (s.values r.cell) with
  | error e => exact h
  | ok v =>
    refine applyAll_concat h ?_
    unfold apply
    rw [hedit]
    rfl

variable [∀ k, Inhabited (V k)]

def step (s : Cells ε V) : CellsAction ε V → Option (Cells ε V)
  | .arrive r => some { s with requests := s.requests ++ [⟨r, .waiting⟩] }
  | .load i =>
    match s.requests[i]? with
    | some ⟨r, .waiting⟩ => some { s with requests := s.requests.set i ⟨r, .loaded (s.values r.cell)⟩ }
    | _ => none
  | .misload i =>
    match s.requests[i]? with
    | some ⟨r, .waiting⟩ => some { s with requests := s.requests.set i ⟨r, .loaded default⟩ }
    | _ => none
  | .store i =>
    match s.requests[i]? with
    | some ⟨r, .loaded seen⟩ => some (s.write i r seen)
    | _ => none
  | .misstore i =>
    match s.requests[i]? with
    | some ⟨r, .loaded seen⟩ => s.unwritten i r seen
    | _ => none

/-- A request that writes has read what its cell has now, and a write that fails is reported. -/
def Current (s : Cells ε V) : CellsAction ε V → Prop
  | .store i => ∀ r seen, s.requests[i]? = some ⟨r, .loaded seen⟩ → seen = s.values r.cell
  | .misstore i => ∀ r seen, s.requests[i]? = some ⟨r, .loaded seen⟩ → r.heeds = true
  | _ => True

/-- One step keeps the cells what the acknowledged requests make of them. -/
theorem applyAll_step {v₀ : ∀ k, V k} {s s' : Cells ε V} {a : CellsAction ε V}
    (h : applyAll v₀ s.acked = .ok s.values) (hC : s.Current a) (hstep : s.step a = some s') :
    applyAll v₀ s'.acked = .ok s'.values := by
  cases a with
  | arrive r =>
    cases hstep
    exact h
  | load i =>
    unfold step at hstep
    dsimp only at hstep
    split at hstep
    · cases hstep
      exact h
    · cases hstep
  | misload i =>
    unfold step at hstep
    dsimp only at hstep
    split at hstep
    · cases hstep
      exact h
    · cases hstep
  | store i =>
    unfold step at hstep
    dsimp only at hstep
    split at hstep
    · next r seen hr =>
      cases hstep
      obtain rfl := hC r seen hr
      exact applyAll_write h i r
    · cases hstep
  | misstore i =>
    unfold step at hstep
    dsimp only at hstep
    split at hstep
    · next r seen hr =>
      obtain ⟨hv, hl⟩ := unwritten_values hstep (hC r seen hr)
      rw [hv, hl]
      exact h
    · cases hstep

end Cells

end Gafam.Lib
