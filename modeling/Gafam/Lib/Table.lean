import Mathlib.Data.List.Nodup
import Mathlib.Tactic.Common

/-!
# Tables with an auto-increment row id

A `Table α` is a relational table whose rows carry a value of type `α` under an integer row id that
the engine assigns: ids grow along the table, no id is used twice (not even after a deletion, `seq`
remembers the largest one given out), and a scan without an explicit order visits the rows in the
order of their ids.
-/

namespace Gafam.Lib

/-- A stored value under its row id. -/
structure Row (α : Type) where
  id : Nat
  val : α
deriving DecidableEq, Repr

/-- A table with auto-increment ids. -/
structure Table (α : Type) where
  rows : List (Row α)
  /-- The largest id ever given out. -/
  seq : Nat
  sorted : rows.Pairwise fun a b : Row α => a.id < b.id
  le_seq : ∀ r ∈ rows, r.id ≤ seq

namespace Table

variable {α : Type}

/-- The table without rows. -/
def empty : Table α := ⟨[], 0, .nil, by simp⟩

/-- The id the next insertion assigns. -/
def nextId (t : Table α) : Nat := t.seq + 1

theorem sorted_append {l : List (Row α)} {n : Nat}
    (hs : l.Pairwise fun a b : Row α => a.id < b.id) (hle : ∀ r ∈ l, r.id ≤ n) (v : α) :
    (l ++ [(⟨n + 1, v⟩ : Row α)]).Pairwise fun a b : Row α => a.id < b.id := by
  refine List.pairwise_append.2 ⟨hs, by simp, fun a ha b hb => ?_⟩
  simp only [List.mem_singleton] at hb
  subst hb
  exact Nat.lt_succ_of_le (hle a ha)

/-- `INSERT`. -/
def insert (t : Table α) (v : α) : Table α where
  rows := t.rows ++ [⟨t.nextId, v⟩]
  seq := t.nextId
  sorted := sorted_append t.sorted t.le_seq v
  le_seq := by
    intro r hr
    rcases List.mem_append.1 hr with h | h
    · exact Nat.le_succ_of_le (t.le_seq r h)
    · simp only [List.mem_singleton] at h; subst h; exact Nat.le_refl _

/-- `UPDATE … WHERE id = k`. -/
def update (t : Table α) (k : Nat) (f : α → α) : Table α where
  rows := t.rows.map fun r => if r.id = k then ⟨r.id, f r.val⟩ else r
  seq := t.seq
  sorted := by
    refine List.pairwise_map.2 (t.sorted.imp ?_)
    intro a b hab
    split <;> split <;> exact hab
  le_seq := by
    intro r hr
    obtain ⟨a, ha, rfl⟩ := List.mem_map.1 hr
    split <;> exact t.le_seq a ha

/-- `DELETE … WHERE p`. -/
def delete (t : Table α) (p : Row α → Bool) : Table α where
  rows := t.rows.filter fun r => !p r
  seq := t.seq
  sorted := t.sorted.filter _
  le_seq := fun r hr => t.le_seq r (List.mem_filter.1 hr).1

/-- `DELETE … WHERE id NOT IN (SELECT id … ORDER BY id DESC LIMIT n)`. -/
def keepLast (t : Table α) (n : Nat) : Table α where
  rows := t.rows.drop (t.rows.length - n)
  seq := t.seq
  sorted := t.sorted.sublist (List.drop_sublist _ _)
  le_seq := fun r hr => t.le_seq r (List.mem_of_mem_drop hr)

@[simp] theorem rows_empty : (empty : Table α).rows = [] := rfl

@[simp] theorem rows_insert (t : Table α) (v : α) :
    (t.insert v).rows = t.rows ++ [⟨t.nextId, v⟩] := rfl

@[simp] theorem rows_delete (t : Table α) (p : Row α → Bool) :
    (t.delete p).rows = t.rows.filter fun r => !p r := rfl

theorem mem_insert {t : Table α} {v : α} {r : Row α} :
    r ∈ (t.insert v).rows ↔ r ∈ t.rows ∨ r = ⟨t.nextId, v⟩ := by
  simp

theorem mem_update {t : Table α} {k : Nat} {f : α → α} {r : Row α} :
    r ∈ (t.update k f).rows ↔
      (r ∈ t.rows ∧ r.id ≠ k) ∨ ∃ v, ⟨k, v⟩ ∈ t.rows ∧ r = ⟨k, f v⟩ := by
  simp only [update, List.mem_map]
  constructor
  · rintro ⟨a, ha, rfl⟩
    split_ifs with h
    · subst h; exact .inr ⟨a.val, ha, rfl⟩
    · exact .inl ⟨ha, h⟩
  · rintro (⟨hr, hk⟩ | ⟨v, hv, rfl⟩)
    · exact ⟨r, hr, by simp [hk]⟩
    · exact ⟨_, hv, by simp⟩

/-- A row id names at most one row. -/
theorem row_unique {t : Table α} {a b : Row α} (ha : a ∈ t.rows) (hb : b ∈ t.rows)
    (h : a.id = b.id) : a = b := by
  have hnd : (t.rows.map Row.id).Nodup := List.pairwise_map.2 (t.sorted.imp Nat.ne_of_lt)
  exact List.inj_on_of_nodup_map hnd ha hb h

end Table

end Gafam.Lib
