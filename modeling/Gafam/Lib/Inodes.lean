import Mathlib.Data.List.Basic
import Mathlib.Logic.Function.Basic

/-!
# A directory and its inodes

A name in a directory stands for an inode, and an open file is an inode too: a file that has been renamed or
removed can still be written to. What a name stands for is therefore no matter of the last write to that name.
The names `ν` are arbitrary, and no two of them stand for the same inode.
-/

namespace Gafam.Lib

/-- `write` at an offset; what lies between the old end and the offset is filled with zeros. -/
def overwrite (c : List UInt8) (off : Nat) (chunk : List UInt8) : List UInt8 :=
  c.take off ++ List.replicate (off - c.length) 0 ++ chunk ++ c.drop (off + chunk.length)

/-- A chunk is written at the end. -/
theorem overwrite_at_end {c chunk : List UInt8} {off : Nat} (h : c.length = off) :
    overwrite c off chunk = c ++ chunk := by
  simp [overwrite, ← h]

/-- A directory without hard links. -/
structure Disk (ν : Type) where
  entries : ν → Option Nat
  inodes : List (List UInt8)
  bounded : ∀ n i, entries n = some i → i < inodes.length
  separate : ∀ m n i, entries m = some i → entries n = some i → m = n

namespace Disk

variable {ν : Type}

/-- No name stands for anything. -/
def empty : Disk ν := ⟨fun _ => none, [], by simp, by simp⟩

/-- What is read under a name. -/
def content (d : Disk ν) (n : ν) : Option (List UInt8) := (d.entries n).bind fun i => d.inodes[i]?

/-- A write through an open file. -/
def write (d : Disk ν) (i off : Nat) (chunk : List UInt8) : Disk ν where
  entries := d.entries
  inodes := d.inodes.modify i fun c => overwrite c off chunk
  bounded n j hj := by
    rw [List.length_modify]
    exact d.bounded n j hj
  separate := d.separate

/-- The name of the open file gets the chunk. -/
theorem content_write_self {d : Disk ν} {n : ν} {c chunk : List UInt8} {i off : Nat}
    (hn : d.entries n = some i) (hc : d.content n = some c) :
    (d.write i off chunk).content n = some (overwrite c off chunk) := by
  rw [content, hn] at hc
  have hc' : d.inodes[i]? = some c := hc
  simp [content, write, hn, hc']

/-- Another name does not. -/
theorem content_write_ne {d : Disk ν} {n k : ν} {chunk : List UInt8} {i off : Nat}
    (hn : d.entries n = some i) (h : k ≠ n) :
    (d.write i off chunk).content k = d.content k := by
  unfold content write
  dsimp only
  cases hk : d.entries k with
  | none => rfl
  | some j =>
    have hij : i ≠ j := fun hij => h (d.separate k n j hk (hij ▸ hn))
    simp [List.getElem?_modify, hij]

variable [DecidableEq ν]

/-- Other names keep what they stand for; `n` may get an inode that is not in use. -/
def point (d : Disk ν) (n : ν) (o : Option Nat) (l : List (List UInt8)) (hl : d.inodes.length ≤ l.length)
    (ho : ∀ i, o = some i → i < l.length) (hfree : ∀ m i, o = some i → d.entries m = some i → m = n) :
    Disk ν where
  entries := Function.update d.entries n o
  inodes := l
  bounded m i hi := by
    by_cases hm : m = n
    · subst hm
      rw [Function.update_self] at hi
      exact ho i hi
    · rw [Function.update_of_ne hm] at hi
      exact Nat.lt_of_lt_of_le (d.bounded m i hi) hl
  separate a b i ha hb := by
    by_cases han : a = n <;> by_cases hbn : b = n
    · rw [han, hbn]
    · rw [han, Function.update_self] at ha
      rw [Function.update_of_ne hbn] at hb
      rw [han, hfree b i ha hb]
    · rw [hbn, Function.update_self] at hb
      rw [Function.update_of_ne han] at ha
      rw [hbn, hfree a i hb ha]
    · rw [Function.update_of_ne han] at ha
      rw [Function.update_of_ne hbn] at hb
      exact d.separate a b i ha hb

/-- `unlink`. -/
def remove (d : Disk ν) (n : ν) : Disk ν := d.point n none d.inodes (Nat.le_refl _) (by simp) (by simp)

/-- `rename` of a name that stands for something. -/
def rename (d : Disk ν) (m n : ν) : Disk ν :=
  (d.remove m).point n (d.entries m) d.inodes (Nat.le_refl _) (d.bounded m) fun a i hi ha => by
    have ha' : Function.update d.entries m none a = some i := ha
    by_cases ham : a = m
    · rw [ham, Function.update_self] at ha'
      cases ha'
    · rw [Function.update_of_ne ham] at ha'
      exact absurd (d.separate a m i ha' hi) ham

/-- `open` for writing: an existing file is cut to nothing. -/
def create (d : Disk ν) (n : ν) : Disk ν × Nat :=
  match d.entries n with
  | some i =>
    (⟨d.entries, d.inodes.set i [], fun m j hj => by
      rw [List.length_set]
      exact d.bounded m j hj, d.separate⟩, i)
  | none =>
    (d.point n (some d.inodes.length) (d.inodes ++ [[]]) (by simp)
      (fun i hi => by
        cases hi
        simp)
      (fun m i hi hm => by
        cases hi
        exact absurd (d.bounded m _ hm) (Nat.lt_irrefl _)), d.inodes.length)

variable {d : Disk ν} {m n k : ν}

@[simp] theorem content_remove_self : (d.remove n).content n = none := by
  simp [content, remove, point]

theorem content_remove_ne (h : k ≠ n) : (d.remove n).content k = d.content k := by
  simp [content, remove, point, h]

theorem content_rename_self : (d.rename m n).content n = d.content m := by
  simp [content, rename, remove, point]

theorem content_rename_ne (hm : k ≠ m) (hn : k ≠ n) : (d.rename m n).content k = d.content k := by
  simp [content, rename, remove, point, hm, hn]

theorem entries_create_self : (d.create n).1.entries n = some (d.create n).2 := by
  unfold create
  split
  · assumption
  · simp [point]

theorem content_create_self : (d.create n).1.content n = some [] := by
  unfold create
  split
  · rename_i i hi
    have hlt := d.bounded n i hi
    simp [content, hi, hlt]
  · simp [content, point]

theorem content_create_ne (h : k ≠ n) : (d.create n).1.content k = d.content k := by
  unfold create
  split
  · rename_i i hi
    unfold content
    dsimp only
    cases hk : d.entries k with
    | none => rfl
    | some j =>
      have hij : i ≠ j := fun hij => h (d.separate k n j hk (hij ▸ hi))
      simp [hij]
  · unfold content point
    dsimp only
    rw [Function.update_of_ne h]
    cases hk : d.entries k with
    | none => rfl
    | some j => simp [List.getElem?_append_left (d.bounded k j hk)]

end Disk

end Gafam.Lib
