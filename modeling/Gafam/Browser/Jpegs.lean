import Gafam.Go.Proofs.TextProofs
import Gafam.Lib.Drain

/-!
# The pictures of the browser stream

The encoder writes JPEG pictures one after the other. The stream reads its output in chunks, keeps what
is left over of one chunk in front of the next, and takes the pictures by their markers.
-/

namespace Gafam.Browser

open Gafam.Go Gafam.Lib

/-- `b"\xff\xd8"` -/
def soi : GoString := [0xFF, 0xD8]

/-- `b"\xff\xd9"` -/
def eoi : GoString := [0xFF, 0xD9]

/-- `buf.find(sub, start)`; `none` is the source's -1. -/
def find (buf sub : GoString) (start : Nat) : Option Nat := (index sub (buf.drop start)).map (· + start)

/-- One turn of the loop of `extract_jpegs`: a frame and the buffer behind it, or the leftover with which
the call returns. -/
def turn (buf : GoString) : (GoString × GoString) ⊕ GoString :=
  match find buf soi 0 with
  | none => .inr []
  | some start =>
    match find (buf.drop start) eoi 2 with
    | none => .inr (buf.drop start)
    | some last => .inl ((buf.drop start).take (last + 2), (buf.drop start).drop (last + 2))

/-! ## What a turn finds -/

theorem soi_ne_nil : soi ≠ [] := List.cons_ne_nil _ _

theorem eoi_ne_nil : eoi ≠ [] := List.cons_ne_nil _ _

/-- A text in front of which no start marker begins: even with the first byte of one behind it, it holds none. -/
def Junk (junk : GoString) : Prop := ¬ soi <:+: junk ++ [0xFF]

/-- A text in which no end marker begins, even with the first byte of one behind it. -/
def Body (body : GoString) : Prop := ¬ eoi <:+: body ++ [0xFF]

/-- The buffer holds no start marker. -/
theorem turn_skip {buf : GoString} (h : ¬ soi <:+: buf) : turn buf = .inr [] := by
  rw [turn, find, List.drop_zero, (index_eq_none_iff soi_ne_nil).2 h]
  rfl

theorem find_soi {junk : GoString} (hjunk : Junk junk) (x : GoString) :
    find (junk ++ (soi ++ x)) soi 0 = some junk.length := by
  have hindex : index soi (junk ++ (soi ++ x)) = some junk.length :=
    (index_eq_some_iff soi_ne_nil).2 ⟨junk, x, (List.append_assoc ..).symm, rfl, hjunk⟩
  rw [find, List.drop_zero, hindex]
  rfl

/-- A picture has begun. -/
theorem turn_open {junk x : GoString} (hjunk : Junk junk) (hx : ¬ eoi <:+: x) :
    turn (junk ++ (soi ++ x)) = .inr (soi ++ x) := by
  have hfind : find (soi ++ x) eoi 2 = none := by
    rw [find, show (soi ++ x).drop 2 = x from rfl, (index_eq_none_iff eoi_ne_nil).2 hx]
    rfl
  simp only [turn, find_soi hjunk, List.drop_left, hfind]

/-- A picture is there. -/
theorem turn_frame {junk body : GoString} (hjunk : Junk junk) (hbody : Body body) (rest : GoString) :
    turn (junk ++ (soi ++ (body ++ (eoi ++ rest)))) = .inl (soi ++ (body ++ eoi), rest) := by
  have hfind : find (soi ++ (body ++ (eoi ++ rest))) eoi 2 = some (body.length + 2) := by
    have hindex : index eoi (body ++ (eoi ++ rest)) = some body.length :=
      (index_eq_some_iff eoi_ne_nil).2 ⟨body, rest, (List.append_assoc ..).symm, rfl, hbody⟩
    rw [find, show (soi ++ (body ++ (eoi ++ rest))).drop 2 = body ++ (eoi ++ rest) from rfl, hindex]
    rfl
  have hlen : (soi ++ (body ++ eoi)).length = body.length + 2 + 2 := by
    simp [soi, eoi]
  have hsplit : soi ++ (body ++ (eoi ++ rest)) = (soi ++ (body ++ eoi)) ++ rest := by
    simp only [List.append_assoc]
  simp only [turn, find_soi hjunk, List.drop_left, hfind]
  rw [hsplit, ← hlen, List.take_left, List.drop_left]

/-- What a buffer can look like. -/
theorem buffer_cases (buf : GoString) :
    ¬ soi <:+: buf ∨
      (∃ junk x, buf = junk ++ (soi ++ x) ∧ Junk junk ∧ ¬ eoi <:+: x) ∨
      ∃ junk body rest, buf = junk ++ (soi ++ (body ++ (eoi ++ rest))) ∧ Junk junk ∧ Body body := by
  cases hstart : index soi buf with
  | none => exact .inl ((index_eq_none_iff soi_ne_nil).1 hstart)
  | some i =>
    obtain ⟨junk, x, rfl, -, hjunk⟩ := (index_eq_some_iff soi_ne_nil).1 hstart
    cases hend : index eoi x with
    | none =>
      refine .inr (.inl ⟨junk, x, List.append_assoc .., hjunk, ?_⟩)
      exact (index_eq_none_iff eoi_ne_nil).1 hend
    | some j =>
      obtain ⟨body, rest, rfl, -, hbody⟩ := (index_eq_some_iff eoi_ne_nil).1 hend
      exact .inr (.inr ⟨junk, body, rest, by simp only [List.append_assoc], hjunk, hbody⟩)

theorem turn_inl {buf frame rest : GoString} (h : turn buf = .inl (frame, rest)) :
    ∃ junk body, buf = junk ++ (soi ++ (body ++ (eoi ++ rest))) ∧ frame = soi ++ (body ++ eoi) ∧
      Junk junk ∧ Body body := by
  rcases buffer_cases buf with hno | ⟨junk, x, rfl, hjunk, hx⟩ | ⟨junk, body, rest', rfl, hjunk, hbody⟩
  · rw [turn_skip hno] at h
    cases h
  · rw [turn_open hjunk hx] at h
    cases h
  · rw [turn_frame hjunk hbody] at h
    cases h
    exact ⟨junk, body, rfl, rfl, hjunk, hbody⟩

theorem turn_shrinks {buf frame rest : GoString} (h : turn buf = .inl (frame, rest)) :
    rest.length < buf.length := by
  obtain ⟨junk, body, rfl, -⟩ := turn_inl h
  simp only [List.length_append, soi, List.length_cons]
  omega

/-! ## The calls -/

/-- `extract_jpegs` -/
def extractJpegs (buf : GoString) : List GoString × GoString :=
  match h : turn buf with
  | .inr leftover => ([], leftover)
  | .inl (frame, rest) => (frame :: (extractJpegs rest).1, (extractJpegs rest).2)
termination_by buf.length
decreasing_by all_goals exact turn_shrinks h

/-- A read of the encoder's output that is not its end. -/
abbrev Chunk := { chunk : GoString // chunk ≠ [] }

/-- The bytes of some chunks. -/
def bytes (chunks : List Chunk) : GoString := (chunks.map Subtype.val).flatten

/-- The frames that the loop of `_handle_stream` is given, from this buffer on. -/
def streamLoop (buf : GoString) : List Chunk → List GoString
  | [] => []
  | chunk :: chunks =>
    (extractJpegs (buf ++ chunk.val)).1 ++ streamLoop (extractJpegs (buf ++ chunk.val)).2 chunks

/-! ## Where the cuts are -/

/-- The stream is cut within a start marker, which every earlier start marker has an end marker in front
of, and which has an end marker behind it. -/
def CutsMarker (before behind : GoString) : Prop :=
  ∃ p q, before = p ++ [0xFF] ∧ behind = 0xD8 :: q ∧ (∀ a b, p = a ++ (soi ++ b) → eoi <:+: b) ∧ eoi <:+: q

end Gafam.Browser
