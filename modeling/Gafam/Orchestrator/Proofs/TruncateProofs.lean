import Gafam.Go.Proofs.WordsProofs
import Gafam.Moksa.Executor
import Gafam.Orchestrator.Levels
import Gafam.Orchestrator.Sweep

/-!
# Texts that are cut short

Three helpers cut a text behind a number of bytes and mark the cut with an ellipsis. What they return is UTF-8 if and
only if the cut is between two characters.
-/

namespace Gafam.Orchestrator

open Gafam.Go

/-! ## Cuts of a valid text -/

theorem validString_starts {t : GoString} (ht : Starts t) (s : GoString) :
    validString (s ++ t) = (validString s && validString t) := by
  unfold validString
  rw [segments_starts ht, List.all_append]

/-- The first bytes of a text are UTF-8 if the byte behind them is not inside a character. -/
theorem validString_take_iff {s : GoString} (hs : validString s = true) (n : Nat) :
    validString (s.take n) = true ↔ ∀ b ∈ s[n]?, runeStart b = true := by
  by_cases hn : n < s.length
  · have hcut := validString_take hs hn (c := 0x20) (by decide) (t := []) rfl
    rw [validString_starts (starts_ascii (by decide) []), Bool.and_eq_true,
      and_iff_left (show validString [0x20] = true from rfl)] at hcut
    exact hcut
  · have hlen := Nat.le_of_not_lt hn
    rw [List.take_of_length_le hlen, List.getElem?_eq_none hlen]
    exact iff_of_true hs fun b hb => absurd hb (Option.not_mem_none b)

theorem validString_trimSpace {s : GoString} (hs : validString s = true) : validString (trimSpace s) = true := by
  obtain ⟨front, back, heq, -⟩ := segments_trimSpace s
  unfold validString at hs ⊢
  rw [heq, List.all_append, List.all_append, Bool.and_eq_true, Bool.and_eq_true] at hs
  exact hs.1.2

theorem length_segments_le (s : GoString) : (segments s).length ≤ s.length := by
  induction s using rune_induction with
  | nil => exact Nat.le_refl _
  | valid r bytes s h ih =>
    have hpos := List.length_pos_iff.2 h.ne_nil
    rw [segments_append h, List.length_cons, List.length_append]
    omega
  | invalid b0 s _ h ih =>
    rw [segments_invalid h, List.length_cons, List.length_cons]
    exact Nat.succ_le_succ ih

/-! ## The helpers -/

/-- The ellipsis that marks a cut. -/
def ellipsis : GoString := "…"

theorem ellipsis_starts : Starts ellipsis := by
  rintro b ⟨⟩
  rfl

theorem truncateStr_eq (s : GoString) (n : Nat) :
    truncateStr s n = if s.length ≤ n then s else s.take n ++ ellipsis := rfl

theorem validString_truncateStr {s : GoString} (hs : validString s = true) (n : Nat) :
    validString (truncateStr s n) = true ↔ ∀ b ∈ s[n]?, runeStart b = true := by
  rw [truncateStr_eq]
  split_ifs with hlen
  · rw [List.getElem?_eq_none hlen]
    exact iff_of_true hs fun b hb => absurd hb (Option.not_mem_none b)
  · rw [validString_starts ellipsis_starts, ← validString_take_iff hs, Bool.and_eq_true]
    exact and_iff_left (by decide)

/-- A text, and what is returned of it: the text itself, or the first bytes and an ellipsis. -/
structure TextPart (s out text : GoString) : Prop where
  prefix_of : text <+: s
  returned : (out = text ∧ text = s) ∨ out = text ++ ellipsis

/-- The text part of what is returned has at most as many bytes as the limit says. -/
theorem truncateStr_text (s : GoString) (n : Nat) :
    ∃ text, TextPart s (truncateStr s n) text ∧ text.length ≤ n := by
  rw [truncateStr_eq]
  split_ifs with hlen
  · exact ⟨s, ⟨List.prefix_refl s, .inl ⟨rfl, rfl⟩⟩, hlen⟩
  · exact ⟨s.take n, ⟨List.take_prefix n s, .inr rfl⟩, List.length_take_le n s⟩

/-- A helper at a limit of type `int`: behind a negative one the slice panics, which is `none`. -/
def atLimit (f : GoString → Nat → GoString) (s : GoString) (n : Int) : Option GoString :=
  if 0 ≤ n then some (f s n.toNat) else none

/-- What is expected of a truncation of a text: it returns UTF-8 with a beginning of the text. -/
structure Truncates (s : GoString) (result : Option GoString) (out text : GoString) : Prop where
  returns : result = some out
  valid : validString out = true
  textPart : TextPart s out text

section

variable {f : GoString → Nat → GoString} {s t : GoString} (hf : ∀ m, f s m = truncateStr t m)
  (ht : validString t = true) {n : Int}
include hf ht

/-- A helper that cuts as `truncateStr` does needs a limit that is not inside a character. -/
theorem Truncates.cut {out text : GoString} (h : Truncates t (atLimit f s n) out text) :
    0 ≤ n ∧ ∀ b ∈ t[n.toNat]?, runeStart b = true := by
  have hreturns := h.returns
  unfold atLimit at hreturns
  split_ifs at hreturns with hn
  obtain rfl := Option.some.inj hreturns
  exact ⟨hn, (validString_truncateStr ht n.toNat).1 (hf n.toNat ▸ h.valid)⟩

theorem truncates_of_cut (hn : 0 ≤ n) (hcut : ∀ b ∈ t[n.toNat]?, runeStart b = true) :
    ∃ out text, Truncates t (atLimit f s n) out text ∧ (segments text).length ≤ n := by
  obtain ⟨text, htext, hlen⟩ := truncateStr_text t n.toNat
  have hreturns : atLimit f s n = some (truncateStr t n.toNat) := by rw [atLimit, if_pos hn, hf]
  have hrunes := length_segments_le text
  exact ⟨_, text, ⟨hreturns, (validString_truncateStr ht n.toNat).2 hcut, htext⟩, by omega⟩

end

/-- The helpers return UTF-8 texts with a beginning of the text that they are given, and `capRunes` one of at most so
many runes, if and only if the limit is not negative and neither the text nor the trimmed text is cut inside a
character. -/
theorem truncations_iff (s : {s : GoString // validString s = true}) (n : Int) :
    ((∃ out text, Truncates s (atLimit truncateStr s n) out text) ∧
      (∃ out text, Truncates s (atLimit capRunes s n) out text ∧ (segments text).length ≤ n) ∧
      ∃ out text, Truncates (trimSpace s) (atLimit Moksa.truncate s n) out text) ↔
    0 ≤ n ∧ (∀ b ∈ s.val[n.toNat]?, runeStart b = true) ∧ ∀ b ∈ (trimSpace s)[n.toNat]?, runeStart b = true := by
  have htrim := validString_trimSpace s.2
  constructor
  · rintro ⟨⟨_, _, h⟩, -, _, _, htrunc⟩
    have hcut := h.cut (fun _ => rfl) s.2
    exact ⟨hcut.1, hcut.2, (htrunc.cut (fun _ => rfl) htrim).2⟩
  · rintro ⟨hn, hcut, hcut'⟩
    obtain ⟨out, text, h, -⟩ := @truncates_of_cut truncateStr s s (fun _ => rfl) s.2 n hn hcut
    obtain ⟨out', text', h', -⟩ := @truncates_of_cut Moksa.truncate s (trimSpace s) (fun _ => rfl) htrim n hn hcut'
    exact ⟨⟨out, text, h⟩, truncates_of_cut (fun _ => rfl) s.2 hn hcut, out', text', h'⟩

/-- `é`, of which one byte is kept. -/
theorem eAcute_cut :
    validString (str "é") = true ∧ atLimit truncateStr (str "é") 1 = some ([0xC3] ++ ellipsis) ∧
      atLimit capRunes (str "é") 1 = some ([0xC3] ++ ellipsis) ∧
      atLimit Moksa.truncate (str "é") 1 = some ([0xC3] ++ ellipsis) ∧
      validString ([0xC3] ++ ellipsis) = false := by decide

end Gafam.Orchestrator
