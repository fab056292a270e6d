import Gafam.Go.Text
import Mathlib.Data.List.Infix
import Mathlib.Tactic.Common

/-!
# Strings, bytes and paths of Python

`os.path` is the module `posixpath`. Paths are strings, and a path is taken apart at its slashes. `normpath` drops
empty and `.` components, and lets `..` take back the component before it, without a look at the file system.
-/

namespace Gafam.Python

/-- A Python string. -/
abbrev PyString := List Char

/-- The characters of a string literal of the source. -/
def py (s : String) : PyString := s.toList

instance : Coe String PyString := ⟨py⟩

/-- `path.split("/")`. -/
def splitSep : PyString → List PyString
  | [] => [[]]
  | c :: s =>
    if c = '/' then [] :: splitSep s
    else
      match splitSep s with
      | [] => [[c]]
      | w :: ws => (c :: w) :: ws

/-- `"/".join`. -/
def joinSep : List PyString → PyString
  | [] => []
  | [w] => w
  | w :: ws => w ++ '/' :: joinSep ws

/-- `os.path.join` of two paths. -/
def pathJoin (a b : PyString) : PyString :=
  if b.head? = some '/' then b
  else if a = [] ∨ a.getLast? = some '/' then a ++ b
  else a ++ '/' :: b

/-- The leading slashes that `normpath` keeps: exactly two stay two, more become one. -/
def initialSlashes : PyString → Nat
  | '/' :: '/' :: '/' :: _ => 1
  | '/' :: '/' :: _ => 2
  | '/' :: _ => 1
  | _ => 0

/-- The loop of `normpath`, the components that it keeps in front of it with the last one first. -/
def pushComp (absolute : Bool) (kept : List PyString) (comp : PyString) : List PyString :=
  if comp = [] ∨ comp = "." then kept
  else if comp ≠ ".." ∨ (absolute = false ∧ kept = []) ∨ kept.head? = some ".." then comp :: kept
  else kept.tail

/-- `os.path.normpath`. -/
def normpath (path : PyString) : PyString :=
  let slashes := initialSlashes path
  let comps := ((splitSep path).foldl (pushComp (slashes != 0)) []).reverse
  let normal := List.replicate slashes '/' ++ joinSep comps
  if normal = [] then "." else normal

/-! ## Components -/

/-- What a directory can have as the name of an entry. -/
structure IsName (w : PyString) : Prop where
  ne_nil : w ≠ []
  ne_dot : w ≠ "."
  ne_dotdot : w ≠ ".."
  noSlash : '/' ∉ w

/-- The absolute path of these components. -/
def absolutePath (comps : List PyString) : PyString := '/' :: joinSep comps

theorem splitSep_ne_nil (s : PyString) : splitSep s ≠ [] := by
  cases s with
  | nil => exact List.cons_ne_nil _ _
  | cons c s =>
    unfold splitSep
    split_ifs
    · exact List.cons_ne_nil _ _
    · split <;> exact List.cons_ne_nil _ _

theorem splitSep_append {s : PyString} (hs : '/' ∉ s) (t : PyString) :
    splitSep (s ++ '/' :: t) = s :: splitSep t := by
  induction s with
  | nil => exact if_pos rfl
  | cons c s ih =>
    obtain ⟨hc, hs⟩ := List.ne_and_not_mem_of_not_mem_cons hs
    rw [List.cons_append, splitSep, if_neg (Ne.symm hc), ih hs]

theorem splitSep_of_noSlash {s : PyString} (hs : '/' ∉ s) : splitSep s = [s] := by
  induction s with
  | nil => rfl
  | cons c s ih =>
    obtain ⟨hc, hs⟩ := List.ne_and_not_mem_of_not_mem_cons hs
    rw [splitSep, if_neg (Ne.symm hc), ih hs]

theorem noSlash_of_mem_splitSep {s w : PyString} (hw : w ∈ splitSep s) : '/' ∉ w := by
  induction s generalizing w with
  | nil =>
    rw [List.mem_singleton.1 hw]
    exact List.not_mem_nil
  | cons c s ih =>
    unfold splitSep at hw
    split_ifs at hw with hc
    · rcases List.mem_cons.1 hw with rfl | hw
      · exact List.not_mem_nil
      · exact ih hw
    · split at hw
      · next heq => exact absurd heq (splitSep_ne_nil s)
      · next v ws heq =>
        rcases List.mem_cons.1 hw with rfl | hw
        · refine List.not_mem_cons_of_ne_of_not_mem (Ne.symm hc) (ih ?_)
          rw [heq]
          exact List.mem_cons_self
        · refine ih ?_
          rw [heq]
          exact List.mem_cons_of_mem _ hw

/-- Components can be read off the path that they are joined to. -/
theorem splitSep_joinSep {comps : List PyString} (hne : comps ≠ []) (h : ∀ w ∈ comps, '/' ∉ w) :
    splitSep (joinSep comps) = comps := by
  induction comps with
  | nil => exact absurd rfl hne
  | cons w ws ih =>
    cases ws with
    | nil => exact splitSep_of_noSlash (h w List.mem_cons_self)
    | cons v ws =>
      have hws := ih (List.cons_ne_nil _ _) fun u hu => h u (List.mem_cons_of_mem _ hu)
      rw [joinSep, splitSep_append (h w List.mem_cons_self), hws]
      exact List.cons_ne_nil _ _

theorem eq_nil_of_joinSep {comps : List PyString} (h : ∀ w ∈ comps, IsName w) (hnil : joinSep comps = []) :
    comps = [] := by
  rcases comps with _ | ⟨w, _ | ⟨v, ws⟩⟩
  · rfl
  · exact absurd hnil (h w List.mem_cons_self).ne_nil
  · exact absurd hnil (List.append_ne_nil_of_right_ne_nil _ (List.cons_ne_nil _ _))

theorem absolutePath_inj {a b : List PyString} (ha : ∀ w ∈ a, IsName w) (hb : ∀ w ∈ b, IsName w)
    (h : absolutePath a = absolutePath b) : a = b := by
  have hjoin : joinSep a = joinSep b := (List.cons.inj h).2
  by_cases hnil : a = []
  · subst hnil
    exact (eq_nil_of_joinSep hb hjoin.symm).symm
  · have hnil' : b ≠ [] := by
      rintro rfl
      exact hnil (eq_nil_of_joinSep ha hjoin)
    rw [← splitSep_joinSep hnil fun w hw => (ha w hw).noSlash, hjoin,
      splitSep_joinSep hnil' fun w hw => (hb w hw).noSlash]

theorem splitSep_joinSep_append {comps : List PyString} (hne : comps ≠ []) (h : ∀ w ∈ comps, '/' ∉ w)
    (s : PyString) : splitSep (joinSep comps ++ '/' :: s) = comps ++ splitSep s := by
  induction comps with
  | nil => exact absurd rfl hne
  | cons w ws ih =>
    cases ws with
    | nil => exact splitSep_append (h w List.mem_cons_self) s
    | cons v ws =>
      have hws := ih (List.cons_ne_nil _ _) fun u hu => h u (List.mem_cons_of_mem _ hu)
      rw [joinSep, List.append_assoc, List.cons_append, splitSep_append (h w List.mem_cons_self), hws]
      · rfl
      · exact List.cons_ne_nil _ _

/-! ## `normpath` below a directory -/

theorem pushComp_name {absolute : Bool} {kept : List PyString} {w : PyString} (hw : IsName w) :
    pushComp absolute kept w = w :: kept := by
  unfold pushComp
  rw [if_neg (not_or.2 ⟨hw.ne_nil, hw.ne_dot⟩), if_pos (.inl hw.ne_dotdot)]

theorem foldl_pushComp_names {absolute : Bool} {comps kept : List PyString} (h : ∀ w ∈ comps, IsName w) :
    comps.foldl (pushComp absolute) kept = comps.reverse ++ kept := by
  induction comps generalizing kept with
  | nil => rfl
  | cons w ws ih =>
    rw [List.foldl_cons, pushComp_name (h w List.mem_cons_self), ih fun u hu => h u (List.mem_cons_of_mem _ hu),
      List.reverse_cons, List.append_assoc]
    rfl

theorem initialSlashes_absolutePath {comps : List PyString} (hne : comps ≠ []) (h : ∀ w ∈ comps, IsName w)
    (s : PyString) : initialSlashes (absolutePath comps ++ s) = 1 := by
  obtain ⟨w, ws, rfl⟩ := List.exists_cons_of_ne_nil hne
  have hw := h w List.mem_cons_self
  obtain ⟨c, w, rfl⟩ := List.exists_cons_of_ne_nil hw.ne_nil
  have hc : c ≠ '/' := by
    rintro rfl
    exact hw.noSlash List.mem_cons_self
  obtain ⟨t, ht⟩ : ∃ t, absolutePath ((c :: w) :: ws) ++ s = '/' :: c :: t := by
    cases ws with
    | nil => exact ⟨w ++ s, rfl⟩
    | cons v ws => exact ⟨w ++ '/' :: joinSep (v :: ws) ++ s, rfl⟩
  rw [ht]
  unfold initialSlashes
  split
  · rfl
  · next heq =>
    obtain ⟨-, heq⟩ := List.cons.inj heq
    exact absurd (List.cons.inj heq).1 hc
  · rfl
  · next hno => exact absurd rfl (hno _)

/-- The components of a path that is joined to a directory. -/
theorem normpath_join {comps : List PyString} (hne : comps ≠ []) (h : ∀ w ∈ comps, IsName w) (s : PyString) :
    normpath (absolutePath comps ++ '/' :: s) =
      absolutePath ((splitSep s).foldl (pushComp true) comps.reverse).reverse := by
  have hsplit : splitSep (absolutePath comps ++ '/' :: s) = [] :: (comps ++ splitSep s) := by
    unfold absolutePath
    rw [List.cons_append, splitSep, if_pos rfl,
      splitSep_joinSep_append hne fun w hw => (h w hw).noSlash]
  have hfold : (splitSep (absolutePath comps ++ '/' :: s)).foldl (pushComp true) [] =
      (splitSep s).foldl (pushComp true) comps.reverse := by
    rw [hsplit, List.foldl_cons, List.foldl_append]
    show (splitSep s).foldl (pushComp true) (comps.foldl (pushComp true) []) = _
    rw [foldl_pushComp_names h, List.append_nil]
  unfold normpath
  rw [initialSlashes_absolutePath hne h]
  show (if '/' :: _ = [] then _ else _) = _
  rw [if_neg (List.cons_ne_nil _ _)]
  show absolutePath ((splitSep (absolutePath comps ++ '/' :: s)).foldl (pushComp true) []).reverse = _
  rw [hfold]

/-!
## Bytes

`bytes.decode("utf-8", errors="replace")` reads byte by byte: a sequence that cannot go on is replaced by one
character, and the byte that broke it off is read anew.
-/

open Gafam.Go

/-- The character that stands for what is no UTF-8. -/
def replacement : Char := Char.ofNat runeError

/-- A sequence that has been begun: the bits so far, and the bounds of the bytes that are still to come. -/
structure Pending where
  bits : Nat
  bounds : List (Nat × Nat)

def Pending.idle : Pending := ⟨0, []⟩

/-- A sequence is complete when no byte is to come. -/
def settle (bits : Nat) (bounds : List (Nat × Nat)) : PyString × Pending :=
  if bounds = [] then ([Char.ofNat bits], .idle) else ([], ⟨bits, bounds⟩)

/-- A byte that stands first. -/
def decodeLead (b : UInt8) : PyString × Pending :=
  let c := b.toNat
  if c < 0x80 then settle c []
  else if 0xC2 ≤ c ∧ c ≤ 0xDF then settle (c - 0xC0) [(0x80, 0xBF)]
  else if 0xE0 ≤ c ∧ c ≤ 0xEF then
    settle (c - 0xE0) [(if c = 0xE0 then 0xA0 else 0x80, if c = 0xED then 0x9F else 0xBF), (0x80, 0xBF)]
  else if 0xF0 ≤ c ∧ c ≤ 0xF4 then
    settle (c - 0xF0)
      [(if c = 0xF0 then 0x90 else 0x80, if c = 0xF4 then 0x8F else 0xBF), (0x80, 0xBF), (0x80, 0xBF)]
  else ([replacement], .idle)

/-- One more byte: the characters that it completes, and the sequence that is open after it. -/
def decodeByte (p : Pending) (b : UInt8) : PyString × Pending :=
  match p.bounds with
  | [] => decodeLead b
  | (lo, hi) :: bounds =>
    if contByte lo hi b then settle (p.bits * 64 + payload b) bounds
    else (replacement :: (decodeLead b).1, (decodeLead b).2)

def decodeFrom (p : Pending) : GoString → PyString
  | [] => if p.bounds = [] then [] else [replacement]
  | b :: s => (decodeByte p b).1 ++ decodeFrom (decodeByte p b).2 s

/-- `bytes.decode("utf-8", errors="replace")`. -/
def decodeReplace (s : GoString) : PyString := decodeFrom .idle s

/-- `str.isspace` of one character. -/
def isspace (c : Char) : Bool := isSpace c.toNat || (0x1C ≤ c.toNat && c.toNat ≤ 0x1F)

/-- `str.strip`. -/
def strip (s : PyString) : PyString := ((s.dropWhile isspace).reverse.dropWhile isspace).reverse

/-- The decimal digits of the Unicode database, which `\d` matches and `int` reads. -/
structure Decimals where
  value : Char → Option Nat
  ascii : ∀ c : Char, c.toNat < 128 →
    value c = if 48 ≤ c.toNat ∧ c.toNat ≤ 57 then some (c.toNat - 48) else none

/-- `\d`. -/
def Decimals.isDecimal (D : Decimals) (c : Char) : Bool := (D.value c).isSome

/-- `int` of a string of digits. -/
def Decimals.int (D : Decimals) (s : PyString) : Nat := s.foldl (fun n c => n * 10 + (D.value c).getD 0) 0

end Gafam.Python
