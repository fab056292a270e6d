import Mathlib.Data.UInt
import Mathlib.Tactic.Common

/-!
# The tags of an HTML text

The states of an HTML tokenizer, as far as tags and their attributes go. The value of an attribute is kept as
it is written, before its character references are resolved. Elements whose content is no markup (a script, say)
are not told apart, so what follows the start tag of one is read as markup too.
-/

namespace Gafam.Lib.Html

/-- A text in UTF-16 code units. -/
abbrev Text := List UInt16

structure Tag where
  isEnd : Bool
  name : Text
  attrs : List (Text × Text)
deriving DecidableEq, Repr

/-- What a text holds besides characters: a tag, or a comment or other declaration. -/
inductive Token
  | tag (t : Tag)
  | declaration
deriving DecidableEq, Repr

inductive State
  | data
  | tagOpen
  | endTagOpen
  | tagName (isEnd : Bool) (name : Text)
  | beforeAttrName (tag : Tag)
  | attrName (tag : Tag) (name : Text)
  | afterAttrName (tag : Tag) (name : Text)
  | beforeAttrValue (tag : Tag) (name : Text)
  | attrValue (quote : UInt16) (tag : Tag) (name value : Text)
  | attrValueUnquoted (tag : Tag) (name value : Text)
  | afterAttrValue (tag : Tag)
  | selfClosing (tag : Tag)
  /-- a comment, a declaration or what is taken for one -/
  | declaration
deriving DecidableEq, Repr

/-- White space; a carriage return counts as the line feed it is normalized to. -/
def isSpace (c : UInt16) : Bool := c == 0x20 || c == 0x09 || c == 0x0A || c == 0x0C || c == 0x0D

def isLetter (c : UInt16) : Bool := (0x41 ≤ c && c ≤ 0x5A) || (0x61 ≤ c && c ≤ 0x7A)

def lower (c : UInt16) : UInt16 := if 0x41 ≤ c && c ≤ 0x5A then c + 0x20 else c

def Tag.with (t : Tag) (name value : Text) : Tag := { t with attrs := t.attrs ++ [(name, value)] }

/-- Behind the attributes of a tag: `/`, `>`, or the name of the next attribute. -/
def beforeAttr (tag : Tag) (c : UInt16) : State × List Token :=
  if isSpace c then (.beforeAttrName tag, [])
  else if c = 0x2F then (.selfClosing tag, [])
  else if c = 0x3E then (.data, [.tag tag])
  else (.attrName tag [lower c], [])

def unquoted (tag : Tag) (name value : Text) (c : UInt16) : State × List Token :=
  if isSpace c then (.beforeAttrName (tag.with name value), [])
  else if c = 0x3E then (.data, [.tag (tag.with name value)])
  else (.attrValueUnquoted tag name (value ++ [c]), [])

/-- One code unit. -/
def step : State → UInt16 → State × List Token
  | .data, c => (if c = 0x3C then .tagOpen else .data, [])
  | .tagOpen, c =>
    if c = 0x2F then (.endTagOpen, [])
    else if c = 0x21 ∨ c = 0x3F then (.declaration, [.declaration])
    else if isLetter c then (.tagName false [lower c], [])
    else (if c = 0x3C then .tagOpen else .data, [])
  | .endTagOpen, c =>
    if isLetter c then (.tagName true [lower c], [])
    else if c = 0x3E then (.data, [])
    else (.declaration, [.declaration])
  | .tagName isEnd name, c =>
    if isSpace c then (.beforeAttrName ⟨isEnd, name, []⟩, [])
    else if c = 0x2F then (.selfClosing ⟨isEnd, name, []⟩, [])
    else if c = 0x3E then (.data, [.tag ⟨isEnd, name, []⟩])
    else (.tagName isEnd (name ++ [lower c]), [])
  | .beforeAttrName tag, c => beforeAttr tag c
  | .attrName tag name, c =>
    if isSpace c then (.afterAttrName tag name, [])
    else if c = 0x2F then (.selfClosing (tag.with name []), [])
    else if c = 0x3E then (.data, [.tag (tag.with name [])])
    else if c = 0x3D then (.beforeAttrValue tag name, [])
    else (.attrName tag (name ++ [lower c]), [])
  | .afterAttrName tag name, c =>
    if isSpace c then (.afterAttrName tag name, [])
    else if c = 0x3D then (.beforeAttrValue tag name, [])
    else beforeAttr (tag.with name []) c
  | .beforeAttrValue tag name, c =>
    if isSpace c then (.beforeAttrValue tag name, [])
    else if c = 0x22 ∨ c = 0x27 then (.attrValue c tag name [], [])
    else if c = 0x3E then (.data, [.tag (tag.with name [])])
    else unquoted tag name [] c
  | .attrValue quote tag name value, c =>
    if c = quote then (.afterAttrValue (tag.with name value), []) else (.attrValue quote tag name (value ++ [c]), [])
  | .attrValueUnquoted tag name value, c => unquoted tag name value c
  | .afterAttrValue tag, c => beforeAttr tag c
  | .selfClosing tag, c => if c = 0x3E then (.data, [.tag tag]) else beforeAttr tag c
  | .declaration, c => (if c = 0x3E then .data else .declaration, [])

/-- The tokens of a text, and the state at its end. -/
def read (st : State) : Text → List Token × State
  | [] => ([], st)
  | c :: s =>
    let r := read (step st c).1 s
    ((step st c).2 ++ r.1, r.2)

/-- The tags and declarations of a text. -/
def tokens (s : Text) : List Token := (read .data s).1

/-! ## Texts one after the other -/

theorem read_cons (st : State) (c : UInt16) (s : Text) :
    read st (c :: s) = ((step st c).2 ++ (read (step st c).1 s).1, (read (step st c).1 s).2) := rfl

theorem read_append (st : State) (s t : Text) :
    read st (s ++ t) = ((read st s).1 ++ (read (read st s).2 t).1, (read (read st s).2 t).2) := by
  induction s generalizing st with
  | nil => rfl
  | cons c s ih =>
    rw [List.cons_append, read_cons, ih, read_cons, List.append_assoc]

/-- The text is read as these tokens, and all of them are complete. -/
def Reads (s : Text) (l : List Token) : Prop := read .data s = (l, .data)

theorem Reads.append {s t : Text} {l k : List Token} (hs : Reads s l) (ht : Reads t k) : Reads (s ++ t) (l ++ k) := by
  unfold Reads at *
  rw [read_append, hs, ht]

theorem reads_nil : Reads [] [] := rfl

theorem reads_unit {c : UInt16} (h : c ≠ 0x3C) : Reads [c] [] := by
  unfold Reads read step
  simp [h, read]

/-! ## Tags -/

/-- A code unit of a name in lower case. -/
def isNameUnit (c : UInt16) : Bool := !isSpace c && c != 0x2F && c != 0x3E && c != 0x3D && lower c == c

theorem read_tagName {isEnd : Bool} {done name : Text} (h : ∀ c ∈ name, isNameUnit c = true) (s : Text) :
    read (.tagName isEnd done) (name ++ s) = read (.tagName isEnd (done ++ name)) s := by
  induction name generalizing done with
  | nil => rw [List.nil_append, List.append_nil]
  | cons c name ih =>
    have hc := h c (List.mem_cons_self ..)
    unfold isNameUnit at hc
    simp only [Bool.and_eq_true, Bool.not_eq_true', bne_iff_ne, beq_iff_eq] at hc
    obtain ⟨⟨⟨⟨hspace, hslash⟩, hclose⟩, -⟩, hlower⟩ := hc
    have hstep : step (.tagName isEnd done) c = (.tagName isEnd (done ++ [c]), []) := by
      unfold step
      dsimp only
      rw [if_neg (by rw [hspace]; exact Bool.false_ne_true), if_neg hslash, if_neg hclose, hlower]
    rw [List.cons_append, read, hstep, ih fun d hd => h d (List.mem_cons_of_mem _ hd), List.append_assoc]
    rfl

theorem step_tagOpen {c : UInt16} (hc : isLetter c = true) (hname : isNameUnit c = true) :
    step .tagOpen c = (.tagName false [c], []) ∧ step .endTagOpen c = (.tagName true [c], []) := by
  have hmark : c ≠ 0x2F ∧ ¬ (c = 0x21 ∨ c = 0x3F) := by
    refine ⟨?_, ?_⟩
    · rintro rfl
      exact absurd hc (by decide)
    · rintro (rfl | rfl) <;> exact absurd hc (by decide)
  have hlower : lower c = c := by
    unfold isNameUnit at hname
    simp only [Bool.and_eq_true, beq_iff_eq] at hname
    exact hname.2
  unfold step
  dsimp only
  rw [if_neg hmark.1, if_neg hmark.2, if_pos hc, if_pos hc, hlower]
  exact ⟨rfl, rfl⟩

/-- A name as it stands in a tag. -/
structure IsName (name : Text) : Prop where
  first : ∀ c ∈ name.head?, isLetter c = true
  nonempty : name ≠ []
  units : ∀ c ∈ name, isNameUnit c = true

/-- The code units of an end tag. -/
def endTag (name : Text) : Text := 0x3C :: 0x2F :: (name ++ [0x3E])

theorem reads_endTag {name : Text} (h : IsName name) : Reads (endTag name) [.tag ⟨true, name, []⟩] := by
  obtain ⟨c, rest, rfl⟩ := List.exists_cons_of_ne_nil h.nonempty
  have hopen := (step_tagOpen (h.first c rfl) (h.units c (List.mem_cons_self ..))).2
  unfold Reads endTag
  rw [read, read, List.cons_append, read, show (step .data 0x3C).1 = .tagOpen from rfl,
    show (step .tagOpen 0x2F).1 = .endTagOpen from rfl, hopen,
    read_tagName fun d hd => h.units d (List.mem_cons_of_mem _ hd)]
  rfl

/-- An attribute with its value in double quotes. -/
def quotedAttr (name value : Text) : Text := 0x20 :: (name ++ 0x3D :: 0x22 :: (value ++ [0x22]))

theorem read_attrValue {quote : UInt16} {tag : Tag} {name done value : Text} (h : quote ∉ value) (s : Text) :
    read (.attrValue quote tag name done) (value ++ s) = read (.attrValue quote tag name (done ++ value)) s := by
  induction value generalizing done with
  | nil => rw [List.nil_append, List.append_nil]
  | cons c value ih =>
    obtain ⟨hc, hrest⟩ := not_or.1 (List.mem_cons.not.1 h)
    have hstep : step (.attrValue quote tag name done) c = (.attrValue quote tag name (done ++ [c]), []) :=
      if_neg (Ne.symm hc)
    rw [List.cons_append, read, hstep, ih hrest, List.append_assoc]
    rfl

theorem read_attrName {tag : Tag} {done name : Text} (h : ∀ c ∈ name, isNameUnit c = true) (s : Text) :
    read (.attrName tag done) (name ++ s) = read (.attrName tag (done ++ name)) s := by
  induction name generalizing done with
  | nil => rw [List.nil_append, List.append_nil]
  | cons c name ih =>
    have hc := h c (List.mem_cons_self ..)
    unfold isNameUnit at hc
    simp only [Bool.and_eq_true, Bool.not_eq_true', bne_iff_ne, beq_iff_eq] at hc
    obtain ⟨⟨⟨⟨hspace, hslash⟩, hclose⟩, heq⟩, hlower⟩ := hc
    have hstep : step (.attrName tag done) c = (.attrName tag (done ++ [c]), []) := by
      unfold step
      dsimp only
      rw [if_neg (by rw [hspace]; exact Bool.false_ne_true), if_neg hslash, if_neg hclose, if_neg heq, hlower]
    rw [List.cons_append, read, hstep, ih fun d hd => h d (List.mem_cons_of_mem _ hd), List.append_assoc]
    rfl

/-- Between attributes: behind the name of the tag, or behind a quoted value. -/
inductive BetweenAttrs : State → Tag → Prop
  | name {isEnd : Bool} {name : Text} : BetweenAttrs (.tagName isEnd name) ⟨isEnd, name, []⟩
  | value {tag : Tag} : BetweenAttrs (.afterAttrValue tag) tag

theorem read_attribute {st : State} {tag : Tag} (hst : BetweenAttrs st tag) {name value : Text} (hname : IsName name)
    (hvalue : (0x22 : UInt16) ∉ value) (s : Text) :
    read st (quotedAttr name value ++ s) = read (.afterAttrValue (tag.with name value)) s := by
  obtain ⟨c, rest, rfl⟩ := List.exists_cons_of_ne_nil hname.nonempty
  have hspace : step st 0x20 = (.beforeAttrName tag, []) := by
    cases hst <;> rfl
  have hc := hname.units c (List.mem_cons_self ..)
  unfold isNameUnit at hc
  simp only [Bool.and_eq_true, Bool.not_eq_true', bne_iff_ne, beq_iff_eq] at hc
  obtain ⟨⟨⟨⟨hnospace, hslash⟩, hclose⟩, -⟩, hlower⟩ := hc
  have hfirst : step (.beforeAttrName tag) c = (.attrName tag [c], []) := by
    show beforeAttr tag c = _
    unfold beforeAttr
    rw [if_neg (by rw [hnospace]; exact Bool.false_ne_true), if_neg hslash, if_neg hclose, hlower]
  have hshape : quotedAttr (c :: rest) value ++ s = 0x20 :: c :: (rest ++ 0x3D :: 0x22 :: (value ++ 0x22 :: s)) := by
    unfold quotedAttr
    simp
  rw [hshape, read, hspace, read, hfirst, read_attrName fun d hd => hname.units d (List.mem_cons_of_mem _ hd), read,
    read, show step (.attrName tag ([c] ++ rest)) 0x3D = (.beforeAttrValue tag ([c] ++ rest), []) from rfl,
    show step (.beforeAttrValue tag ([c] ++ rest)) 0x22 = (.attrValue 0x22 tag ([c] ++ rest) [], []) from rfl,
    read_attrValue hvalue]
  rfl

/-- The code units of a start tag. -/
def startTag (name : Text) (attrs : List (Text × Text)) : Text :=
  0x3C :: (name ++ (attrs.flatMap (fun a => quotedAttr a.1 a.2) ++ [0x3E]))

theorem read_attributes {st : State} {tag : Tag} (hst : BetweenAttrs st tag) {attrs : List (Text × Text)}
    (h : ∀ a ∈ attrs, IsName a.1 ∧ (0x22 : UInt16) ∉ a.2) :
    read st (attrs.flatMap (fun a => quotedAttr a.1 a.2) ++ [0x3E]) =
      ([.tag { tag with attrs := tag.attrs ++ attrs }], .data) := by
  induction attrs generalizing st tag with
  | nil =>
    rw [List.append_nil]
    cases hst <;> rfl
  | cons a attrs ih =>
    obtain ⟨hname, hvalue⟩ := h a (List.mem_cons_self ..)
    rw [List.flatMap_cons, List.append_assoc, read_attribute hst hname hvalue,
      ih .value fun b hb => h b (List.mem_cons_of_mem _ hb)]
    unfold Tag.with
    rw [List.append_assoc]
    rfl

theorem reads_startTag {name : Text} (h : IsName name) {attrs : List (Text × Text)}
    (hattrs : ∀ a ∈ attrs, IsName a.1 ∧ (0x22 : UInt16) ∉ a.2) :
    Reads (startTag name attrs) [.tag ⟨false, name, attrs⟩] := by
  obtain ⟨c, rest, rfl⟩ := List.exists_cons_of_ne_nil h.nonempty
  have hopen := (step_tagOpen (h.first c rfl) (h.units c (List.mem_cons_self ..))).1
  unfold Reads startTag
  rw [read, List.cons_append, read, show (step .data 0x3C).1 = .tagOpen from rfl, hopen,
    read_tagName fun d hd => h.units d (List.mem_cons_of_mem _ hd), read_attributes .name hattrs]
  rfl

end Gafam.Lib.Html
