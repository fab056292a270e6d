import Gafam.Frontend.Markdown

/-!
# The HTML of the renderer

The escaped text has neither a `<` nor a double quote. Every pass puts tags between pieces of the text it gets, and
cuts it at characters only that no tag has, so that what it works on is at all times made of such characters and
of whole tags.
-/

namespace Gafam.Frontend

open Gafam.Go Gafam.Js Gafam.Lib Gafam.Lib.Regex

/-! ## Text and tags -/

/-- A text made of characters other than `<` and `"`, and of whole tags. -/
inductive Woven (T : JsString → Prop) : JsString → Prop
  | nil : Woven T []
  | unit {c : UInt16} {s : JsString} (hopen : c ≠ 0x3C) (hquote : c ≠ 0x22) (h : Woven T s) : Woven T (c :: s)
  | tag {t s : JsString} (ht : T t) (h : Woven T s) : Woven T (t ++ s)

namespace Woven

variable {T : JsString → Prop} {s t : JsString}

theorem append (hs : Woven T s) (ht : Woven T t) : Woven T (s ++ t) := by
  induction hs with
  | nil => exact ht
  | unit hopen hquote _ ih => exact .unit hopen hquote ih
  | tag hu _ ih =>
    rw [List.append_assoc]
    exact .tag hu ih

theorem mono {T' : JsString → Prop} (hT : ∀ t, T t → T' t) (h : Woven T s) : Woven T' s := by
  induction h with
  | nil => exact .nil
  | unit hopen hquote _ ih => exact .unit hopen hquote ih
  | tag ht _ ih => exact .tag (hT _ ht) ih

theorem of_tag (h : T t) : Woven T t := by
  rw [← List.append_nil t]
  exact .tag h .nil

theorem of_plain (h : ∀ c ∈ s, c ≠ 0x3C ∧ c ≠ 0x22) : Woven T s := by
  induction s with
  | nil => exact .nil
  | cons c s ih =>
    obtain ⟨hopen, hquote⟩ := h c (List.mem_cons_self ..)
    exact .unit hopen hquote (ih fun d hd => h d (List.mem_cons_of_mem _ hd))

/-- At a character that no tag has, the text falls into two such texts. -/
theorem split {d : UInt16} (hd : ∀ t, T t → d ∉ t) {a b : JsString} (h : Woven T (a ++ d :: b)) :
    Woven T a ∧ Woven T b := by
  generalize hs : a ++ d :: b = s at h
  induction h generalizing a with
  | nil => exact absurd (List.append_eq_nil_iff.1 hs).2 (List.cons_ne_nil _ _)
  | unit hopen hquote h ih =>
    cases a with
    | nil =>
      obtain ⟨-, rfl⟩ := List.cons.inj hs
      exact ⟨.nil, h⟩
    | cons c a =>
      obtain ⟨rfl, htail⟩ := List.cons.inj hs
      exact ⟨.unit hopen hquote (ih htail).1, (ih htail).2⟩
  | tag ht h ih =>
    rcases List.append_eq_append_iff.1 hs with ⟨x, rfl, hx⟩ | ⟨x, rfl, hx⟩
    · cases x with
      | nil => exact ⟨by rw [← List.append_nil a]; rw [List.append_nil] at ht; exact .tag ht .nil, (ih (a := []) hx).2⟩
      | cons c x =>
        obtain ⟨rfl, -⟩ := List.cons.inj hx
        exact absurd (List.mem_append_right _ (List.mem_cons_self ..)) (hd _ ht)
    · exact ⟨.tag ht (ih hx.symm).1, (ih hx.symm).2⟩

/-- A character that no tag has is one of the text. -/
theorem notMem (h : Woven T s) (hT : ∀ t, T t → (0x22 : UInt16) ∉ t) : (0x22 : UInt16) ∉ s := by
  induction h with
  | nil => exact List.not_mem_nil
  | unit _ hquote _ ih => exact List.not_mem_cons_of_ne_of_not_mem (Ne.symm hquote) ih
  | tag ht _ ih => exact fun h => (List.mem_append.1 h).elim (hT _ ht) ih

end Woven

/-! ## Escaped text -/

theorem forall_replaceUnit {P : UInt16 → Prop} {c : UInt16} {text s : JsString} (htext : ∀ u ∈ text, P u)
    (hs : ∀ u ∈ s, u ≠ c → P u) : ∀ u ∈ replaceUnit c text s, P u := by
  intro u hu
  obtain ⟨v, hv, hu⟩ := List.mem_flatMap.1 hu
  split_ifs at hu with hc
  · exact htext u hu
  · rw [List.mem_singleton.1 hu]
    exact hs v hv hc

theorem esc_plain (s : JsString) : ∀ c ∈ esc s, c ≠ 0x3C ∧ c ≠ 0x22 := by
  have hopen : ∀ c ∈ replaceUnit 0x3C (ascii "&lt;") (replaceUnit 0x26 (ascii "&amp;") s), c ≠ 0x3C :=
    forall_replaceUnit (forall_of_all (by decide)) fun _ _ h => h
  have hclose : ∀ c ∈ replaceUnit 0x3E (ascii "&gt;") (replaceUnit 0x3C (ascii "&lt;")
      (replaceUnit 0x26 (ascii "&amp;") s)), c ≠ 0x3C :=
    forall_replaceUnit (forall_of_all (by decide)) fun c hc _ => hopen c hc
  exact forall_replaceUnit (forall_of_all (by decide)) fun c hc hne => ⟨hclose c hc, hne⟩

/-! ## Passes over a line -/

/-- The tags that are in a line before links are made. -/
def inlineTags : List JsString :=
  [ascii "<code>", ascii "</code>", ascii "<strong>", ascii "</strong>", ascii "<em>", ascii "</em>"]

/-- What delimits the matches of the patterns, and the double quote, is in none of them. -/
theorem notMem_inlineTags {d : UInt16} (hd : d ∈ ([0x60, 0x2A, 0x5B, 0x5D, 0x28, 0x29, 0x22] : JsString)) :
    ∀ t ∈ inlineTags, d ∉ t := by
  have hall : ∀ t ∈ inlineTags,
      ([0x60, 0x2A, 0x5B, 0x5D, 0x28, 0x29, 0x22] : JsString).all (fun d => decide (d ∉ t)) = true := forall_of_all (by decide)
  exact fun t ht => forall_of_all (hall t ht) d hd

/-- A line with tags in it, before links are made. -/
abbrev InlineWoven : JsString → Prop := Woven (· ∈ inlineTags)

theorem InlineWoven.split {d : UInt16} {a b : JsString} (h : InlineWoven (a ++ d :: b))
    (hd : d ∈ ([0x60, 0x2A, 0x5B, 0x5D, 0x28, 0x29, 0x22] : JsString)) : InlineWoven a ∧ InlineWoven b :=
  Woven.split (notMem_inlineTags hd) h

theorem word_one {c : UInt16} {w : JsString} {g : List (Nat × JsString)} :
    Word (one c) w g ↔ w = [c] ∧ g = [] := by
  unfold one
  rw [word_unit]
  constructor
  · rintro ⟨a, ha, rfl, rfl⟩
    exact ⟨by rw [of_decide_eq_true ha], rfl⟩
  · rintro ⟨rfl, rfl⟩
    exact ⟨c, decide_eq_true rfl, rfl, rfl⟩

theorem word_seqs_cons {r : Regex UInt16} {rs : List (Regex UInt16)} {w : JsString} {g : List (Nat × JsString)}
    (h : Word (seqs (r :: rs)) w g) :
    ∃ u v k l, Word r u k ∧ Word (seqs rs) v l ∧ w = u ++ v ∧ g = l ++ k := word_seq.1 h

/-- A first part that is one fixed character. -/
theorem word_one_cons {c : UInt16} {rs : List (Regex UInt16)} {w : JsString} {g : List (Nat × JsString)}
    (h : Word (seqs (one c :: rs)) w g) : ∃ v, w = c :: v ∧ Word (seqs rs) v g := by
  obtain ⟨u, v, k, l, hu, hv, rfl, rfl⟩ := word_seqs_cons h
  obtain ⟨rfl, rfl⟩ := word_one.1 hu
  exact ⟨v, rfl, by rw [List.append_nil]; exact hv⟩

/-- A first part that takes no text. -/
theorem word_assert_cons {p : JsString → JsString → Bool} {rs : List (Regex UInt16)} {w : JsString}
    {g : List (Nat × JsString)} (h : Word (seqs (.assert p :: rs)) w g) : Word (seqs rs) w g := by
  obtain ⟨u, v, k, l, hu, hv, rfl, rfl⟩ := word_seqs_cons h
  obtain ⟨rfl, rfl⟩ := word_assert.1 hu
  rw [List.append_nil]
  exact hv

/-- A first part that is a group of single characters. -/
theorem word_group_cons {n : Nat} {p : UInt16 → Bool} {rs : List (Regex UInt16)} {w : JsString}
    {g : List (Nat × JsString)} (h : Word (seqs (.group n (plus (.unit p)) :: rs)) w g) :
    ∃ c v l, w = c ++ v ∧ Word (seqs rs) v l ∧ g = l ++ [(n, c)] := by
  obtain ⟨u, v, k, l, hu, hv, rfl, rfl⟩ := word_seqs_cons h
  obtain ⟨k', hk, rfl⟩ := word_group.1 hu
  obtain ⟨-, -, rfl⟩ := word_plus_unit hk
  exact ⟨u, v, l, rfl, hv, rfl⟩

theorem word_seqs_nil {w : JsString} {g : List (Nat × JsString)} (h : Word (seqs []) w g) : w = [] ∧ g = [] :=
  word_empty.1 h

/-- What the pattern of code matches. -/
theorem word_codePattern {w : JsString} {g : List (Nat × JsString)} (h : Word codePattern w g) :
    w = 0x60 :: (groupText g 1 ++ [0x60]) := by
  obtain ⟨w₁, rfl, h₁⟩ := word_one_cons h
  obtain ⟨c, w₂, l, rfl, h₂, rfl⟩ := word_group_cons h₁
  obtain ⟨w₃, rfl, h₃⟩ := word_one_cons h₂
  obtain ⟨rfl, rfl⟩ := word_seqs_nil h₃
  rfl

theorem word_strongPattern {w : JsString} {g : List (Nat × JsString)} (h : Word strongPattern w g) :
    w = 0x2A :: 0x2A :: (groupText g 1 ++ [0x2A, 0x2A]) := by
  obtain ⟨w₁, rfl, h₁⟩ := word_one_cons h
  obtain ⟨w₂, rfl, h₂⟩ := word_one_cons h₁
  obtain ⟨c, w₃, l, rfl, h₃, rfl⟩ := word_group_cons h₂
  obtain ⟨w₄, rfl, h₄⟩ := word_one_cons h₃
  obtain ⟨w₅, rfl, h₅⟩ := word_one_cons h₄
  obtain ⟨rfl, rfl⟩ := word_seqs_nil h₅
  rfl

theorem word_emPattern {w : JsString} {g : List (Nat × JsString)} (h : Word emPattern w g) :
    w = 0x2A :: (groupText g 1 ++ [0x2A]) := by
  obtain ⟨w₁, rfl, h₁⟩ := word_one_cons (word_assert_cons h)
  obtain ⟨c, w₂, l, rfl, h₂, rfl⟩ := word_group_cons h₁
  obtain ⟨w₃, rfl, h₃⟩ := word_one_cons h₂
  obtain ⟨rfl, rfl⟩ := word_seqs_nil (word_assert_cons h₃)
  rfl

/-- The address of a link starts with its scheme. -/
theorem word_address {w : JsString} {g : List (Nat × JsString)}
    (h : Word (seqs [lit (ascii "http"), opt (one 0x73), lit (ascii "://"),
      plus (.unit fun c => c ≠ 0x29 && !isTrimSpace c)]) w g) :
    (ascii "http://" <+: w ∨ ascii "https://" <+: w) ∧ g = [] := by
  obtain ⟨http, w₁, k₁, l₁, hhttp, h₁, rfl, rfl⟩ := word_seqs_cons h
  obtain ⟨s, w₂, k₂, l₂, hs, h₂, rfl, rfl⟩ := word_seqs_cons h₁
  obtain ⟨slashes, w₃, k₃, l₃, hslashes, h₃, rfl, rfl⟩ := word_seqs_cons h₂
  obtain ⟨path, w₄, k₄, l₄, hpath, h₄, rfl, rfl⟩ := word_seqs_cons h₃
  obtain ⟨rfl, rfl⟩ := word_lit.1 hhttp
  obtain ⟨rfl, rfl⟩ := word_lit.1 hslashes
  obtain ⟨-, -, rfl⟩ := word_plus_unit hpath
  obtain ⟨rfl, rfl⟩ := word_seqs_nil h₄
  rcases word_alt.1 hs with hs | hs
  · obtain ⟨rfl, rfl⟩ := word_one.1 hs
    exact ⟨.inr ⟨path ++ [], rfl⟩, rfl⟩
  · obtain ⟨rfl, rfl⟩ := word_empty.1 hs
    exact ⟨.inl ⟨path ++ [], rfl⟩, rfl⟩

/-- What the pattern of a link matches. -/
theorem word_linkPattern {w : JsString} {g : List (Nat × JsString)} (h : Word linkPattern w g) :
    w = 0x5B :: (groupText g 1 ++ 0x5D :: 0x28 :: (groupText g 2 ++ [0x29])) ∧
      (ascii "http://" <+: groupText g 2 ∨ ascii "https://" <+: groupText g 2) := by
  obtain ⟨w₁, rfl, h₁⟩ := word_one_cons h
  obtain ⟨c, w₂, l, rfl, h₂, rfl⟩ := word_group_cons h₁
  obtain ⟨w₃, rfl, h₃⟩ := word_one_cons h₂
  obtain ⟨w₄, rfl, h₄⟩ := word_one_cons h₃
  obtain ⟨url, w₅, k, l', hgroup, h₅, rfl, rfl⟩ := word_seqs_cons h₄
  obtain ⟨w₆, rfl, h₆⟩ := word_one_cons h₅
  obtain ⟨rfl, rfl⟩ := word_seqs_nil h₆
  obtain ⟨k', hurl, rfl⟩ := word_group.1 hgroup
  obtain ⟨hscheme, rfl⟩ := word_address hurl
  exact ⟨rfl, hscheme⟩

theorem inlineWoven_code {s : JsString} (h : InlineWoven s) :
    InlineWoven (replaceAll codePattern (fun g => ascii "<code>" ++ groupText g 1 ++ ascii "</code>") s) := by
  refine replaceAll_keeps codePattern _ (fun _ h => h) (fun _ _ => Woven.append) (fun a w b g hw ha => ?_) h
  rw [word_codePattern hw, List.cons_append, List.append_assoc] at ha
  obtain ⟨hbefore, hrest⟩ := ha.split (by decide)
  obtain ⟨hgroup, hbehind⟩ := InlineWoven.split hrest (by decide)
  exact ⟨hbefore, hbehind, ((Woven.of_tag (by decide)).append hgroup).append (Woven.of_tag (by decide))⟩

theorem inlineWoven_strong {s : JsString} (h : InlineWoven s) :
    InlineWoven (replaceAll strongPattern (fun g => ascii "<strong>" ++ groupText g 1 ++ ascii "</strong>") s) := by
  refine replaceAll_keeps strongPattern _ (fun _ h => h) (fun _ _ => Woven.append) (fun a w b g hw ha => ?_) h
  rw [word_strongPattern hw, List.cons_append, List.cons_append, List.append_assoc] at ha
  obtain ⟨hbefore, hrest⟩ := ha.split (by decide)
  obtain ⟨-, hrest⟩ := InlineWoven.split (a := []) hrest (by decide)
  obtain ⟨hgroup, hrest⟩ := InlineWoven.split hrest (by decide)
  obtain ⟨-, hbehind⟩ := InlineWoven.split (a := []) hrest (by decide)
  exact ⟨hbefore, hbehind, ((Woven.of_tag (by decide)).append hgroup).append (Woven.of_tag (by decide))⟩

theorem inlineWoven_em {s : JsString} (h : InlineWoven s) :
    InlineWoven (replaceAll emPattern (fun g => ascii "<em>" ++ groupText g 1 ++ ascii "</em>") s) := by
  refine replaceAll_keeps emPattern _ (fun _ h => h) (fun _ _ => Woven.append) (fun a w b g hw ha => ?_) h
  rw [word_emPattern hw, List.cons_append, List.append_assoc] at ha
  obtain ⟨hbefore, hrest⟩ := ha.split (by decide)
  obtain ⟨hgroup, hbehind⟩ := InlineWoven.split hrest (by decide)
  exact ⟨hbefore, hbehind, ((Woven.of_tag (by decide)).append hgroup).append (Woven.of_tag (by decide))⟩

/-! ## Emitted tags -/

/-- A text that is read as one emitted tag. -/
def Written (t : JsString) : Prop := ∃ tag, Html.Reads t [.tag tag] ∧ IsEmitted [0x22] tag

/-- A line, or a block, of the output. -/
abbrev OutputWoven : JsString → Prop := Woven Written

theorem isName_of_all {name : JsString}
    (h : (name ≠ [] ∧ name.head?.all Html.isLetter = true) ∧ name.all Html.isNameUnit = true) : Html.IsName name :=
  ⟨fun c hc => (Option.all_eq_true ..).1 h.1.2 c hc, h.1.1, List.all_eq_true.1 h.2⟩

theorem isName_tagNames : ∀ name ∈ tagNames, Html.IsName name := by
  have hall : ∀ name ∈ tagNames, (name ≠ [] ∧ name.head?.all Html.isLetter = true) ∧
      name.all Html.isNameUnit = true := forall_of_all (by decide)
  exact fun name h => isName_of_all (hall name h)

theorem written_start {name : JsString} (h : name ∈ tagNames) : Written (ascii "<" ++ name ++ ascii ">") :=
  ⟨⟨false, name, []⟩, Html.reads_startTag (isName_tagNames name h) fun _ ha => absurd ha List.not_mem_nil, .start h⟩

theorem written_end {name : JsString} (h : name ∈ tagNames) (hr : name ≠ ascii "hr") :
    Written (ascii "</" ++ name ++ ascii ">") :=
  ⟨⟨true, name, []⟩, Html.reads_endTag (isName_tagNames name h), .stop h hr⟩

theorem written_linkEnd : Written (ascii "</a>") := by
  have hname : Html.IsName (ascii "a") := isName_of_all (by decide)
  exact ⟨⟨true, ascii "a", []⟩, Html.reads_endTag hname, .linkEnd⟩

theorem written_link {href : JsString} (scheme : ascii "http://" <+: href ∨ ascii "https://" <+: href)
    (h : (0x22 : UInt16) ∉ href) :
    Written (ascii "<a href=\"" ++ href ++ ascii "\" target=\"_blank\" rel=\"noopener noreferrer\">") := by
  have htext : ascii "<a href=\"" ++ href ++ ascii "\" target=\"_blank\" rel=\"noopener noreferrer\">" =
      Html.startTag (ascii "a") (linkAttrs href) := by
    unfold Html.startTag linkAttrs Html.quotedAttr
    simp only [List.flatMap_cons, List.flatMap_nil, List.append_assoc, List.cons_append]
    rfl
  have hname : Html.IsName (ascii "a") := isName_of_all (by decide)
  have hhref : Html.IsName (ascii "href") := isName_of_all (by decide)
  have htarget : Html.IsName (ascii "target") := isName_of_all (by decide)
  have hrel : Html.IsName (ascii "rel") := isName_of_all (by decide)
  have hattrs : ∀ a ∈ linkAttrs href, Html.IsName a.1 ∧ (0x22 : UInt16) ∉ a.2 := by
    unfold linkAttrs
    simp only [List.forall_mem_cons]
    exact ⟨⟨hhref, h⟩, ⟨htarget, by decide⟩, ⟨hrel, by decide⟩, fun a ha => absurd ha List.not_mem_nil⟩
  exact ⟨_, htext ▸ Html.reads_startTag hname hattrs,
    .link scheme fun c hc => by rw [List.mem_singleton.1 hc]; exact h⟩

/-- A literal of the source that holds these tags, an end tag where the mark is set. -/
theorem woven_tags {l : List (Bool × JsString)} {text : JsString}
    (htext : text = l.flatMap fun t => (if t.1 then ascii "</" else ascii "<") ++ t.2 ++ ascii ">")
    (hl : ∀ t ∈ l, t.2 ∈ tagNames ∧ t.2 ≠ ascii "hr") : OutputWoven text := by
  subst htext
  induction l with
  | nil => exact .nil
  | cons t l ih =>
    obtain ⟨hname, hr⟩ := hl t (List.mem_cons_self ..)
    rw [List.flatMap_cons]
    refine .tag ?_ (ih fun u hu => hl u (List.mem_cons_of_mem _ hu))
    split_ifs
    · exact written_end hname hr
    · exact written_start hname

theorem written_inlineTags : ∀ t ∈ inlineTags, Written t := by
  have hshape : ∀ t ∈ inlineTags, ∃ name ∈ tagNames, name ≠ ascii "hr" ∧
      (t = ascii "<" ++ name ++ ascii ">" ∨ t = ascii "</" ++ name ++ ascii ">") := by decide
  intro t ht
  obtain ⟨name, hname, hr, rfl | rfl⟩ := hshape t ht
  · exact written_start hname
  · exact written_end hname hr

/-- Links are made in a line that has tags in it. -/
theorem outputWoven_link {s : JsString} (h : InlineWoven s) : OutputWoven (replaceAll linkPattern linkText s) := by
  refine replaceAll_keeps (P := InlineWoven) (Q := OutputWoven) linkPattern linkText
    (fun _ => Woven.mono written_inlineTags) (fun _ _ => Woven.append) (fun a w b g hw ha => ?_) h
  obtain ⟨hshape, hscheme⟩ := word_linkPattern hw
  simp only [hshape, List.cons_append, List.append_assoc] at ha
  obtain ⟨hbefore, hrest⟩ := InlineWoven.split ha (by decide)
  obtain ⟨htext, hrest⟩ := InlineWoven.split hrest (by decide)
  obtain ⟨-, hrest⟩ := InlineWoven.split (a := []) hrest (by decide)
  obtain ⟨hurl, hbehind⟩ := InlineWoven.split hrest (by decide)
  refine ⟨hbefore, hbehind, ?_⟩
  have hquote : (0x22 : UInt16) ∉ groupText g 2 := hurl.notMem (notMem_inlineTags (by decide))
  exact ((Woven.of_tag (written_link hscheme hquote)).append (htext.mono written_inlineTags)).append
    (Woven.of_tag written_linkEnd)

theorem outputWoven_esc (s : JsString) : OutputWoven (esc s) := Woven.of_plain (esc_plain s)

theorem outputWoven_inlineText (s : JsString) : OutputWoven (inlineText s) :=
  outputWoven_link (inlineWoven_em (inlineWoven_strong (inlineWoven_code (Woven.of_plain (esc_plain s)))))

/-! ## Blocks -/

theorem Woven.flatMap {α : Type} {T : JsString → Prop} {l : List α} {f : α → JsString}
    (h : ∀ a ∈ l, Woven T (f a)) : Woven T (l.flatMap f) := by
  induction l with
  | nil => exact .nil
  | cons a l ih =>
    rw [List.flatMap_cons]
    exact (h a (List.mem_cons_self ..)).append (ih fun b hb => h b (List.mem_cons_of_mem _ hb))

theorem outputWoven_table (lines : List JsString) : OutputWoven (table lines) := by
  have hcell (c : JsString) : OutputWoven (ascii "<td>" ++ inlineText c ++ ascii "</td>") :=
    ((woven_tags (l := [(false, ascii "td")]) (by decide) (by decide)).append (outputWoven_inlineText c)).append
      (woven_tags (l := [(true, ascii "td")]) (by decide) (by decide))
  have hhead (c : JsString) : OutputWoven (ascii "<th>" ++ inlineText c ++ ascii "</th>") :=
    ((woven_tags (l := [(false, ascii "th")]) (by decide) (by decide)).append (outputWoven_inlineText c)).append
      (woven_tags (l := [(true, ascii "th")]) (by decide) (by decide))
  have hrow (r : List JsString) : OutputWoven
      (ascii "<tr>" ++ (r.flatMap fun c => ascii "<td>" ++ inlineText c ++ ascii "</td>") ++ ascii "</tr>") :=
    ((woven_tags (l := [(false, ascii "tr")]) (by decide) (by decide)).append
      (Woven.flatMap fun c _ => hcell c)).append (woven_tags (l := [(true, ascii "tr")]) (by decide) (by decide))
  have hopen : OutputWoven (ascii "<table><thead><tr>") :=
    woven_tags (l := [(false, ascii "table"), (false, ascii "thead"), (false, ascii "tr")]) (by decide) (by decide)
  have hmiddle : OutputWoven (ascii "</tr></thead><tbody>") :=
    woven_tags (l := [(true, ascii "tr"), (true, ascii "thead"), (false, ascii "tbody")]) (by decide) (by decide)
  have hclose : OutputWoven (ascii "</tbody></table>") :=
    woven_tags (l := [(true, ascii "tbody"), (true, ascii "table")]) (by decide) (by decide)
  exact (((hopen.append (Woven.flatMap fun c _ => hhead c)).append hmiddle).append
    (Woven.flatMap fun r _ => hrow r)).append hclose

theorem listType_tag (t : ListType) : t.tag ∈ tagNames ∧ t.tag ≠ ascii "hr" := by
  cases t <;> decide

theorem outputWoven_closeList (list : Option ListType) : ∀ l ∈ closeList list, OutputWoven l := by
  intro l hl
  cases list with
  | none => cases hl
  | some t =>
    rw [List.mem_singleton.1 hl]
    exact Woven.of_tag (written_end (listType_tag t).1 (listType_tag t).2)

theorem outputWoven_listItem (list : Option ListType) (t : ListType) (text : JsString) :
    ∀ l ∈ listItem list t text, OutputWoven l := by
  intro l hl
  rcases List.mem_append.1 hl with hl | hl
  · split_ifs at hl
    · cases hl
    · rcases List.mem_append.1 hl with hl | hl
      · exact outputWoven_closeList list l hl
      · rw [List.mem_singleton.1 hl]
        exact Woven.of_tag (written_start (listType_tag t).1)
  · rw [List.mem_singleton.1 hl]
    exact ((woven_tags (l := [(false, ascii "li")]) (by decide) (by decide)).append
      (outputWoven_inlineText text)).append (woven_tags (l := [(true, ascii "li")]) (by decide) (by decide))

/-- The name of a heading. -/
theorem heading_name {w : JsString} {g : List (Nat × JsString)} (h : Word headingPattern w g) :
    ascii "h" ++ ascii (itoa (groupText g 1).length) ∈ tagNames ∧
      ascii "h" ++ ascii (itoa (groupText g 1).length) ≠ ascii "hr" := by
  obtain ⟨marks, w₁, k, l, hgroup, h₁, rfl, rfl⟩ := word_seqs_cons (word_assert_cons h)
  obtain ⟨k', hmarks, rfl⟩ := word_group.1 hgroup
  obtain ⟨spaces, w₂, k₂, l₂, hspaces, h₂, rfl, rfl⟩ := word_seqs_cons h₁
  obtain ⟨-, -, rfl⟩ := word_plus_unit hspaces
  obtain ⟨text, w₃, k₃, l₃, htext, h₃, rfl, rfl⟩ := word_seqs_cons h₂
  obtain ⟨k₄, hdots, rfl⟩ := word_group.1 htext
  obtain ⟨-, rfl⟩ := word_star_unit hdots
  obtain ⟨rfl, rfl⟩ := word_seqs_nil (word_assert_cons h₃)
  have hmarksText : groupText ([] ++ [(2, text)] ++ [] ++ (1, marks) :: k') 1 = marks := rfl
  rw [hmarksText]
  obtain ⟨hlo, hhi⟩ := word_between_unit hmarks
  have hlevels : ∀ n : Nat, n < 5 → 1 ≤ n → ascii "h" ++ ascii (itoa n) ∈ tagNames ∧ ascii "h" ++ ascii (itoa n) ≠ ascii "hr" := by
    decide
  exact hlevels marks.length (by omega) hlo

theorem outputWoven_heading {w : JsString} {g : List (Nat × JsString)} (h : Word headingPattern w g) :
    OutputWoven (ascii "<h" ++ ascii (itoa (groupText g 1).length) ++ ascii ">" ++ inlineText (groupText g 2) ++
      ascii "</h" ++ ascii (itoa (groupText g 1).length) ++ ascii ">") := by
  obtain ⟨hname, hr⟩ := heading_name h
  have hopen : ascii "<h" = ascii "<" ++ ascii "h" := by decide
  have hclose : ascii "</h" = ascii "</" ++ ascii "h" := by decide
  have hwoven := ((Woven.of_tag (written_start hname)).append (outputWoven_inlineText (groupText g 2))).append
    (Woven.of_tag (written_end hname hr))
  rw [hopen, hclose]
  simpa only [List.append_assoc] using hwoven

/-- Every piece of the output is made of text and emitted tags. -/
theorem outputWoven_renderLines (fuel : Nat) (list : Option ListType) (lines : List JsString) :
    ∀ l ∈ renderLines fuel list lines, OutputWoven l := by
  induction fuel generalizing list lines with
  | zero => exact outputWoven_closeList list
  | succ fuel ih =>
    cases lines with
    | nil => exact outputWoven_closeList list
    | cons line rest =>
      have hblock (b : JsString) (hb : OutputWoven b) (lines : List JsString) :
          ∀ l ∈ closeList list ++ b :: renderLines fuel none lines, OutputWoven l := by
        intro l hl
        rcases List.mem_append.1 hl with hl | hl
        · exact outputWoven_closeList list l hl
        · rcases List.mem_cons.1 hl with rfl | hl
          · exact hb
          · exact ih none lines l hl
      have hitem (t : ListType) (text : JsString) :
          ∀ l ∈ listItem list t text ++ renderLines fuel (some t) rest, OutputWoven l := by
        intro l hl
        exact (List.mem_append.1 hl).elim (outputWoven_listItem list t text l) (ih (some t) rest l)
      unfold renderLines
      by_cases hfence : isFence line = true
      · rw [if_pos hfence]
        refine hblock _ ?_ _
        exact ((woven_tags (l := [(false, ascii "pre"), (false, ascii "code")]) (by decide) (by decide)).append
          (outputWoven_esc _)).append
          (woven_tags (l := [(true, ascii "code"), (true, ascii "pre")]) (by decide) (by decide))
      rw [if_neg hfence]
      cases htable : tableStart line rest with
      | some start => exact hblock _ (outputWoven_table _) _
      | none =>
        cases hheading : exec headingPattern line with
        | some m => exact hblock _ (outputWoven_heading (word_of_exec hheading)) _
        | none =>
          dsimp only
          by_cases hrule : test rulePattern line = true
          · rw [if_pos hrule]
            exact hblock _ (Woven.of_tag (written_start (by decide : ascii "hr" ∈ tagNames))) _
          rw [if_neg hrule]
          cases hbullet : exec bulletPattern line with
          | some m => exact hitem .ul _
          | none =>
            cases hnumber : exec numberPattern line with
            | some m => exact hitem .ol _
            | none =>
              dsimp only
              by_cases hblank : trim line = []
              · rw [if_pos hblank]
                intro l hl
                exact (List.mem_append.1 hl).elim (outputWoven_closeList list l) (ih none rest l)
              · rw [if_neg hblank]
                refine hblock _ ?_ _
                exact ((woven_tags (l := [(false, ascii "p")]) (by decide) (by decide)).append
                  (outputWoven_inlineText _)).append (woven_tags (l := [(true, ascii "p")]) (by decide) (by decide))

theorem Woven.join {T : JsString → Prop} {sep : JsString} (hsep : Woven T sep) {l : List JsString}
    (h : ∀ s ∈ l, Woven T s) : Woven T (join sep l) := by
  unfold Js.join
  induction l with
  | nil => exact .nil
  | cons s l ih =>
    cases l with
    | nil =>
      rw [List.intercalate_singleton]
      exact h s (List.mem_singleton_self _)
    | cons t l =>
      rw [List.intercalate_cons_cons]
      exact ((h s (List.mem_cons_self ..)).append hsep).append (ih fun u hu => h u (List.mem_cons_of_mem _ hu))

theorem IsEmitted.href {quotes : JsString} {t : Html.Tag} (h : IsEmitted quotes t) {value : JsString}
    (hvalue : (ascii "href", value) ∈ t.attrs) : ∀ c ∈ quotes, c ∉ value := by
  cases h with
  | start _ => cases hvalue
  | stop _ _ => cases hvalue
  | linkEnd => cases hvalue
  | link _ hquote =>
    unfold linkAttrs at hvalue
    simp only [List.mem_cons, List.not_mem_nil, or_false, Prod.mk.injEq] at hvalue
    rcases hvalue with ⟨-, rfl⟩ | ⟨hname, -⟩ | ⟨hname, -⟩
    · exact hquote
    · exact absurd hname (by decide)
    · exact absurd hname (by decide)

/-- What is made of text and emitted tags is read as these tags. -/
theorem OutputWoven.onlyEmitted {html : JsString} (h : OutputWoven html) : OnlyEmitted [0x22] html := by
  obtain ⟨l, hread, hl⟩ : ∃ l, Html.Reads html l ∧ ∀ t ∈ l, ∃ tag, t = .tag tag ∧ IsEmitted [0x22] tag := by
    induction h with
    | nil => exact ⟨[], Html.reads_nil, fun t ht => absurd ht List.not_mem_nil⟩
    | unit hopen _ _ ih =>
      obtain ⟨l, hread, hl⟩ := ih
      exact ⟨l, (Html.reads_unit hopen).append hread, hl⟩
    | tag ht _ ih =>
      obtain ⟨l, hread, hl⟩ := ih
      obtain ⟨tag, hreads, hemitted⟩ := ht
      exact ⟨.tag tag :: l, hreads.append hread, List.forall_mem_cons.2 ⟨⟨tag, rfl, hemitted⟩, hl⟩⟩
  refine ⟨fun t ht => ?_, ?_⟩
  · unfold Html.tokens at ht
    rw [hread] at ht
    exact hl t ht
  · rw [hread]

/-- The renderer emits its own tags only, and no address of a link has a double quote. -/
theorem renderMarkdown_onlyEmitted (src : JsString) : OnlyEmitted [0x22] (renderMarkdown src) :=
  OutputWoven.onlyEmitted (Woven.join (Woven.of_plain (forall_of_all (by decide))) (outputWoven_renderLines _ _ _))

/-- A single quote stays in the address: the value is written in double quotes. -/
theorem singleQuote_in_href :
    ¬ OnlyEmitted [0x22, 0x27] (renderMarkdown (ascii "[x](http://a'b)")) := by
  intro h
  have hlink : Html.Token.tag ⟨false, ascii "a", linkAttrs (ascii "http://a'b")⟩ ∈
      Html.tokens (renderMarkdown (ascii "[x](http://a'b)")) := by decide +kernel
  obtain ⟨tag, heq, hemitted⟩ := h.tokens _ hlink
  cases heq
  exact hemitted.href (List.mem_cons_self ..) 0x27 (by decide) (by decide)

end Gafam.Frontend
