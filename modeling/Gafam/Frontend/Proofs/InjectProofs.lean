import Gafam.Frontend.BrowserPage
import Mathlib.Data.List.Chain

/-!
# What is put into a page

`injectBaseHref` puts its text in the place of a `<base>` tag, behind a `<head>` tag or in front of the page. Two pages
with the same ASCII in them come out the same only if they are the same, or differ in the tag that is taken out.
-/

namespace Gafam.Frontend

open Gafam.Go Gafam.Js Gafam.Lib Gafam.Lib.Regex

/-! ## Openers -/

theorem foldCase_toNat (u : UInt16) :
    (foldCase u).toNat = if 0x41 ≤ u.toNat ∧ u.toNat ≤ 0x5A then u.toNat + 0x20 else u.toNat := by
  have hiff : (0x41 ≤ u ∧ u ≤ 0x5A) ↔ (0x41 ≤ u.toNat ∧ u.toNat ≤ 0x5A) := Iff.rfl
  unfold foldCase
  by_cases h : 0x41 ≤ u ∧ u ≤ 0x5A
  · rw [if_pos h, if_pos (hiff.1 h), UInt16.toNat_add]
    have := (hiff.1 h).2
    exact Nat.mod_eq_of_lt (by
      have : (0x20 : UInt16).toNat = 0x20 := rfl
      omega)
  · rw [if_neg h, if_neg fun h' => h (hiff.2 h')]

/-- A character that is no letter has one case. -/
theorem foldCase_eq {u c : UInt16} (hc : ¬(0x61 ≤ c.toNat ∧ c.toNat ≤ 0x7A)) (h : foldCase u = c) : u = c := by
  have hnat := congrArg UInt16.toNat h
  rw [foldCase_toNat] at hnat
  apply UInt16.toNat_inj.1
  split_ifs at hnat <;> omega

def isAsciiUnit (u : UInt16) : Bool := u < 0x80

theorem isAsciiUnit_iff {u : UInt16} : isAsciiUnit u = true ↔ u.toNat < 0x80 := decide_eq_true_iff

theorem isAsciiUnit_fold (u : UInt16) : isAsciiUnit (foldCase u) = isAsciiUnit u := by
  rw [Bool.eq_iff_iff, isAsciiUnit_iff, isAsciiUnit_iff, foldCase_toNat]
  split_ifs <;> omega

theorem foldCase_wide {u : UInt16} (h : isAsciiUnit u = false) : foldCase u = u := by
  have hwide : ¬ u.toNat < 0x80 := fun hlt => by rw [isAsciiUnit_iff.2 hlt] at h; cases h
  apply UInt16.toNat_inj.1
  rw [foldCase_toNat, if_neg (by omega)]

/-- White space has no case. -/
theorem isTrimSpace_fold {u v : UInt16} (h : foldCase u = foldCase v) (hu : isTrimSpace u = true) :
    isTrimSpace v = true := by
  have hletter {u : UInt16} (hu : isTrimSpace u = true) :
      ¬(0x41 ≤ u.toNat ∧ u.toNat ≤ 0x5A) ∧ ¬(0x61 ≤ u.toNat ∧ u.toNat ≤ 0x7A) := by
    unfold isTrimSpace at hu
    simp only [Bool.or_eq_true, Bool.and_eq_true, decide_eq_true_eq, beq_iff_eq] at hu
    omega
  have hself : foldCase u = u := by
    apply UInt16.toNat_inj.1
    rw [foldCase_toNat, if_neg (hletter hu).1]
  rw [hself] at h
  rwa [foldCase_eq (hletter hu).2 h.symm]

theorem opens_baseOpener : Opens 0x3C baseOpener :=
  opens_cons (fun a ha => foldCase_eq (by decide) (of_decide_eq_true ha)) (forall_of_all (by decide))

theorem opens_headOpener : Opens 0x3C headOpener :=
  opens_cons (fun a ha => foldCase_eq (by decide) (of_decide_eq_true ha)) (forall_of_all (by decide))

theorem baseOpener_closed : ∀ c ∈ baseOpener, c 0x3E = false := forall_of_all (by decide)

theorem reads_letters {word : GoString} {u : JsString} : Reads (letters word) u ↔ u.map foldCase = ascii word := by
  unfold letters Reads
  generalize ascii word = w
  simp only [List.forall₂_map_left_iff, decide_eq_true_eq]
  induction w generalizing u with
  | nil => simp
  | cons c w ih =>
    cases u with
    | nil => simp
    | cons a u => rw [List.forall₂_cons, List.map_cons, List.cons.injEq, ih]

theorem reads_baseOpener {u : JsString} :
    Reads baseOpener u ↔ ∃ w x, u = w ++ [x] ∧ w.map foldCase = ascii "<base" ∧ isTrimSpace x = true := by
  constructor
  · intro hu
    have hw : Reads (letters "<base") (u.take 5) := (List.forall₂_take_append _ _ _ hu.flip).flip
    have hr : Reads [isTrimSpace] (u.drop 5) := (List.forall₂_drop_append _ _ _ hu.flip).flip
    generalize hdrop : u.drop 5 = r at hr
    cases hr with
    | @cons _ x _ r hx hr =>
      cases hr
      exact ⟨u.take 5, x, by rw [← hdrop, List.take_append_drop], reads_letters.1 hw, hx⟩
  · rintro ⟨w, x, rfl, hw, hx⟩
    exact List.rel_append (reads_letters.2 hw) (.cons hx .nil)

/-- Openers are found in any case. -/
theorem reads_baseOpener_fold (u v : JsString) (h : u.map foldCase = v.map foldCase) (hu : Reads baseOpener u) :
    Reads baseOpener v := by
  obtain ⟨w, x, rfl, hw, hx⟩ := reads_baseOpener.1 hu
  rw [List.map_append, List.map_singleton] at h
  obtain ⟨w', r, rfl, hw', hr⟩ := List.map_eq_append_iff.1 h.symm
  obtain ⟨y, t, rfl, hy, ht⟩ := List.map_eq_cons_iff.1 hr
  obtain rfl := List.map_eq_nil_iff.1 ht
  exact reads_baseOpener.2 ⟨w', y, rfl, hw'.trans hw, isTrimSpace_fold hy.symm hx⟩

/-! ## Replacements -/

/-- A text without dollar signs stands for itself. -/
theorem replaceItems_plain (n : Nat) {s : JsString} (hs : 0x24 ∉ s) (t : JsString) :
    replaceItems n .none (s ++ t) = s.map .unit ++ replaceItems n .none t := by
  induction s with
  | nil => rfl
  | cons u s ih =>
    rw [List.mem_cons, not_or] at hs
    rw [List.cons_append, replaceItems, if_neg (Ne.symm hs.1), ih hs.2]
    rfl

/-- A replacement is read to its end before a quote and what has no dollar sign. -/
theorem replaceItems_quote (n : Nat) (d : Dollar) (s : JsString) {t : JsString} (ht : 0x24 ∉ t) :
    replaceItems n d (s ++ 0x22 :: t) = replaceItems n d s ++ (0x22 :: t).map .unit := by
  have hplain : replaceItems n .none t = t.map .unit := by
    have h := replaceItems_plain n ht []
    rwa [List.append_nil, replaceItems, List.append_nil] at h
  induction s generalizing d with
  | nil =>
    cases d with
    | none => exact congrArg (.unit 0x22 :: ·) hplain
    | sign => exact congrArg (.unit 0x24 :: .unit 0x22 :: ·) hplain
    | digit d =>
      have hdigit : ¬(Js.isDigit 0x22 = true ∧ 1 ≤ digitsValue [d, 0x22] ∧ digitsValue [d, 0x22] ≤ n) :=
        fun h => Bool.false_ne_true h.1
      rw [List.nil_append, replaceItems, replaceItems, if_neg hdigit, if_neg (by decide), hplain]
      rfl
  | cons u s ih =>
    cases d with
    | none =>
      simp only [List.cons_append, replaceItems]
      split_ifs
      · exact ih _
      · rw [ih, List.cons_append]
    | sign =>
      simp only [List.cons_append, replaceItems]
      split_ifs <;> simp only [ih, List.cons_append]
    | digit d =>
      simp only [List.cons_append, replaceItems]
      split_ifs <;> simp only [ih, List.cons_append, List.append_assoc]

theorem text_units (m : Found UInt16) (s : JsString) : (s.map ReplaceItem.unit).flatMap (ReplaceItem.text m) = s := by
  rw [List.flatMap_map]
  exact List.flatMap_singleton' s

/-- What stands in front of the address, and behind it. -/
def opening : JsString := ascii "<base href=\""

def closing : JsString := ascii "\">" ++ fixScript

/-- What is read off the closing text, in one evaluation of it. -/
theorem closing_facts : 0x24 ∉ (0x3E : UInt16) :: fixScript ∧ closing.all isAsciiUnit = true ∧ 2 ≤ closing.count 0x3E ∧
    closing.IsChain fun a b => a = 0x3C → b = 0x73 ∨ b = 0x2F := by
  decide +kernel

theorem closing_plain : 0x24 ∉ (0x3E : UInt16) :: fixScript := closing_facts.1

theorem closing_ascii : closing.filter isAsciiUnit = closing :=
  List.filter_eq_self.2 (List.all_eq_true.1 closing_facts.2.1)

theorem closing_count : 2 ≤ closing.count 0x3E := closing_facts.2.2.1

/-- The tags of the closing text are those of its script. -/
theorem closing_tags : closing.IsChain fun a b => a = 0x3C → b = 0x73 ∨ b = 0x2F := closing_facts.2.2.2

theorem injection_eq (baseHref : JsString) : injection baseHref = opening ++ (baseHref ++ closing) := rfl

/-- The replacement of a `<base>` tag. -/
theorem substitute_injection (n : Nat) (m : Found UInt16) (baseHref : JsString) :
    substitute n m (injection baseHref) = opening ++ (substitute n m baseHref ++ closing) := by
  have hopening : 0x24 ∉ opening := by decide
  have hclosing : closing = 0x22 :: (0x3E :: fixScript) := rfl
  have hfix : 0x24 ∉ (0x3E : UInt16) :: fixScript := closing_plain
  unfold substitute
  rw [injection_eq, replaceItems_plain n hopening, hclosing, replaceItems_quote n .none baseHref hfix]
  rw [List.flatMap_append, List.flatMap_append, text_units, text_units]

/-- The replacement of a `<head>` tag. -/
theorem substitute_head (m : Found UInt16) (baseHref : JsString) :
    substitute 1 m (ascii "<head$1>" ++ injection baseHref) =
      ascii "<head" ++ (groupText m.groups 1 ++ (0x3E :: (opening ++ (substitute 1 m baseHref ++ closing)))) := by
  rw [← substitute_injection]
  have hitems : replaceItems 1 .none (ascii "<head$1>" ++ injection baseHref) =
      (ascii "<head").map .unit ++ (.group 1 :: .unit 0x3E :: replaceItems 1 .none (injection baseHref)) := rfl
  unfold substitute
  rw [hitems, List.flatMap_append, text_units]
  rfl

/-! ## What comes out -/

theorem opening_eq : opening = ascii "<base " ++ ascii "href=\"" := rfl

theorem reads_opening : Reads baseOpener (ascii "<base ") :=
  reads_baseOpener.2 ⟨ascii "<base", 0x20, rfl, rfl, rfl⟩

/-- A page comes out with `d` taken out in front of `q` and the injection put in, with `x` for the address. A tag name in
front of it may come out in lower case. -/
structure Injected (baseHref html p d q x : JsString) : Prop where
  result : injectBaseHref html baseHref = p ++ (opening ++ (x ++ (closing ++ q)))
  free : Free baseOpener p
  source : ∃ p', html = p' ++ (d ++ q) ∧ p'.map foldCase = p.map foldCase ∧
    (d ≠ [] → p' = p ∧ x = substitute 0 ⟨p, d, q, []⟩ baseHref)
  removed : d = [] ∨ IsTag baseOpener 0x3E d

/-- A `<base>` tag is taken out. -/
theorem inject_tag {p d q : JsString} (baseHref : JsString) (hp : Free baseOpener p) (hd : IsTag baseOpener 0x3E d) :
    injectBaseHref (p ++ (d ++ q)) baseHref =
      p ++ (opening ++ (substitute 0 ⟨p, d, q, []⟩ baseHref ++ (closing ++ q))) := by
  obtain ⟨u, v, rfl, hu, hv⟩ := hd
  have hopens : ((units baseOpener).find (p ++ (u ++ (v ++ [0x3E]) ++ q))).isSome = true := by
    rw [Option.isSome_iff_ne_none, Ne, find_units_eq_none]
    exact fun h => h p ⟨u, v ++ [0x3E] ++ q, by simp, hu⟩
  have hfind : (tag baseOpener 0x3E none).find (p ++ (u ++ (v ++ [0x3E]) ++ q)) =
      some ⟨p, u ++ (v ++ [0x3E]), q, []⟩ :=
    (find_tag_eq_some opens_baseOpener).2 ⟨u, v, by simp, hp, hu, hv, rfl, rfl⟩
  rw [injectBaseHref, if_pos hopens, replace, hfind]
  dsimp only
  rw [substitute_injection]
  simp only [List.append_assoc]

/-- Behind a `<head>` tag. -/
theorem inject_head {p u v q : JsString} (baseHref : JsString) (hp : Free headOpener p) (hu : Reads headOpener u)
    (hv : 0x3E ∉ v) (hfree : Free baseOpener (p ++ (u ++ (v ++ 0x3E :: q)))) :
    ∃ x, Injected baseHref (p ++ (u ++ (v ++ 0x3E :: q))) (p ++ (ascii "<head" ++ (v ++ [0x3E]))) [] q x := by
  have hfold : (p ++ (u ++ (v ++ [0x3E]))).map foldCase = (p ++ (ascii "<head" ++ (v ++ [0x3E]))).map foldCase := by
    have hhead : (ascii "<head").map foldCase = ascii "<head" := rfl
    simp only [List.map_append, reads_letters.1 hu, hhead]
  have hsplit : p ++ (u ++ (v ++ 0x3E :: q)) = (p ++ (u ++ (v ++ [0x3E]))) ++ q := by simp
  have hnone : ¬((units baseOpener).find (p ++ (u ++ (v ++ 0x3E :: q)))).isSome = true := by
    rw [find_units_eq_none.2 hfree]
    exact Bool.false_ne_true
  have hfind (n : Option Nat) : (tag headOpener 0x3E n).find (p ++ (u ++ (v ++ 0x3E :: q))) =
      some ⟨p, u ++ (v ++ [0x3E]), q, captured n v⟩ :=
    (find_tag_eq_some opens_headOpener).2 ⟨u, v, rfl, hp, hu, hv, rfl, rfl⟩
  have hsome : ((tag headOpener 0x3E none).find (p ++ (u ++ (v ++ 0x3E :: q)))).isSome = true := by
    rw [hfind]
    rfl
  refine ⟨substitute 1 ⟨p, u ++ (v ++ [0x3E]), q, captured (some 1) v⟩ baseHref, ?_, ?_, ?_, .inl rfl⟩
  · rw [injectBaseHref, if_neg hnone, if_pos hsome, replace, hfind]
    dsimp only
    rw [substitute_head]
    simp [captured, groupText]
  · refine Free.of_map_eq reads_baseOpener_fold hfold.symm (Free.of_append (t := q) ?_)
    rwa [← hsplit]
  · exact ⟨p ++ (u ++ (v ++ [0x3E])), by rw [hsplit, List.nil_append], hfold, fun h => absurd rfl h⟩

/-- In front of a page with neither tag. -/
theorem inject_front {html : JsString} (baseHref : JsString) (hfree : Free baseOpener html)
    (hhead : (tag headOpener 0x3E none).find html = none) : Injected baseHref html [] [] html baseHref := by
  have hnone : ¬((units baseOpener).find html).isSome = true := by
    rw [find_units_eq_none.2 hfree]
    exact Bool.false_ne_true
  have hnohead : ¬((tag headOpener 0x3E none).find html).isSome = true := by
    rw [hhead]
    exact Bool.false_ne_true
  refine ⟨?_, ?_, ⟨[], rfl, rfl, fun h => absurd rfl h⟩, .inl rfl⟩
  · rw [injectBaseHref, if_neg hnone, if_neg hnohead, injection_eq]
    simp only [List.append_assoc, List.nil_append]
  · rintro a ⟨u, b, h, hu⟩
    obtain ⟨-, h⟩ := List.append_eq_nil_iff.1 h.symm
    obtain ⟨rfl, -⟩ := List.append_eq_nil_iff.1 h
    cases hu

/-- A page whose first `<base` is not closed comes out as it is. -/
structure Unclosed (baseHref html p u b : JsString) : Prop where
  result : injectBaseHref html baseHref = html
  source : html = p ++ (u ++ b)
  free : Free baseOpener p
  reads : Reads baseOpener u
  unclosed : 0x3E ∉ b

theorem injected_or_unclosed (baseHref html : JsString) :
    (∃ p d q x, Injected baseHref html p d q x) ∨ ∃ p u b, Unclosed baseHref html p u b := by
  rcases free_or_first opens_baseOpener html with hfree | ⟨p, u, b, rfl, hu, hp⟩
  · refine .inl ?_
    cases hfind : (tag headOpener 0x3E none).find html with
    | none => exact ⟨[], [], html, baseHref, inject_front baseHref hfree hfind⟩
    | some m =>
      obtain ⟨u, v, rfl, hp, hu, hv, -, -⟩ := (find_tag_eq_some opens_headOpener).1 hfind
      obtain ⟨x, hx⟩ := inject_head baseHref hp hu hv hfree
      exact ⟨_, _, _, _, hx⟩
  · by_cases hclose : 0x3E ∈ b
    · obtain ⟨v, q, rfl, hv⟩ := List.eq_append_cons_of_mem hclose
      have htag : IsTag baseOpener 0x3E (u ++ (v ++ [0x3E])) := ⟨u, v, rfl, hu, hv⟩
      have hsplit : p ++ (u ++ (v ++ 0x3E :: q)) = p ++ ((u ++ (v ++ [0x3E])) ++ q) := by simp
      refine .inl ⟨p, u ++ (v ++ [0x3E]), q, _, ?_, hp, ⟨p, hsplit, rfl, fun _ => ⟨rfl, rfl⟩⟩, .inr htag⟩
      rw [hsplit]
      exact inject_tag baseHref hp htag
    · refine .inr ⟨p, u, b, ?_, rfl, hp, hu, hclose⟩
      have hopens : ((units baseOpener).find (p ++ (u ++ b))).isSome = true := by
        rw [Option.isSome_iff_ne_none, Ne, find_units_eq_none]
        exact fun h => h p ⟨u, b, rfl, hu⟩
      have hfind : (tag baseOpener 0x3E none).find (p ++ (u ++ b)) = none := by
        cases hfind : (tag baseOpener 0x3E none).find (p ++ (u ++ b)) with
        | none => rfl
        | some m =>
          obtain ⟨u', v, heq, hp', hu', -, -, -⟩ := (find_tag_eq_some opens_baseOpener).1 hfind
          obtain ⟨-, -, rfl⟩ := first_unique opens_baseOpener hp hp' hu hu' heq
          exact absurd (List.mem_append_right _ (List.mem_cons_self ..)) hclose
      rw [injectBaseHref, if_pos hopens, replace, hfind]

/-! ## Two pages with the same ASCII -/

section
variable {baseHref a b p q d x p' q' d' x' : JsString}

theorem opening_append (s : JsString) : opening ++ s = ascii "<base " ++ (ascii "href=\"" ++ s) := by
  rw [opening_eq, List.append_assoc]

/-- The closing text behind the address is followed by what is behind a tag taken out. So the text behind a tag is not
the whole of what another page has there. -/
theorem tag_not_missing (hd : IsTag baseOpener 0x3E d)
    (hasc : d.filter isAsciiUnit ++ q.filter isAsciiUnit = q'.filter isAsciiUnit)
    (h : x ++ (closing ++ q) = x' ++ (closing ++ q')) : False := by
  have hclosing : closing.filter isAsciiUnit = closing := closing_ascii
  have hsplit : x ++ (closing ++ q) = (x' ++ closing) ++ q' := by rw [h, List.append_assoc]
  rcases List.append_eq_append_iff.1 hsplit with ⟨w, -, hw⟩ | ⟨w, -, hw⟩
  · -- the closing text would end with the tag
    have hmarks := congrArg (List.filter isAsciiUnit) hw
    rw [List.filter_append, List.filter_append, hclosing, ← hasc, ← List.append_assoc] at hmarks
    have hend := List.append_cancel_right hmarks
    obtain ⟨u, v, rfl, hu, -⟩ := hd
    obtain ⟨t, y, rfl, ht, -⟩ := reads_baseOpener.1 hu
    obtain ⟨lt, t, rfl, hlt, ht'⟩ := List.map_eq_cons_iff.1 ht
    obtain ⟨c, t, rfl, hc, -⟩ := List.map_eq_cons_iff.1 ht'
    have hopen : lt = 0x3C := foldCase_eq (by decide) hlt
    have hletter : foldCase c = 0x62 := hc
    subst hopen
    have hwide : isAsciiUnit c = true := by
      rw [← isAsciiUnit_fold, hletter]
      rfl
    have hfilter : (0x3C :: c :: t ++ [y] ++ (v ++ [0x3E])).filter isAsciiUnit =
        0x3C :: c :: (t ++ [y] ++ (v ++ [0x3E])).filter isAsciiUnit := by
      rw [List.cons_append, List.cons_append, List.cons_append, List.cons_append,
        List.filter_cons_of_pos (by rfl), List.filter_cons_of_pos hwide]
    rw [hfilter] at hend
    have hchain := closing_tags
    rw [hend, List.isChain_append_cons_cons] at hchain
    rcases hchain.2.1 rfl with rfl | rfl
    · exact absurd hletter (by decide)
    · exact absurd hletter (by decide)
  · -- the tag would end with the closing text
    have hmarks := congrArg (List.filter isAsciiUnit) hw
    rw [List.filter_append, List.filter_append, hclosing, ← hasc, ← List.append_assoc] at hmarks
    have hend := congrArg (List.count 0x3E) (List.append_cancel_right hmarks)
    obtain ⟨m, rfl, hm⟩ := hd.closed baseOpener_closed
    have hle := (List.filter_sublist (p := isAsciiUnit) (l := m ++ [0x3E])).count_le 0x3E
    have hone : (m ++ [0x3E]).count 0x3E = 1 := by rw [List.count_append, List.count_eq_zero_of_not_mem hm]; rfl
    have htwo := closing_count
    rw [List.count_append] at hend
    omega

theorem Injected.ascii_eq (h : Injected baseHref a p d q x) (h' : Injected baseHref b p d' q' x')
    (hasc : a.filter isAsciiUnit = b.filter isAsciiUnit) : (d ++ q).filter isAsciiUnit = (d' ++ q').filter isAsciiUnit := by
  obtain ⟨r, rfl, hr, -⟩ := h.source
  obtain ⟨r', rfl, hr', -⟩ := h'.source
  have hlen {r : JsString} (hr : r.map foldCase = p.map foldCase) :
      (r.filter isAsciiUnit).length = (p.filter isAsciiUnit).length := by
    have hcount := congrArg (List.countP isAsciiUnit) hr
    have hkeep : isAsciiUnit ∘ foldCase = isAsciiUnit := funext isAsciiUnit_fold
    rw [List.countP_map, List.countP_map, hkeep] at hcount
    rwa [← List.countP_eq_length_filter, ← List.countP_eq_length_filter]
  rw [List.filter_append r, List.filter_append r'] at hasc
  exact (List.append_inj hasc ((hlen hr).trans (hlen hr').symm)).2

/-- The same page comes out with nothing taken out of either. -/
theorem Injected.eq_of_nothing (h : Injected baseHref a p [] q x) (h' : Injected baseHref b p [] q x')
    (hasc : a.filter isAsciiUnit = b.filter isAsciiUnit) : a = b := by
  obtain ⟨r, rfl, hr, -⟩ := h.source
  obtain ⟨r', rfl, hr', -⟩ := h'.source
  refine eq_of_map_eq isAsciiUnit_fold (fun _ => foldCase_wide) ?_ hasc
  simp only [List.map_append, hr, hr']

/-- A page with an injection and one that has a `<base` left open come out differently. -/
theorem Injected.ne_unclosed (h : Injected baseHref a p d q x) {u : JsString} (h' : Unclosed baseHref b p' u q')
    (heq : injectBaseHref a baseHref = injectBaseHref b baseHref) : False := by
  rw [h.result, h'.result, h'.source, opening_append] at heq
  obtain ⟨-, -, hrest⟩ := first_unique opens_baseOpener h.free h'.free reads_opening h'.reads heq
  refine h'.unclosed (hrest ▸ ?_)
  exact List.mem_append_right _ (List.mem_append_right _ (List.mem_append_left _ (by decide)))

end

/-- Two pages with the same ASCII that come out the same are the same, or differ in the tag that is taken out. -/
theorem eq_of_inject_eq {baseHref a b : JsString} (hasc : a.filter isAsciiUnit = b.filter isAsciiUnit)
    (h : injectBaseHref a baseHref = injectBaseHref b baseHref) :
    a = b ∨ ∃ p d d' q, a = p ++ (d ++ q) ∧ b = p ++ (d' ++ q) ∧ Free baseOpener p ∧ IsTag baseOpener 0x3E d ∧
      IsTag baseOpener 0x3E d' ∧
      substitute 0 ⟨p, d, q, []⟩ baseHref = substitute 0 ⟨p, d', q, []⟩ baseHref := by
  rcases injected_or_unclosed baseHref a with ⟨p, d, q, x, ha⟩ | ⟨p, u, r, ha⟩
  · rcases injected_or_unclosed baseHref b with ⟨p', d', q', x', hb⟩ | ⟨p', u', r', hb⟩
    · have hout := h
      rw [ha.result, hb.result, opening_append, opening_append] at hout
      obtain ⟨rfl, -, hrest⟩ := first_unique opens_baseOpener ha.free hb.free reads_opening reads_opening hout
      have hrest := List.append_cancel_left hrest
      have hmarks := ha.ascii_eq hb hasc
      rw [List.filter_append, List.filter_append] at hmarks
      have hcut (hcount : q.countP isAsciiUnit = q'.countP isAsciiUnit) : x = x' ∧ q = q' := by
        have hcut := suffix_unique (x := 0x22) (y := 0x22) (s := 0x3E :: (fixScript ++ q))
          (t := 0x3E :: (fixScript ++ q')) rfl rfl hrest (by
            rw [← List.cons_append, ← List.cons_append, List.countP_append, List.countP_append, hcount])
        have hsame : closing ++ q = closing ++ q' := hcut.2
        exact ⟨hcut.1, List.append_cancel_left hsame⟩
      rcases ha.removed with rfl | hd
      · rcases hb.removed with rfl | hd'
        · obtain ⟨rfl, rfl⟩ := hcut (by
            rw [List.countP_eq_length_filter, List.countP_eq_length_filter]
            exact congrArg List.length hmarks)
          exact .inl (ha.eq_of_nothing hb hasc)
        · exact (tag_not_missing hd' hmarks.symm hrest.symm).elim
      · rcases hb.removed with rfl | hd'
        · exact (tag_not_missing hd hmarks hrest).elim
        · obtain ⟨m, rfl, hm⟩ := hd.closed baseOpener_closed
          obtain ⟨m', rfl, hm'⟩ := hd'.closed baseOpener_closed
          have hnot {m : JsString} (hm : 0x3E ∉ m) : 0x3E ∉ m.filter isAsciiUnit := fun h => hm (List.mem_filter.1 h).1
          have hone : [(0x3E : UInt16)].filter isAsciiUnit = [0x3E] := rfl
          rw [List.filter_append, List.filter_append, hone, List.append_assoc, List.append_assoc] at hmarks
          obtain ⟨-, hbehind⟩ := append_close_inj (hnot hm) (hnot hm') hmarks
          obtain ⟨rfl, rfl⟩ := hcut (by
            rw [List.countP_eq_length_filter, List.countP_eq_length_filter]
            exact congrArg List.length hbehind)
          obtain ⟨r, rfl, -, hr⟩ := ha.source
          obtain ⟨r', rfl, -, hr'⟩ := hb.source
          obtain ⟨rfl, hx⟩ := hr (by simp)
          obtain ⟨rfl, hx'⟩ := hr' (by simp)
          exact .inr ⟨_, _, _, q, rfl, rfl, ha.free, hd, hd', hx.symm.trans hx'⟩
    · exact (ha.ne_unclosed hb h).elim
  · rcases injected_or_unclosed baseHref b with ⟨p', d', q', x', hb⟩ | ⟨p', u', r', hb⟩
    · exact (hb.ne_unclosed ha h.symm).elim
    · rw [ha.result, hb.result] at h
      exact .inl h

end Gafam.Frontend
