import Gafam.Lib.Regex
import Mathlib.Data.List.Basic

/-!
# Comparing expressions

An expression whose classes are narrowed to some of the units finds, among the ways to match, those that read
such units only. So it finds the same as the expression itself in every text where that one finds nothing else.

A repetition prefers the place that greedy rounds lead to. A search passes over the units in front of its first
match.
-/

namespace Gafam.Lib.Regex

variable {α : Type}

/-! ## What is read -/

/-- The units between two places. -/
def consumed (p q : Place α) : List α := p.rest.take (p.rest.length - q.rest.length)

theorem Leads.consumed {r : Regex α} {p q : Place α} {w : List α} {g : List (Nat × List α)} (h : Leads r p q w g) :
    Regex.consumed p q = w := by
  unfold Regex.consumed
  rw [h.rest, List.length_append, Nat.add_sub_cancel, List.take_left]

theorem consumed_self (p : Place α) : consumed p p = [] := by
  unfold consumed
  rw [Nat.sub_self, List.take_zero]

/-! ## Narrower classes -/

/-- The expression with every class narrowed to the units that have the property. -/
def restrict (q : α → Bool) : Regex α → Regex α
  | empty => empty
  | unit c => unit fun a => c a && q a
  | seq r s => seq (restrict q r) (restrict q s)
  | alt r s => alt (restrict q r) (restrict q s)
  | star r => star (restrict q r)
  | group n r => group n (restrict q r)
  | assert c => assert c

theorem flatMap_filter_eq {β γ : Type} {l : List β} {f f' : β → List γ} {P : β → Bool} {Q : γ → Bool}
    (h : ∀ t ∈ l, (f t).filter Q = if P t = true then f' t else []) :
    (l.filter P).flatMap f' = (l.flatMap f).filter Q := by
  induction l with
  | nil => rfl
  | cons t l ih =>
    have ht := h t (List.mem_cons_self ..)
    rw [List.flatMap_cons, List.filter_append, ht, List.filter_cons, ← ih fun u hu => h u (List.mem_cons_of_mem _ hu)]
    split_ifs <;> rfl

section
variable (q : α → Bool)

/-- The units between two places all have the property. -/
def reads (p t : Place α) : Bool := (consumed p t).all q

theorem reads_trans {r s : Regex α} {p t u : Place α} {v w : List α} {g k : List (Nat × List α)}
    (h : Leads r p t v g) (h' : Leads s t u w k) : reads q p u = (reads q p t && reads q t u) := by
  unfold reads
  rw [(leads_seq h h').consumed, h.consumed, h'.consumed, List.all_append]

/-- The second of two parts, after a first one. -/
theorem filter_reads {r s : Regex α} {p t : Place α} {l : List (Place α)} (ht : ∃ v g, Leads r p t v g)
    (hl : ∀ u ∈ l, ∃ w k, Leads s t u w k) :
    l.filter (reads q p) = if reads q p t = true then l.filter (reads q t) else [] := by
  obtain ⟨v, g, hv⟩ := ht
  have hread : ∀ u ∈ l, reads q p u = (reads q p t && reads q t u) := fun u hu =>
    (hl u hu).elim fun _ h => h.elim fun _ h => reads_trans q hv h
  rw [List.filter_congr hread]
  split_ifs with hread
  · rw [hread]
    rfl
  · rw [Bool.not_eq_true] at hread
    rw [hread]
    exact List.filter_false l

theorem rounds_restrict {r : Regex α} {f' : Place α → List (Place α)}
    (h : ∀ p, f' p = (r.run p).filter (reads q p)) (fuel : Nat) (p : Place α) :
    rounds f' fuel p = (rounds r.run fuel p).filter (reads q p) := by
  have hself (p : Place α) : reads q p p = true := by
    unfold reads
    rw [consumed_self]
    rfl
  induction fuel generalizing p with
  | zero => simp [rounds, hself]
  | succ fuel ih =>
    have hrest : ((f' p).filter fun t => t.rest.length < p.rest.length).flatMap (rounds f' fuel) =
        (((r.run p).filter fun t => t.rest.length < p.rest.length).flatMap (rounds r.run fuel)).filter (reads q p) := by
      rw [h p, List.filter_filter, List.filter_congr fun t _ => Bool.and_comm _ _, ← List.filter_filter]
      refine flatMap_filter_eq fun t ht => ?_
      rw [ih t]
      exact filter_reads q (leads_of_mem_run r p t (List.mem_filter.1 ht).1)
        fun u hu => leads_rounds (leads_of_mem_run r) fuel t u hu
    unfold rounds
    rw [hrest, List.filter_append]
    simp [hself]

/-- The narrowed expression keeps the matches that read such units only, in their order. -/
theorem run_restrict (r : Regex α) (p : Place α) : (restrict q r).run p = (r.run p).filter (reads q p) := by
  have hself (p : Place α) : reads q p p = true := by
    unfold reads
    rw [consumed_self]
    rfl
  induction r generalizing p with
  | empty => simp [restrict, run, hself]
  | unit c =>
    unfold restrict run
    cases hp : p.rest with
    | nil => rfl
    | cons a rest =>
      have hread : reads q p ⟨a :: p.before, rest, p.groups⟩ = q a := by
        unfold reads consumed
        rw [hp]
        simp
      dsimp only
      by_cases hc : c a = true
      · rw [if_pos hc, List.filter_singleton, hread]
        simp [hc]
      · rw [if_neg hc]
        simp [hc]
  | seq r s ihr ihs =>
    show ((restrict q r).run p).flatMap (restrict q s).run = _
    rw [ihr p]
    refine flatMap_filter_eq fun t ht => ?_
    rw [ihs t]
    exact filter_reads q (leads_of_mem_run r p t ht) fun u hu => leads_of_mem_run s t u hu
  | alt r s ihr ihs =>
    show (restrict q r).run p ++ (restrict q s).run p = _
    rw [ihr p, ihs p, ← List.filter_append]
    rfl
  | star r ih => exact rounds_restrict q ih _ p
  | group n r ih =>
    show ((restrict q r).run p).map _ = ((r.run p).map _).filter _
    rw [ih p, List.filter_map]
    rfl
  | assert c =>
    unfold restrict run
    split_ifs
    · simp [hself]
    · rfl

/-- Where an expression finds nothing but such units, the narrowed one finds the same. -/
theorem scan_restrict (r : Regex α) (fuel : Nat) (before rest : List α)
    (h : ∀ w g, .found w g ∈ scan r fuel before rest → w.all q = true) :
    scan (restrict q r) fuel before rest = scan r fuel before rest := by
  induction fuel generalizing before rest with
  | zero => rfl
  | succ fuel ih =>
    unfold scan at h ⊢
    rw [run_restrict]
    cases hrun : r.run ⟨before, rest, []⟩ with
    | nil =>
      rw [hrun] at h
      cases rest with
      | nil => rfl
      | cons a rest => exact congrArg (_ :: ·) (ih _ _ fun w g hw => h w g (List.mem_cons_of_mem _ hw))
    | cons t l =>
      rw [hrun] at h
      have hread : reads q ⟨before, rest, []⟩ t = true := by
        unfold reads
        cases rest with
        | nil =>
          unfold consumed
          rw [List.take_nil]
          rfl
        | cons a rest =>
          dsimp only [List.head?_cons] at h
          by_cases hlen : t.rest.length < (a :: rest).length
          · rw [if_pos hlen] at h
            exact h _ _ (List.mem_cons_self ..)
          · have hzero : (a :: rest).length - t.rest.length = 0 := by omega
            unfold consumed
            rw [hzero]
            rfl
      rw [List.filter_cons, if_pos hread]
      cases rest with
      | nil => rfl
      | cons a rest =>
        dsimp only [List.head?_cons] at h ⊢
        by_cases hlen : t.rest.length < (a :: rest).length
        · rw [if_pos hlen] at h ⊢
          rw [if_pos hlen]
          exact congrArg (_ :: ·) (ih _ _ fun w g hw => h w g (List.mem_cons_of_mem _ hw))
        · rw [if_neg hlen] at h ⊢
          rw [if_neg hlen]
          exact congrArg (fun l => _ :: _ :: l)
            (ih _ _ fun w g hw => h w g (List.mem_cons_of_mem _ (List.mem_cons_of_mem _ hw)))

theorem findAll_restrict {r : Regex α} {s : List α} (h : ∀ m ∈ findAll r s, m.1.all q = true) :
    findAll (restrict q r) s = findAll r s := by
  have hscan := scan_restrict q r (s.length + 1) [] s fun w g hw =>
    h (w, g) (List.mem_filterMap.2 ⟨.found w g, hw, rfl⟩)
  unfold findAll pieces
  rw [hscan]

end

/-! ## The preferred match -/

/-- The place that a repetition prefers: always one more round, by the preferred match. -/
def greedy (f : Place α → List (Place α)) : Nat → Place α → Place α
  | 0, p => p
  | fuel + 1, p =>
    match ((f p).filter fun q => q.rest.length < p.rest.length).head? with
    | some q => greedy f fuel q
    | none => p

theorem head?_rounds (f : Place α → List (Place α)) (fuel : Nat) (p : Place α) :
    (rounds f fuel p).head? = some (greedy f fuel p) := by
  induction fuel generalizing p with
  | zero => rfl
  | succ fuel ih =>
    unfold rounds greedy
    cases (f p).filter fun q => q.rest.length < p.rest.length with
    | nil => rfl
    | cons q l =>
      have hq := ih q
      rw [List.flatMap_cons, List.append_assoc, List.head?_append, hq]
      rfl

/-- One round of a greedy repetition. -/
theorem greedy_step {f : Place α → List (Place α)} {fuel : Nat} {p q : Place α} {l : List (Place α)} (h : f p = q :: l)
    (hlen : q.rest.length < p.rest.length) : greedy f (fuel + 1) p = greedy f fuel q := by
  conv_lhs => unfold greedy
  rw [h, List.filter_cons, if_pos (decide_eq_true hlen)]
  rfl

theorem greedy_stop {f : Place α → List (Place α)} {p : Place α} (h : f p = []) (fuel : Nat) : greedy f fuel p = p := by
  cases fuel with
  | zero => rfl
  | succ fuel =>
    unfold greedy
    rw [h]
    rfl

theorem head?_run_plus {r : Regex α} {p q : Place α} {l : List (Place α)} (h : r.run p = q :: l) :
    ((plus r).run p).head? = some (greedy r.run q.rest.length q) := by
  show ((r.run p).flatMap fun q => rounds r.run q.rest.length q).head? = _
  rw [h, List.flatMap_cons, List.head?_append, head?_rounds]
  rfl

/-- A unit where no match starts is passed over. -/
theorem scan_none {r : Regex α} {fuel : Nat} {before rest : List α} {a : α}
    (h : r.run ⟨before, a :: rest, []⟩ = []) :
    scan r (fuel + 1) before (a :: rest) = .plain a :: scan r fuel (a :: before) rest := by
  conv_lhs => unfold scan
  rw [h]
  rfl

/-- A match that reads something is found. -/
theorem scan_found {r : Regex α} {fuel : Nat} {before rest : List α} {q : Place α}
    (h : (r.run ⟨before, rest, []⟩).head? = some q) (hlen : q.rest.length < rest.length) :
    scan r (fuel + 1) before rest =
      .found (rest.take (rest.length - q.rest.length)) q.groups :: scan r fuel q.before q.rest := by
  conv_lhs => unfold scan
  rw [h]
  cases rest with
  | nil => exact absurd hlen (Nat.not_lt_zero _)
  | cons a rest => exact if_pos hlen

/-! ## What is found -/

theorem word_of_mem_findAll {r : Regex α} {s w : List α} {g : List (Nat × List α)} (h : (w, g) ∈ findAll r s) :
    Word r w g := by
  obtain ⟨x, hx, hfound⟩ := List.mem_filterMap.1 h
  cases x with
  | plain a => cases hfound
  | found w' g' =>
    cases hfound
    exact word_of_mem_pieces hx

/-- What is found is a part of the text. -/
theorem mem_of_mem_findAll {r : Regex α} {s w : List α} {g : List (Nat × List α)} (h : (w, g) ∈ findAll r s) {a : α}
    (ha : a ∈ w) : a ∈ s := by
  obtain ⟨x, hx, hfound⟩ := List.mem_filterMap.1 h
  cases x with
  | plain a => cases hfound
  | found w' g' =>
    cases hfound
    rw [← text_pieces r s]
    exact List.mem_flatMap.2 ⟨_, hx, ha⟩

/-- Nothing is found in a text without the units that every match has. -/
theorem findAll_eq_nil {r : Regex α} {s : List α} {c : α → Bool} (hr : ∀ w g, Word r w g → ∃ a ∈ w, c a = true)
    (hs : ∀ a ∈ s, c a = false) : findAll r s = [] := by
  refine List.eq_nil_iff_forall_not_mem.2 fun ⟨w, g⟩ h => ?_
  obtain ⟨a, ha, hc⟩ := hr w g (word_of_mem_findAll h)
  rw [hs a (mem_of_mem_findAll h ha)] at hc
  cases hc

/-- Rounds that read units of a class only. -/
theorem word_plus_all {r : Regex α} {c : α → Bool} (hr : ∀ w g, Word r w g → ∀ a ∈ w, c a = true) {w : List α}
    {g : List (Nat × List α)} (h : Word (plus r) w g) : ∀ a ∈ w, c a = true := by
  have hstar (s : Regex α) (hs : s = .star r) (w : List α) (g : List (Nat × List α)) (h : Word s w g) :
      ∀ a ∈ w, c a = true := by
    induction h with
    | done => exact fun a ha => absurd ha List.not_mem_nil
    | round hu hv ihu ihv =>
      cases hs
      exact fun a ha => (List.mem_append.1 ha).elim (hr _ _ hu a) (ihv rfl a)
    | _ => cases hs
  obtain ⟨u, v, k, l, hu, hv, rfl, -⟩ := word_seq.1 h
  exact fun a ha => (List.mem_append.1 ha).elim (hr u k hu a) (hstar _ rfl v l hv a)

/-- A number of rounds, one after the other. -/
theorem word_between {r : Regex α} {m n : Nat} {w : List α} {g : List (Nat × List α)} (h : Word (between r m n) w g) :
    ∃ us : List (List α), w = us.flatten ∧ (m ≤ us.length ∧ us.length ≤ m + n) ∧ ∀ u ∈ us, ∃ k, Word r u k := by
  have htimes (m : Nat) (w : List α) (g : List (Nat × List α)) (h : Word (times r m) w g) :
      ∃ us : List (List α), w = us.flatten ∧ us.length = m ∧ ∀ u ∈ us, ∃ k, Word r u k := by
    induction m generalizing w g with
    | zero => exact ⟨[], (word_empty.1 h).1, rfl, fun u hu => absurd hu List.not_mem_nil⟩
    | succ m ih =>
      obtain ⟨u, v, k, l, hu, hv, rfl, -⟩ := word_seq.1 h
      obtain ⟨us, rfl, hlen, hall⟩ := ih v l hv
      exact ⟨u :: us, rfl, congrArg Nat.succ hlen, List.forall_mem_cons.2 ⟨⟨k, hu⟩, hall⟩⟩
  have hupTo (n : Nat) (w : List α) (g : List (Nat × List α)) (h : Word (upTo r n) w g) :
      ∃ us : List (List α), w = us.flatten ∧ us.length ≤ n ∧ ∀ u ∈ us, ∃ k, Word r u k := by
    induction n generalizing w g with
    | zero => exact ⟨[], (word_empty.1 h).1, Nat.le_refl _, fun u hu => absurd hu List.not_mem_nil⟩
    | succ n ih =>
      rcases word_alt.1 h with h | h
      · obtain ⟨u, v, k, l, hu, hv, rfl, -⟩ := word_seq.1 h
        obtain ⟨us, rfl, hlen, hall⟩ := ih v l hv
        exact ⟨u :: us, rfl, Nat.succ_le_succ hlen, List.forall_mem_cons.2 ⟨⟨k, hu⟩, hall⟩⟩
      · exact ⟨[], (word_empty.1 h).1, Nat.zero_le _, fun u hu => absurd hu List.not_mem_nil⟩
  obtain ⟨u, v, k, l, hu, hv, rfl, -⟩ := word_seq.1 h
  obtain ⟨us, rfl, hus, hallu⟩ := htimes m u k hu
  obtain ⟨vs, rfl, hvs, hallv⟩ := hupTo n v l hv
  refine ⟨us ++ vs, List.flatten_append.symm, ?_, fun x hx => (List.mem_append.1 hx).elim (hallu x) (hallv x)⟩
  rw [List.length_append]
  omega

/-! ## A number of units -/

/-- The place behind a first part of what stands behind another place. -/
def Place.after (p : Place α) (w rest : List α) (g : List (Nat × List α)) : Place α :=
  ⟨w.reverse ++ p.before, rest, g ++ p.groups⟩

theorem mem_run_unit {c : α → Bool} {p q : Place α} :
    q ∈ (unit c).run p ↔ ∃ a rest, p.rest = a :: rest ∧ c a = true ∧ q = Place.after p [a] rest [] := by
  unfold run Place.after
  cases hp : p.rest with
  | nil => simp
  | cons a rest =>
    by_cases hc : c a = true
    · simp [hc]
    · simp [hc]

theorem mem_run_times {c : α → Bool} {m : Nat} {p q : Place α} :
    q ∈ (times (.unit c) m).run p ↔
      ∃ w rest, p.rest = w ++ rest ∧ w.length = m ∧ (∀ a ∈ w, c a = true) ∧ q = Place.after p w rest [] := by
  induction m generalizing p with
  | zero =>
    constructor
    · intro h
      rw [List.mem_singleton.1 h]
      exact ⟨[], p.rest, rfl, rfl, fun a ha => absurd ha List.not_mem_nil, rfl⟩
    · rintro ⟨w, rest, hp, hlen, -, rfl⟩
      obtain rfl := List.length_eq_zero_iff.1 hlen
      rw [List.nil_append] at hp
      exact List.mem_singleton.2 (by rw [Place.after, ← hp]; rfl)
  | succ m ih =>
    constructor
    · intro h
      obtain ⟨t, ht, hq⟩ := List.mem_flatMap.1 h
      obtain ⟨a, rest, hp, ha, rfl⟩ := mem_run_unit.1 ht
      obtain ⟨w, rest', hrest, hlen, hall, rfl⟩ := ih.1 hq
      refine ⟨a :: w, rest', ?_, by rw [List.length_cons, hlen], List.forall_mem_cons.2 ⟨ha, hall⟩, ?_⟩
      · rw [hp]
        exact congrArg (a :: ·) hrest
      · simp [Place.after]
    · rintro ⟨w, rest, hp, hlen, hall, rfl⟩
      obtain ⟨a, w, rfl⟩ := List.exists_cons_of_length_eq_add_one hlen
      obtain ⟨ha, hall⟩ := List.forall_mem_cons.1 hall
      refine List.mem_flatMap.2 ⟨Place.after p [a] (w ++ rest) [], mem_run_unit.2 ⟨a, w ++ rest, hp, ha, rfl⟩, ?_⟩
      exact ih.2 ⟨w, rest, rfl, Nat.succ.inj hlen, hall, by simp [Place.after]⟩

theorem mem_run_upTo {c : α → Bool} {n : Nat} {p q : Place α} :
    q ∈ (upTo (.unit c) n).run p ↔
      ∃ w rest, p.rest = w ++ rest ∧ w.length ≤ n ∧ (∀ a ∈ w, c a = true) ∧ q = Place.after p w rest [] := by
  induction n generalizing p with
  | zero =>
    constructor
    · intro h
      rw [List.mem_singleton.1 h]
      exact ⟨[], p.rest, rfl, Nat.le_refl _, fun a ha => absurd ha List.not_mem_nil, rfl⟩
    · rintro ⟨w, rest, hp, hlen, -, rfl⟩
      obtain rfl := List.length_eq_zero_iff.1 (Nat.le_zero.1 hlen)
      rw [List.nil_append] at hp
      exact List.mem_singleton.2 (by rw [Place.after, ← hp]; rfl)
  | succ n ih =>
    constructor
    · intro h
      rcases List.mem_append.1 h with h | h
      · obtain ⟨t, ht, hq⟩ := List.mem_flatMap.1 h
        obtain ⟨a, rest, hp, ha, rfl⟩ := mem_run_unit.1 ht
        obtain ⟨w, rest', hrest, hlen, hall, rfl⟩ := ih.1 hq
        refine ⟨a :: w, rest', ?_, Nat.succ_le_succ hlen, List.forall_mem_cons.2 ⟨ha, hall⟩, ?_⟩
        · rw [hp]
          exact congrArg (a :: ·) hrest
        · simp [Place.after]
      · rw [List.mem_singleton.1 h]
        exact ⟨[], p.rest, rfl, Nat.zero_le _, fun a ha => absurd ha List.not_mem_nil, rfl⟩
    · rintro ⟨w, rest, hp, hlen, hall, rfl⟩
      refine List.mem_append.2 ?_
      cases w with
      | nil =>
        rw [List.nil_append] at hp
        exact .inr (List.mem_singleton.2 (by rw [Place.after, ← hp]; rfl))
      | cons a w =>
        obtain ⟨ha, hall⟩ := List.forall_mem_cons.1 hall
        refine .inl (List.mem_flatMap.2
          ⟨Place.after p [a] (w ++ rest) [], mem_run_unit.2 ⟨a, w ++ rest, hp, ha, rfl⟩, ?_⟩)
        exact ih.2 ⟨w, rest, rfl, Nat.le_of_succ_le_succ hlen, hall, by simp [Place.after]⟩

theorem mem_run_between {c : α → Bool} {m n : Nat} {p q : Place α} :
    q ∈ (between (.unit c) m n).run p ↔
      ∃ w rest, p.rest = w ++ rest ∧ (m ≤ w.length ∧ w.length ≤ m + n) ∧ (∀ a ∈ w, c a = true) ∧
        q = Place.after p w rest [] := by
  constructor
  · intro h
    obtain ⟨t, ht, hq⟩ := List.mem_flatMap.1 h
    obtain ⟨u, rest, hp, hu, hallu, rfl⟩ := mem_run_times.1 ht
    obtain ⟨v, rest', hrest, hv, hallv, rfl⟩ := mem_run_upTo.1 hq
    refine ⟨u ++ v, rest', ?_, ?_, ?_, by simp [Place.after]⟩
    · rw [hp, List.append_assoc]
      exact congrArg (u ++ ·) hrest
    · rw [List.length_append]
      omega
    · exact fun a ha => (List.mem_append.1 ha).elim (hallu a) (hallv a)
  · rintro ⟨w, rest, hp, hlen, hall, rfl⟩
    refine List.mem_flatMap.2 ⟨Place.after p (w.take m) (w.drop m ++ rest) [], ?_, ?_⟩
    · refine mem_run_times.2 ⟨w.take m, w.drop m ++ rest, ?_, ?_, ?_, rfl⟩
      · rw [← List.append_assoc, List.take_append_drop]
        exact hp
      · rw [List.length_take]
        omega
      · exact fun a ha => hall a (List.mem_of_mem_take ha)
    · refine mem_run_upTo.2 ⟨w.drop m, rest, rfl, ?_, ?_, ?_⟩
      · rw [List.length_drop]
        omega
      · exact fun a ha => hall a (List.mem_of_mem_drop ha)
      · unfold Place.after
        simp only [List.nil_append, Place.mk.injEq, and_true]
        rw [← List.append_assoc, ← List.reverse_append, List.take_append_drop]

end Gafam.Lib.Regex
