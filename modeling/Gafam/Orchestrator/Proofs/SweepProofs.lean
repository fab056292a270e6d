import Gafam.Orchestrator.Sweep

/-!
# What the sweep keeps

Both passes keep the first of each URL. For the pages of the web that is what they are for; among the notes of the
vault it loses those that share a URL with another one, and all memories and mission reports share the empty one.
-/

namespace Gafam.Orchestrator

open Gafam.Go Gafam.Lib

/-! ## The vault pass -/

/-- The loop over hits. -/
theorem foldl_takeHit (hits : List VaultHit) (seen : List GoString) (sources : List SweepSource) :
    (hits.foldl takeHit (seen, sources)).2 =
        sources ++ (firsts VaultHit.url seen (hits.filter fun h => h.id ≠ [])).filterMap VaultHit.source ∧
      ∀ url, url ∈ (hits.foldl takeHit (seen, sources)).1 ↔
        url ∈ seen ∨ url ∈ (hits.filter fun h => h.id ≠ []).map VaultHit.url := by
  induction hits generalizing seen sources with
  | nil => simp [firsts]
  | cons h hits ih =>
    rw [List.foldl_cons]
    by_cases hid : h.id = []
    · have htake : takeHit (seen, sources) h = (seen, sources) := if_pos (.inl hid)
      rw [htake, List.filter_cons_of_neg (by simp [hid])]
      exact ih seen sources
    · rw [List.filter_cons_of_pos (by simp [hid])]
      by_cases hurl : h.url ∈ seen
      · have htake : takeHit (seen, sources) h = (seen, sources) := if_pos (.inr hurl)
        rw [htake, firsts_cons_of_mem hurl, (ih seen sources).1]
        refine ⟨rfl, fun url => ?_⟩
        rw [(ih seen sources).2, List.map_cons, List.mem_cons]
        constructor
        · rintro (hseen | hmem)
          · exact .inl hseen
          · exact .inr (.inr hmem)
        · rintro (hseen | rfl | hmem)
          · exact .inl hseen
          · exact .inl hurl
          · exact .inr hmem
      · have htake : takeHit (seen, sources) h = (h.url :: seen, sources ++ h.source.toList) :=
          if_neg fun h => h.elim hid hurl
        rw [htake, firsts_cons_of_not_mem hurl, (ih _ _).1, List.append_assoc]
        refine ⟨?_, fun url => ?_⟩
        · cases hs : h.source with
          | none => rw [List.filterMap_cons_none hs]; rfl
          | some s => rw [List.filterMap_cons_some hs]; rfl
        · rw [(ih _ _).2, List.map_cons, List.mem_cons, List.mem_cons]
          tauto

theorem takeHits_eq_foldl (acc : List GoString × List SweepSource) (query : SweepQuery) :
    takeHits acc query = (query.hits.getD []).foldl takeHit acc := by
  unfold takeHits
  cases query.hits <;> rfl

theorem vaultPass_eq_foldl (plan : SweepPlan) :
    vaultPass plan =
      (plan.flatMap fun angle => angle.flatMap fun query => query.hits.getD []).foldl takeHit ([], []) := by
  have htake : takeHits = fun acc query => (query.hits.getD []).foldl takeHit acc :=
    funext fun acc => funext (takeHits_eq_foldl acc)
  unfold vaultPass
  simp only [List.foldl_flatMap, htake]

theorem vaultPass_sources (plan : SweepPlan) :
    (vaultPass plan).2 = (firsts VaultHit.url [] plan.notes).filterMap VaultHit.source := by
  rw [vaultPass_eq_foldl, (foldl_takeHit _ _ _).1]
  rfl

theorem mem_vaultPass_seen (plan : SweepPlan) (url : GoString) :
    url ∈ (vaultPass plan).1 ↔ url ∈ plan.notes.map VaultHit.url := by
  rw [vaultPass_eq_foldl, (foldl_takeHit _ _ _).2, or_iff_right List.not_mem_nil]
  rfl

/-! ## The web pass -/

/-- What both loops do with a result. -/
def fetchResult (w : WebPass) (r : WebResult) : WebPass :=
  if researchMaxFetch ≤ w.fetchCount then w
  else if r.url ∈ w.seen ∨ r.known then w
  else ⟨r.url :: w.seen, w.fetched ++ [r]⟩

/-- When the limit has been reached, nothing happens any more. -/
theorem foldl_fetchResult_full {w : WebPass} (h : researchMaxFetch ≤ w.fetchCount) (results : List WebResult) :
    results.foldl fetchResult w = w := by
  induction results with
  | nil => rfl
  | cons r results ih =>
    have hstep : fetchResult w r = w := if_pos h
    rw [List.foldl_cons, hstep, ih]

theorem fetchResults_eq_foldl (results : List WebResult) (w : WebPass) :
    fetchResults results w = results.foldl fetchResult w := by
  induction results generalizing w with
  | nil => rfl
  | cons r results ih =>
    unfold fetchResults
    by_cases hfull : researchMaxFetch ≤ w.fetchCount
    · rw [if_pos hfull, foldl_fetchResult_full hfull]
    · rw [if_neg hfull, List.foldl_cons, ← ih]
      unfold fetchResult
      rw [if_neg hfull]
      split_ifs <;> rfl

theorem searchQueries_eq_foldl (queries : List SweepQuery) (w : WebPass) :
    searchQueries queries w = (queries.flatMap fun query => query.results.getD []).foldl fetchResult w := by
  induction queries generalizing w with
  | nil => rfl
  | cons query queries ih =>
    rw [List.flatMap_cons, List.foldl_append]
    unfold searchQueries
    by_cases hfull : researchMaxFetch ≤ w.fetchCount
    · rw [if_pos hfull, foldl_fetchResult_full hfull, foldl_fetchResult_full hfull]
    · rw [if_neg hfull]
      cases query.results with
      | none => exact ih w
      | some results =>
        dsimp only
        rw [ih, fetchResults_eq_foldl]
        rfl

theorem webPass_eq_foldl (plan : SweepPlan) :
    webPass plan = plan.results.foldl fetchResult ⟨(vaultPass plan).1, []⟩ := by
  unfold webPass SweepPlan.results
  simp only [List.foldl_flatMap, searchQueries_eq_foldl]

/-- The loop over results, up to the limit. -/
theorem foldl_fetchResult (results : List WebResult) {w : WebPass} (hw : w.fetchCount ≤ researchMaxFetch) :
    (results.foldl fetchResult w).fetched =
      w.fetched ++
        (firsts WebResult.url w.seen (results.filter fun r => !r.known)).take (researchMaxFetch - w.fetchCount) := by
  induction results generalizing w with
  | nil => simp [firsts]
  | cons r results ih =>
    rw [List.foldl_cons]
    by_cases hfull : researchMaxFetch ≤ w.fetchCount
    · have hstep : fetchResult w r = w := if_pos hfull
      rw [hstep, foldl_fetchResult_full hfull, Nat.sub_eq_zero_of_le hfull, List.take_zero, List.append_nil]
    · by_cases hskip : r.url ∈ w.seen ∨ r.known = true
      · have hstep : fetchResult w r = w := by
          unfold fetchResult
          rw [if_neg hfull, if_pos hskip]
        rw [hstep, ih hw]
        rcases hskip with hseen | hknown
        · cases hr : r.known with
          | true => rw [List.filter_cons_of_neg (by simp [hr])]
          | false => rw [List.filter_cons_of_pos (by simp [hr]), firsts_cons_of_mem hseen]
        · rw [List.filter_cons_of_neg (by simp [hknown])]
      · have hstep : fetchResult w r = ⟨r.url :: w.seen, w.fetched ++ [r]⟩ := by
          unfold fetchResult
          rw [if_neg hfull, if_neg hskip]
        rw [not_or, Bool.not_eq_true] at hskip
        have hcount : WebPass.fetchCount ⟨r.url :: w.seen, w.fetched ++ [r]⟩ = w.fetchCount + 1 :=
          List.length_append
        rw [hstep, ih (by rw [hcount]; omega), List.filter_cons_of_pos (by simp [hskip.2]),
          firsts_cons_of_not_mem hskip.1, hcount]
        obtain ⟨n, hn⟩ : ∃ n, researchMaxFetch - w.fetchCount = n + 1 := ⟨researchMaxFetch - w.fetchCount - 1, by omega⟩
        rw [hn, List.take_succ_cons, List.append_assoc, show researchMaxFetch - (w.fetchCount + 1) = n by omega]
        rfl

/-- The fetches are those of the first new results. -/
theorem webPass_fetched (plan : SweepPlan) : (webPass plan).fetched = plan.newResults.take researchMaxFetch := by
  rw [webPass_eq_foldl, foldl_fetchResult _ (Nat.zero_le _), List.nil_append]
  unfold SweepPlan.newResults
  rw [firsts_congr (mem_vaultPass_seen plan)]
  rfl

theorem webPass_sources (plan : SweepPlan) : (webPass plan).sources = plan.pages.map FetchedNote.source := by
  unfold WebPass.sources SweepPlan.pages
  rw [webPass_fetched, List.map_filterMap]

/-- There are never too many fetches. -/
theorem fetchCount_le (plan : SweepPlan) : (webPass plan).fetchCount ≤ researchMaxFetch := by
  unfold WebPass.fetchCount
  rw [webPass_fetched]
  exact List.length_take_le _ _

/-- No URL is fetched twice, and none at which the vault has found a note. -/
theorem fetched_urls (plan : SweepPlan) :
    ((webPass plan).fetched.map WebResult.url).Nodup ∧
      ∀ r ∈ (webPass plan).fetched, r.url ∉ plan.notes.map VaultHit.url := by
  rw [webPass_fetched]
  refine ⟨((List.take_sublist _ _).map _).nodup (nodup_map_firsts _ _), fun r hr => ?_⟩
  exact key_not_mem_of_mem_firsts (List.mem_of_mem_take hr)

/-! ## Notes -/

theorem VaultHit.source_of_mem {plan : SweepPlan} {s : SweepSource} (hs : s ∈ (vaultPass plan).2) :
    s.fromVault = true ∧ ∃ h ∈ plan.notes, s.url = h.url := by
  rw [vaultPass_sources] at hs
  obtain ⟨h, hh, hsource⟩ := List.mem_filterMap.1 hs
  obtain ⟨note, -, rfl⟩ := Option.map_eq_some_iff.1 hsource
  exact ⟨rfl, h, (firsts_sublist _ _).subset hh, rfl⟩

/-- A note is among the sources of the vault pass if it is the first one of its URL and can be read. -/
theorem countP_note {plan : SweepPlan} {h : VaultHit} (hh : h ∈ plan.notes) :
    ∃ f ∈ firsts VaultHit.url [] plan.notes, f.url = h.url ∧
      (vaultPass plan).2.countP (fun s => s.fromVault && decide (s.noteID = h.id ∧ s.url = h.url)) =
        if f.cached.isSome && decide (f.id = h.id) then 1 else 0 := by
  obtain ⟨f, hf, hurl⟩ : ∃ f ∈ firsts VaultHit.url [] plan.notes, f.url = h.url := exists_mem_firsts hh List.not_mem_nil
  refine ⟨f, hf, hurl, ?_⟩
  have hcount := countP_of_nodup_map (p := fun g : VaultHit => g.cached.isSome && decide (g.id = h.id))
    (nodup_map_firsts [] plan.notes) hf
  rw [vaultPass_sources, List.countP_filterMap, ← hcount]
  refine List.countP_congr fun g _ => ?_
  unfold VaultHit.source
  rw [hurl]
  cases g.cached <;> simp

/-- What the sweep returns, in two parts. -/
theorem Sweeps.split {plan : SweepPlan} {res : Except GoString (List SweepSource)} (h : Sweeps plan res) :
    ∃ web, web.Perm (plan.pages.map FetchedNote.source) ∧ res.toOption.getD [] = (vaultPass plan).2 ++ web := by
  cases h with
  | @collected web hweb hsome => exact ⟨web, webPass_sources plan ▸ hweb, rfl⟩
  | nothing hweb hvault =>
    refine ⟨[], ?_, ?_⟩
    · rw [← webPass_sources, hweb]
    · rw [hvault]
      rfl

theorem mem_web {plan : SweepPlan} {web : List SweepSource} (hweb : web.Perm (plan.pages.map FetchedNote.source))
    {s : SweepSource} : s ∈ web ↔ ∃ p ∈ plan.pages, p.source = s := by
  rw [hweb.mem_iff, List.mem_map]

/-- The pages of the web are no notes of the vault. -/
theorem notes_iff {plan : SweepPlan} {web : List SweepSource} (hweb : web.Perm (plan.pages.map FetchedNote.source)) :
    (∀ h ∈ plan.notes, ((vaultPass plan).2 ++ web).countP
      (fun s => s.fromVault && decide (s.noteID = h.id ∧ s.url = h.url)) = 1) ↔ NotesApart plan := by
  have hcount : ∀ h : VaultHit, ((vaultPass plan).2 ++ web).countP
      (fun s => s.fromVault && decide (s.noteID = h.id ∧ s.url = h.url)) =
        (vaultPass plan).2.countP fun s => s.fromVault && decide (s.noteID = h.id ∧ s.url = h.url) := by
    intro h
    rw [List.countP_append, Nat.add_eq_left, List.countP_eq_zero]
    intro s hs
    obtain ⟨p, -, rfl⟩ := (mem_web hweb).1 hs
    exact Bool.false_ne_true
  have hsame : ∀ f ∈ firsts VaultHit.url [] plan.notes, ∀ g ∈ firsts VaultHit.url [] plan.notes, f.url = g.url → f = g :=
    fun f hf g hg => List.inj_on_of_nodup_map (nodup_map_firsts [] plan.notes) hf hg
  constructor
  · intro hnotes
    -- the first note of the URL of a note is this note, and it can be read
    have hfirst : ∀ h ∈ plan.notes, ∃ f ∈ firsts VaultHit.url [] plan.notes, f.url = h.url ∧ f.cached.isSome ∧
        f.id = h.id := by
      intro h hh
      obtain ⟨f, hf, hurl, heq⟩ := countP_note hh
      have hone := hnotes h hh
      rw [hcount, heq] at hone
      split_ifs at hone with hif
      rw [Bool.and_eq_true, decide_eq_true_eq] at hif
      exact ⟨f, hf, hurl, hif⟩
    constructor
    · intro h hh h' hh' hurl
      obtain ⟨f, hf, hfurl, -, hid⟩ := hfirst h hh
      obtain ⟨f', hf', hfurl', -, hid'⟩ := hfirst h' hh'
      obtain rfl := hsame f hf f' hf' (hfurl.trans (hurl.trans hfurl'.symm))
      exact hid.symm.trans hid'
    · intro f hf
      obtain ⟨g, hg, hurl, hcached, -⟩ := hfirst f ((firsts_sublist _ _).subset hf)
      obtain rfl := hsame g hg f hf hurl
      exact hcached
  · rintro ⟨hids, hreads⟩ h hh
    obtain ⟨f, hf, hurl, heq⟩ := countP_note hh
    rw [hcount, heq, hreads f hf, hids f ((firsts_sublist _ _).subset hf) h hh hurl, decide_eq_true rfl]
    rfl

/-! ## Pages -/

/-- A page occurs once for each time it has been fetched, and once more for a note with its URL. -/
theorem countP_url {plan : SweepPlan} {web : List SweepSource} (hweb : web.Perm (plan.pages.map FetchedNote.source))
    (url : GoString) : ((vaultPass plan).2 ++ web).countP (fun s => decide (s.url = url)) =
      (vaultPass plan).2.countP (fun s => decide (s.url = url)) + (plan.pages.map FetchedNote.url).count url := by
  rw [List.countP_append, hweb.countP_eq, List.countP_map, List.count, List.countP_map]
  refine congrArg _ (List.countP_congr fun p _ => ?_)
  show decide (p.url = url) = true ↔ (p.url == url) = true
  rw [decide_eq_true_eq, beq_iff_eq]

theorem pages_iff {plan : SweepPlan} {web : List SweepSource} (hweb : web.Perm (plan.pages.map FetchedNote.source))
    (hnotes : NotesApart plan) :
    (∀ s ∈ (vaultPass plan).2 ++ web, s.fromVault = false →
      ((vaultPass plan).2 ++ web).countP (fun s' => decide (s'.url = s.url)) = 1) ↔ PagesApart plan := by
  constructor
  · intro hpages
    have hpage : ∀ p ∈ plan.pages, (vaultPass plan).2.countP (fun s => decide (s.url = p.url)) +
        (plan.pages.map FetchedNote.url).count p.url = 1 := by
      intro p hp
      rw [← countP_url hweb]
      exact hpages p.source (List.mem_append_right _ ((mem_web hweb).2 ⟨p, hp, rfl⟩)) rfl
    constructor
    · refine List.nodup_iff_count_le_one.2 fun url => ?_
      by_cases hurl : url ∈ plan.pages.map FetchedNote.url
      · obtain ⟨p, hp, rfl⟩ := List.mem_map.1 hurl
        have := hpage p hp
        omega
      · rw [List.count_eq_zero.2 hurl]
        exact Nat.zero_le 1
    · intro p hp h hh hurl
      have hone := (notes_iff hweb).2 hnotes h hh
      obtain ⟨s, hs, hcond⟩ := List.countP_pos_iff.1 (hone ▸ Nat.one_pos)
      rw [Bool.and_eq_true, decide_eq_true_eq] at hcond
      have hvault : s ∈ (vaultPass plan).2 := by
        refine (List.mem_append.1 hs).resolve_right fun hsweb => ?_
        obtain ⟨p', -, rfl⟩ := (mem_web hweb).1 hsweb
        exact Bool.false_ne_true hcond.1
      have hpos : 0 < (vaultPass plan).2.countP fun s => decide (s.url = p.url) :=
        List.countP_pos_iff.2 ⟨s, hvault, decide_eq_true (hcond.2.2.trans hurl.symm)⟩
      have hmem : 0 < (plan.pages.map FetchedNote.url).count p.url :=
        List.count_pos_iff.2 (List.mem_map_of_mem hp)
      have := hpage p hp
      omega
  · rintro ⟨hnd, hapart⟩ s hs hweb'
    have hsweb : s ∈ web := by
      refine (List.mem_append.1 hs).resolve_left fun hvault => ?_
      rw [(VaultHit.source_of_mem hvault).1] at hweb'
      cases hweb'
    obtain ⟨p, hp, rfl⟩ := (mem_web hweb).1 hsweb
    have hzero : (vaultPass plan).2.countP (fun s => decide (s.url = p.url)) = 0 := by
      refine List.countP_eq_zero.2 fun s hs hurl => ?_
      obtain ⟨-, h, hh, hsurl⟩ := VaultHit.source_of_mem hs
      exact hapart p hp h hh ((of_decide_eq_true hurl).symm.trans hsurl)
    show ((vaultPass plan).2 ++ web).countP (fun s' => decide (s'.url = p.url)) = 1
    rw [countP_url hweb, hzero, Nat.zero_add]
    exact List.count_eq_one_of_mem hnd (List.mem_map_of_mem hp)

/-! ## The sweep -/

/-- The sweep keeps every note and every page once exactly if no two notes share a URL, the notes can be read, and no
two of the first new results lead to the same page. -/
theorem sweep_keepsEach_iff {plan : SweepPlan} {res : Except GoString (List SweepSource)} (h : Sweeps plan res) :
    KeepsEach plan (res.toOption.getD []) ↔ NotesApart plan ∧ PagesApart plan := by
  obtain ⟨web, hweb, hres⟩ := h.split
  rw [hres]
  constructor
  · intro hkeeps
    have hnotes := (notes_iff hweb).1 hkeeps.notes
    exact ⟨hnotes, (pages_iff hweb hnotes).1 hkeeps.pages⟩
  · rintro ⟨hnotes, hpages⟩
    exact ⟨(notes_iff hweb).2 hnotes, (pages_iff hweb hnotes).2 hpages, fetchCount_le plan⟩

/-- One query finds these notes, and these pages. -/
def queryPlan (hits : List VaultHit) (results : List WebResult) : SweepPlan := [[⟨some hits, some results⟩]]

/-- Two memories, which have no URL. -/
def memories : List VaultHit := [⟨"memory-1", [], some ("bees", "hives")⟩, ⟨"memory-2", [], some ("wax", "candles")⟩]

/-- The second memory is lost. -/
theorem memories_lost :
    ¬∀ plan res, Sweeps plan res → KeepsEach plan (res.toOption.getD []) := by
  intro h
  have hkeeps := h (queryPlan memories []) _ (.collected (List.Perm.refl _) (by decide))
  have hone := hkeeps.notes ⟨"memory-2", [], some ("wax", "candles")⟩ (by simp [SweepPlan.notes, queryPlan, memories, str])
  exact absurd hone (by decide)

/-- A memory and a page. -/
def memoryPlan : SweepPlan :=
  queryPlan (memories.take 1) [⟨"http://a.org", false, some ⟨"n1", "a", "http://a.org", "b"⟩⟩]

theorem memory_kept : KeepsEach memoryPlan
    [⟨"memory-1", "bees", [], true, "hives"⟩, ⟨"n1", "a", "http://a.org", false, "b"⟩] := by
  have hsweeps : Sweeps memoryPlan
      (.ok [⟨"memory-1", "bees", [], true, "hives"⟩, ⟨"n1", "a", "http://a.org", false, "b"⟩]) :=
    .collected (List.Perm.refl _) (by decide)
  refine (sweep_keepsEach_iff hsweeps).2 ⟨⟨?_, ?_⟩, ?_⟩
  · decide
  · decide
  · exact ⟨by decide, by decide⟩

end Gafam.Orchestrator
