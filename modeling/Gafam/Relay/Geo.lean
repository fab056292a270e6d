import Gafam.Go.Text
import Gafam.Lib.ExchangeSort
import Mathlib.Data.List.Nodup

/-!
# Places and map tiles

`searchGeonames` scores the rows that two queries bring, keeps the best score of each id in a map, and sorts what is in
the map by exchanges. The queries are given by their rows, and the order in which the map is gone through is any. The
coordinates are only passed on. `enforceGeoQuota` sorts the tiles in the same way.
-/

namespace Gafam.Relay.Geo

open Gafam.Go Gafam.Lib

/-! ## Texts -/

/-- The table of `foldASCII`. -/
def foldRune (r : Nat) : Option UInt8 :=
  if r ∈ [0xE0, 0xE1, 0xE2, 0xE3, 0xE4] then some 0x61
  else if r ∈ [0xE8, 0xE9, 0xEA, 0xEB] then some 0x65
  else if r ∈ [0xEC, 0xED, 0xEE, 0xEF] then some 0x69
  else if r ∈ [0xF2, 0xF3, 0xF4, 0xF5, 0xF6] then some 0x6F
  else if r ∈ [0xF9, 0xFA, 0xFB, 0xFC] then some 0x75
  else if r ∈ [0xFD, 0xFF] then some 0x79
  else if r = 0xE7 then some 0x63
  else if r = 0xF1 then some 0x6E
  else if r ∈ [0x2D, 0x27, 0x2E, 0x2C] then some 0x20
  else none

/-- `strings.Join(l, " ")` -/
def joinSpace (l : List GoString) : GoString := (l.intersperse [0x20]).flatten

def foldASCII (s : GoString) : GoString :=
  joinSpace (fields ((segments (toLower (trimSpace s))).flatMap fun r =>
    match foldRune r.rune with
    | some b => [b]
    | none => r.bytes))

/-- What one word of the question is worth, if it is found. -/
def tokenScore (name admin1 country t : GoString) : Option Nat :=
  if t = [] then some 0
  else if hasPrefix name t then some 120
  else if contains name t then some 60
  else if contains admin1 t || contains country t then some 25
  else none

/-- The loop over the words, which a word that is not found ends. -/
def tokensScore (name admin1 country : GoString) : List GoString → Option Nat
  | [] => some 0
  | t :: ts => (tokenScore name admin1 country t).bind fun n => (tokensScore name admin1 country ts).map (n + ·)

def popScore (pop : Int) : Nat :=
  (if pop > 0 then 10 else 0) + (if pop > 10000 then 20 else 0) + (if pop > 100000 then 40 else 0) +
    (if pop > 1000000 then 80 else 0)

def scoreGeoHit (normQ : GoString) (tokens : List GoString) (name admin1 country : GoString) (pop : Int) : Nat :=
  if trimSpace (name ++ " " ++ admin1 ++ " " ++ country) = [] then 0
  else
    let sc := if name = normQ then 1000 else if hasPrefix name normQ then 700 else if contains name normQ then 400 else 0
    match tokensScore name admin1 country tokens with
    | some n => sc + n + popScore pop
    | none => 0

/-! ## Rows -/

/-- A row of `gafam_geonames`; the coordinates are the bits of a `float64`. -/
structure GeoRow where
  id : Int
  name : GoString
  ascii : GoString
  admin1 : GoString
  country : GoString
  lat : UInt64
  lon : UInt64
  pop : Int

structure GeoResult where
  name : GoString
  display : GoString
  admin1 : GoString
  country : GoString
  lat : UInt64
  lon : UInt64
  pop : Int
  source : GoString

def geoDisplay (r : GeoRow) : GeoResult where
  name := r.name
  display := (if r.admin1 = [] then r.name else r.name ++ str ", " ++ r.admin1) ++
    (if r.country = [] then [] else str " (" ++ r.country ++ str ")")
  admin1 := r.admin1
  country := r.country
  lat := r.lat
  lon := r.lon
  pop := r.pop
  source := "geonames"

structure Cand where
  id : Int
  score : Nat
  result : GeoResult

/-- The better one of the scores of a row under its two names. -/
def rowScore (norm : GoString) (r : GeoRow) : Nat :=
  let score name := scoreGeoHit norm (fields norm) (foldASCII name) (foldASCII r.admin1) (foldASCII r.country) r.pop
  max (score r.name) (score r.ascii)

/-- `add` -/
def add (norm : GoString) (byID : List Cand) (r : GeoRow) : List Cand :=
  let sc := rowScore norm r
  if sc = 0 then byID
  else if byID.any (·.id = r.id) then
    byID.map fun c => if c.id = r.id ∧ sc > c.score then { c with score := sc, result := geoDisplay r } else c
  else byID ++ [⟨r.id, sc, geoDisplay r⟩]

/-- All the words of the question are in the row. -/
def likeMatches (norm : GoString) (r : GeoRow) : Bool :=
  (fields norm).all (contains (foldASCII (joinSpace [r.name, r.ascii, r.admin1, r.country])))

/-- The rows that are scored, and the map behind them. -/
def scored (norm : GoString) (fts like : List GeoRow) : List GeoRow := fts ++ like.filter (likeMatches norm)

def candidates (norm : GoString) (fts like : List GeoRow) : List Cand := (scored norm fts like).foldl (add norm) []

/-- The order of the answer. -/
def better (a b : Cand) : Bool := a.score > b.score || (a.score = b.score && a.result.pop > b.result.pop)

/-- `searchGeonames` with the order in which the map is gone through. -/
def searchGeonames (q : GoString) (limit : Nat) (fts like : List GeoRow) (order : List Cand → List Cand) : List Cand :=
  let norm := foldASCII (trimSpace q)
  if trimSpace q = [] ∨ fields norm = [] then []
  else (exchangeSort better (order (candidates norm fts like))).take limit

/-! ## The map -/

/-- What the map is when some rows have been added: the best score of each id that has one, with its row. -/
structure Best (norm : GoString) (rows : List GeoRow) (byID : List Cand) : Prop where
  nodup : (byID.map Cand.id).Nodup
  row : ∀ c ∈ byID, ∃ r ∈ rows, c = ⟨r.id, rowScore norm r, geoDisplay r⟩ ∧ 0 < rowScore norm r
  best : ∀ r ∈ rows, 0 < rowScore norm r → ∃ c ∈ byID, c.id = r.id ∧ rowScore norm r ≤ c.score

variable {norm : GoString} {rows : List GeoRow} {byID : List Cand}

theorem Best.add (h : Best norm rows byID) (r : GeoRow) : Best norm (rows ++ [r]) (add norm byID r) := by
  have hold : ∀ c ∈ byID, ∃ r' ∈ rows ++ [r], c = ⟨r'.id, rowScore norm r', geoDisplay r'⟩ ∧ 0 < rowScore norm r' := by
    intro c hc
    obtain ⟨r', hr', heq⟩ := h.row c hc
    exact ⟨r', List.mem_append_left _ hr', heq⟩
  unfold Geo.add
  dsimp only
  split_ifs with hzero hany
  · refine ⟨h.nodup, hold, fun r' hr' hpos => ?_⟩
    rcases List.mem_append.1 hr' with hr' | hr'
    · exact h.best r' hr' hpos
    · rw [List.mem_singleton.1 hr', hzero] at hpos
      exact absurd hpos (Nat.lt_irrefl 0)
  · generalize hf : (fun c : Cand => if c.id = r.id ∧ rowScore norm r > c.score then
      { c with score := rowScore norm r, result := geoDisplay r } else c) = f
    have hid : ∀ c, (f c).id = c.id ∧ c.score ≤ (f c).score ∧ (c.id = r.id → rowScore norm r ≤ (f c).score) := by
      intro c
      subst hf
      dsimp only
      split_ifs with hc
      · exact ⟨rfl, Nat.le_of_lt hc.2, fun _ => Nat.le_refl _⟩
      · exact ⟨rfl, Nat.le_refl _, fun hcr => Nat.le_of_not_lt fun hlt => hc ⟨hcr, hlt⟩⟩
    refine ⟨?_, fun c' hc' => ?_, fun r' hr' hpos => ?_⟩
    · have hids : byID.map (Cand.id ∘ f) = byID.map Cand.id := List.map_congr_left fun c _ => (hid c).1
      rw [List.map_map, hids]
      exact h.nodup
    · obtain ⟨c, hc, rfl⟩ := List.mem_map.1 hc'
      subst hf
      dsimp only
      split_ifs with hcr
      · exact ⟨r, List.mem_append_right _ (List.mem_singleton_self r), by rw [← hcr.1], Nat.pos_of_ne_zero hzero⟩
      · exact hold c hc
    · rcases List.mem_append.1 hr' with hr' | hr'
      · obtain ⟨c, hc, hcr, hle⟩ := h.best r' hr' hpos
        exact ⟨f c, List.mem_map_of_mem hc, (hid c).1.trans hcr, hle.trans (hid c).2.1⟩
      · rw [List.mem_singleton.1 hr']
        obtain ⟨c, hc, hcr⟩ := List.any_eq_true.1 hany
        have hcr := of_decide_eq_true hcr
        exact ⟨f c, List.mem_map_of_mem hc, (hid c).1.trans hcr, (hid c).2.2 hcr⟩
  · refine ⟨?_, fun c hc => ?_, fun r' hr' hpos => ?_⟩
    · rw [List.map_append, List.map_singleton]
      refine List.nodup_append.2 ⟨h.nodup, List.nodup_singleton _, fun i hi j hj hij => hany ?_⟩
      obtain ⟨c, hc, rfl⟩ := List.mem_map.1 hi
      exact List.any_eq_true.2 ⟨c, hc, decide_eq_true (hij.trans (List.mem_singleton.1 hj))⟩
    · rcases List.mem_append.1 hc with hc | hc
      · exact hold c hc
      · rw [List.mem_singleton.1 hc]
        exact ⟨r, List.mem_append_right _ (List.mem_singleton_self r), rfl, Nat.pos_of_ne_zero hzero⟩
    · rcases List.mem_append.1 hr' with hr' | hr'
      · obtain ⟨c, hc, hcr⟩ := h.best r' hr' hpos
        exact ⟨c, List.mem_append_left _ hc, hcr⟩
      · rw [List.mem_singleton.1 hr']
        exact ⟨_, List.mem_append_right _ (List.mem_singleton_self _), rfl, Nat.le_refl _⟩

theorem best_candidates (norm : GoString) (fts like : List GeoRow) :
    Best norm (scored norm fts like) (candidates norm fts like) := by
  suffices hall : ∀ (rows done : List GeoRow) byID, Best norm done byID →
      Best norm (done ++ rows) (rows.foldl (add norm) byID) from
    hall _ [] [] ⟨List.nodup_nil, fun _ hc => (nomatch hc), fun _ hr => (nomatch hr)⟩
  intro rows
  induction rows with
  | nil =>
    intro done byID h
    rw [List.append_nil]
    exact h
  | cons r rows ih =>
    intro done byID h
    rw [List.append_cons, List.foldl_cons]
    exact ih (done ++ [r]) (Geo.add norm byID r) (h.add r)

/-- The words of the question are found in a row that has a score. -/
theorem words_found {tokens : List GoString} {name admin1 country : GoString} {pop : Int}
    (h : 0 < scoreGeoHit norm tokens name admin1 country pop) :
    ∀ t ∈ tokens, (tokenScore name admin1 country t).isSome = true := by
  have hall : ∀ tokens n, tokensScore name admin1 country tokens = some n →
      ∀ t ∈ tokens, (tokenScore name admin1 country t).isSome = true := by
    intro tokens
    induction tokens with
    | nil => exact fun _ _ _ ht => nomatch ht
    | cons t ts ih =>
      intro n hn u hu
      obtain ⟨a, ha, hrest⟩ := Option.bind_eq_some_iff.1 hn
      obtain ⟨b, hb, -⟩ := Option.map_eq_some_iff.1 hrest
      rcases List.mem_cons.1 hu with rfl | hu
      · rw [ha]
        rfl
      · exact ih b hb u hu
  unfold scoreGeoHit at h
  split at h
  · exact absurd h (Nat.lt_irrefl 0)
  · dsimp only at h
    split at h
    · exact hall _ _ ‹_›
    · exact absurd h (Nat.lt_irrefl 0)

theorem weak_better : Weak better where
  asymm a b h := by
    simp only [better, Bool.or_eq_true, Bool.and_eq_true, decide_eq_true_eq, Bool.or_eq_false_iff,
      Bool.and_eq_false_iff, decide_eq_false_iff_not] at h ⊢
    omega
  trans a b c h h' := by
    simp only [better, Bool.or_eq_false_iff, Bool.and_eq_false_iff, decide_eq_false_iff_not] at h h' ⊢
    omega

/-- **The best places are found, in their order**, however the map is gone through: each is a row with the best score
of its id, in which all the words of the question are found, and a place is left out only when there are enough that it
is not better than. -/
theorem search_best (q : GoString) (limit : Nat) (fts like : List GeoRow) (order : List Cand → List Cand)
    (horder : ∀ l, (order l).Perm l) :
    let norm := foldASCII (trimSpace q)
    let out := searchGeonames q limit fts like order
    (out.map Cand.id).Nodup ∧ (out.Pairwise fun a b => better b a = false) ∧
      (∀ c ∈ out, ∃ r ∈ scored norm fts like, c = ⟨r.id, rowScore norm r, geoDisplay r⟩ ∧
        (∀ r' ∈ scored norm fts like, r'.id = r.id → rowScore norm r' ≤ rowScore norm r) ∧
        ∃ name ∈ [r.name, r.ascii], ∀ t ∈ fields norm,
          (tokenScore (foldASCII name) (foldASCII r.admin1) (foldASCII r.country) t).isSome = true) ∧
      (trimSpace q ≠ [] → fields norm ≠ [] → ∀ c ∈ candidates norm fts like,
        c ∈ out ∨ (out.length = limit ∧ ∀ d ∈ out, better c d = false)) := by
  intro norm out
  have hbest := best_candidates norm fts like
  by_cases hq : trimSpace q = [] ∨ fields norm = []
  · have hout : out = [] := if_pos hq
    rw [hout]
    exact ⟨List.nodup_nil, .nil, fun _ hc => (nomatch hc), fun h h' => absurd hq (not_or.2 ⟨h, h'⟩)⟩
  have hout : out = (exchangeSort better (order (candidates norm fts like))).take limit := if_neg hq
  have hperm := (@exchangeSort_perm _ better (order (candidates norm fts like))).trans (horder _)
  have hsorted := exchangeSort_sorted weak_better (order (candidates norm fts like))
  rw [hout]
  generalize exchangeSort better (order (candidates norm fts like)) = l at hperm hsorted
  refine ⟨?_, hsorted.sublist (List.take_sublist _ _), fun c hc => ?_, fun _ _ c hc => ?_⟩
  · exact ((List.take_sublist _ _).map _).nodup ((hperm.map _).nodup_iff.2 hbest.nodup)
  · have hc := hperm.mem_iff.1 (List.mem_of_mem_take hc)
    obtain ⟨r, hr, rfl, hpos⟩ := hbest.row c hc
    refine ⟨r, hr, rfl, fun r' hr' hid => ?_, ?_⟩
    · rcases Nat.eq_zero_or_pos (rowScore norm r') with h0 | hpos'
      · rw [h0]
        exact Nat.zero_le _
      · obtain ⟨c', hc', hid', hle⟩ := hbest.best r' hr' hpos'
        rwa [List.inj_on_of_nodup_map hbest.nodup hc' hc (hid'.trans hid)] at hle
    · rcases le_total
        (scoreGeoHit norm (fields norm) (foldASCII r.name) (foldASCII r.admin1) (foldASCII r.country) r.pop)
        (scoreGeoHit norm (fields norm) (foldASCII r.ascii) (foldASCII r.admin1) (foldASCII r.country) r.pop)
        with hle | hle
      · rw [rowScore, max_eq_right hle] at hpos
        exact ⟨r.ascii, by simp, words_found hpos⟩
      · rw [rowScore, max_eq_left hle] at hpos
        exact ⟨r.name, by simp, words_found hpos⟩
  · rw [← hperm.mem_iff, ← List.take_append_drop limit l] at hc
    rcases List.mem_append.1 hc with hc | hc
    · exact .inl hc
    · have hlen : limit ≤ l.length := by
        by_contra hlt
        rw [List.drop_eq_nil_of_le (by omega)] at hc
        exact nomatch hc
      refine .inr ⟨by rw [List.length_take, Nat.min_eq_left hlen], fun d hd => ?_⟩
      rw [← List.take_append_drop limit l] at hsorted
      exact (List.pairwise_append.1 hsorted).2.2 d hd c hc

/-- Two towns of one name, gone through from the end. -/
theorem search_best_towns :
    let town (id pop : Int) : GeoRow := ⟨id, "Saint-Denis", "Saint-Denis", "", "FR", 0, 0, pop⟩
    ((searchGeonames " saint denis" 1 [town 1 500, town 2 111000] [town 1 500] List.reverse).map Cand.id).Nodup :=
  (search_best _ _ _ _ _ List.reverse_perm).1

/-! ## The quota -/

def geoQuotaBytes : Int := 5000000000

/-- `tile` -/
structure Tile where
  path : GoString
  mod : Int
  size : Int

/-- The loop that removes tiles; `removes` is what `os.Remove` does with each. -/
def removeTiles (removes : Tile → Bool) : Int → List Tile → Int × List Tile
  | used, [] => (used, [])
  | used, t :: tiles =>
    if used ≤ geoQuotaBytes then (used, [])
    else if removes t then
      ((removeTiles removes (used - t.size) tiles).1, t :: (removeTiles removes (used - t.size) tiles).2)
    else removeTiles removes used tiles

/-- What is left of the bytes in use, and the tiles that are removed. -/
def enforceGeoQuota (removes : Tile → Bool) (used : Int) (tiles : List Tile) : Int × List Tile :=
  if used ≤ geoQuotaBytes then (used, [])
  else removeTiles removes used (exchangeSort (fun a b => decide (a.mod < b.mod)) tiles)

/-- What removing tiles from the oldest on leaves. -/
structure Freed (removes : Tile → Bool) (used : Int) (tiles : List Tile) (left : Int × List Tile) : Prop where
  removed : ∀ t ∈ left.2, t ∈ tiles ∧ removes t = true
  used : left.1 = used - (left.2.map Tile.size).sum
  enough : left.1 ≤ geoQuotaBytes ∨ ∀ t ∈ tiles, removes t = true → t ∈ left.2
  oldest : ∀ t ∈ left.2, ∀ u ∈ tiles, removes u = true → u ∉ left.2 → t.mod ≤ u.mod
  needed : ∀ t ∈ left.2.getLast?, geoQuotaBytes < left.1 + t.size

theorem removeTiles_freed {removes : Tile → Bool} {tiles : List Tile}
    (hsorted : tiles.Pairwise fun a b => a.mod ≤ b.mod) (used : Int) :
    Freed removes used tiles (removeTiles removes used tiles) := by
  induction hsorted generalizing used with
  | nil => exact ⟨nofun, by simp [removeTiles], .inr nofun, nofun, nofun⟩
  | @cons t tiles hfirst _ ih =>
    unfold removeTiles
    split_ifs with hquota hremoved
    · exact ⟨nofun, by simp, .inl hquota, nofun, nofun⟩
    · obtain ⟨hrem, hused, henough, hold, hneeded⟩ := ih (used - t.size)
      refine ⟨fun u hu => ?_, ?_, henough.imp_right fun h u hu hr => ?_, fun u hu v hv hr hnot => ?_, fun u hu => ?_⟩
      · rcases List.mem_cons.1 hu with rfl | hu
        · exact ⟨List.mem_cons_self .., hremoved⟩
        · exact (hrem u hu).imp_left (List.mem_cons_of_mem _)
      · rw [List.map_cons, List.sum_cons, hused]
        omega
      · exact List.mem_cons.2 ((List.mem_cons.1 hu).imp_right fun hu => h u hu hr)
      · obtain ⟨hvt, hnot⟩ := not_or.1 (mt List.mem_cons.2 hnot)
        have hlater := (List.mem_cons.1 hv).resolve_left hvt
        rcases List.mem_cons.1 hu with rfl | hu
        · exact hfirst v hlater
        · exact hold u hu v hlater hr hnot
      · dsimp only at hu ⊢
        cases hrest : (removeTiles removes (used - t.size) tiles).2 with
        | nil =>
          -- the tile is the only one that is removed
          rw [hrest] at hu hused
          obtain rfl : t = u := by simpa using hu
          simp only [List.map_nil, List.sum_nil] at hused
          omega
        | cons v rest =>
          rw [hrest, List.getLast?_cons_cons, ← hrest] at hu
          exact hneeded u hu
    · obtain ⟨hrem, hused, henough, hold, hneeded⟩ := ih used
      have hkept : ∀ {u}, u ∈ t :: tiles → removes u = true → u ∈ tiles := fun hu hr =>
        (List.mem_cons.1 hu).resolve_left fun heq => hremoved (heq ▸ hr)
      exact ⟨fun u hu => (hrem u hu).imp_left (List.mem_cons_of_mem _), hused,
        henough.imp_right fun h u hu hr => h u (hkept hu hr) hr,
        fun u hu v hv hr => hold u hu v (hkept hv hr) hr, hneeded⟩

/-- **The oldest tiles go first, and no more than needed**: all that can be removed are, or the rest is within the
quota, of which the last removed tile alone was over. -/
theorem enforceGeoQuota_freed (removes : Tile → Bool) (used : Int) (tiles : List Tile) :
    Freed removes used tiles (enforceGeoQuota removes used tiles) := by
  unfold enforceGeoQuota
  split_ifs with hquota
  · exact ⟨nofun, by simp, .inl hquota, nofun, nofun⟩
  have hweak : Weak fun a b : Tile => decide (a.mod < b.mod) := by
    constructor <;> intros <;> simp only [decide_eq_true_eq, decide_eq_false_iff_not] at * <;> omega
  have hsorted := (exchangeSort_sorted hweak tiles).imp fun h => Int.not_lt.1 (of_decide_eq_false h)
  have hmem : ∀ t, t ∈ exchangeSort (fun a b : Tile => decide (a.mod < b.mod)) tiles ↔ t ∈ tiles :=
    fun _ => (exchangeSort_perm tiles).mem_iff
  obtain ⟨hrem, hused, henough, hold, hneeded⟩ := @removeTiles_freed removes _ hsorted used
  simp only [hmem] at hrem henough hold
  exact ⟨hrem, hused, henough, hold, hneeded⟩

end Gafam.Relay.Geo
