import Gafam.Go.Text
import Gafam.Lib.Firsts

/-!
# The sweep of the research pipeline

`researchSweep` goes through the queries of the plan twice: it takes up the notes that the vault finds, and then it
fetches pages that the web search finds. One map of URLs keeps both passes from taking anything up twice. What the
database and the web answer comes with the queries.
-/

namespace Gafam.Orchestrator

open Gafam.Go Gafam.Lib

def researchMaxFetch : Nat := 8

def researchNoteExcerpt : Nat := 3000

/-- `capRunes`, which counts bytes. -/
def capRunes (s : GoString) (n : Nat) : GoString := if s.length ≤ n then s else s.take n ++ "…"

/-- A hit of `vaultSearch`, with the title and the text that `vaultNoteFromCache` gives for its id, if it does. -/
structure VaultHit where
  id : GoString
  url : GoString
  cached : Option (GoString × GoString)

/-- What `researchSweep` reads of a note that `vaultFetchNote` has stored. The URL is the one at which the redirects
have ended. -/
structure FetchedNote where
  id : GoString
  title : GoString
  url : GoString
  text : GoString

/-- A result of `vaultWebSearch`: whether `vaultURLKnown` finds its URL, and what `vaultFetchNote` makes of it. -/
structure WebResult where
  url : GoString
  known : Bool
  note : Option FetchedNote

/-- A query, with the answers of `vaultSearch` and `vaultWebSearch`; `none` is an error. -/
structure SweepQuery where
  hits : Option (List VaultHit)
  results : Option (List WebResult)

/-- The angles of the plan with their queries. -/
abbrev SweepPlan := List (List SweepQuery)

structure SweepSource where
  noteID : GoString
  title : GoString
  url : GoString
  fromVault : Bool
  text : GoString
deriving DecidableEq

/-! ## The vault pass -/

/-- The source that a note of the vault becomes. -/
def VaultHit.source (h : VaultHit) : Option SweepSource :=
  h.cached.map fun note => ⟨h.id, note.1, h.url, true, capRunes note.2 researchNoteExcerpt⟩

/-- The body of the loop over the hits of a query. The URL is marked before the note is read. -/
def takeHit (acc : List GoString × List SweepSource) (h : VaultHit) : List GoString × List SweepSource :=
  if h.id = [] ∨ h.url ∈ acc.1 then acc
  else (h.url :: acc.1, acc.2 ++ h.source.toList)

/-- The body of the loop over the queries of an angle. -/
def takeHits (acc : List GoString × List SweepSource) (query : SweepQuery) : List GoString × List SweepSource :=
  match query.hits with
  | none => acc
  | some hits => hits.foldl takeHit acc

def vaultPass (plan : SweepPlan) : List GoString × List SweepSource :=
  plan.foldl (fun acc angle => angle.foldl takeHits acc) ([], [])

/-! ## The web pass -/

/-- The variables of the web pass: `seenURL`, and the results that are fetched. -/
structure WebPass where
  seen : List GoString
  fetched : List WebResult

def WebPass.fetchCount (w : WebPass) : Nat := w.fetched.length

/-- The loop over the results of a query. -/
def fetchResults : List WebResult → WebPass → WebPass
  | [], w => w
  | r :: results, w =>
    if researchMaxFetch ≤ w.fetchCount then w
    else if r.url ∈ w.seen ∨ r.known then fetchResults results w
    else fetchResults results ⟨r.url :: w.seen, w.fetched ++ [r]⟩

/-- The loop over the queries of an angle. -/
def searchQueries : List SweepQuery → WebPass → WebPass
  | [], w => w
  | query :: queries, w =>
    if researchMaxFetch ≤ w.fetchCount then w
    else
      match query.results with
      | none => searchQueries queries w
      | some results => searchQueries queries (fetchResults results w)

def webPass (plan : SweepPlan) : WebPass :=
  plan.foldl (fun w angle => searchQueries angle w) ⟨(vaultPass plan).1, []⟩

/-- The source that a page becomes. -/
def FetchedNote.source (note : FetchedNote) : SweepSource :=
  ⟨note.id, note.title, note.url, false, capRunes note.text researchNoteExcerpt⟩

/-- The pages that have been fetched, in the order in which the fetches were started. -/
def WebPass.sources (w : WebPass) : List SweepSource := w.fetched.filterMap fun r => r.note.map FetchedNote.source

/-- What `researchSweep` returns. The fetches run at the same time, so the pages come in any order. -/
inductive Sweeps (plan : SweepPlan) : Except GoString (List SweepSource) → Prop
  | collected {web : List SweepSource} (hweb : web.Perm (webPass plan).sources)
    (hsome : (vaultPass plan).2 ++ web ≠ []) : Sweeps plan (.ok ((vaultPass plan).2 ++ web))
  | nothing (hweb : (webPass plan).sources = []) (hvault : (vaultPass plan).2 = []) :
    Sweeps plan (.error "sweep found zero sources (vault empty + web search/fetch failed)")

/-! ## Purpose -/

/-- The notes that the vault finds, in the order of the queries. -/
def SweepPlan.notes (plan : SweepPlan) : List VaultHit :=
  (plan.flatMap fun angle => angle.flatMap fun query => query.hits.getD []).filter fun h => h.id ≠ []

/-- The results of the web search, in the order of the queries. -/
def SweepPlan.results (plan : SweepPlan) : List WebResult :=
  plan.flatMap fun angle => angle.flatMap fun query => query.results.getD []

/-- Every note is kept once, and every page at most once; there are not too many fetches. -/
structure KeepsEach (plan : SweepPlan) (sources : List SweepSource) : Prop where
  notes : ∀ h ∈ plan.notes, sources.countP (fun s => s.fromVault && decide (s.noteID = h.id ∧ s.url = h.url)) = 1
  pages : ∀ s ∈ sources, s.fromVault = false → sources.countP (fun s' => s'.url = s.url) = 1
  fetches : (webPass plan).fetchCount ≤ researchMaxFetch

/-- Notes that differ have different URLs, and the note that is found first under a URL can be read. -/
def NotesApart (plan : SweepPlan) : Prop :=
  (∀ h ∈ plan.notes, ∀ h' ∈ plan.notes, h.url = h'.url → h.id = h'.id) ∧
    ∀ h ∈ firsts VaultHit.url [] plan.notes, h.cached.isSome

/-- The new results: the vault does not know their URLs, and they have not been found before. -/
def SweepPlan.newResults (plan : SweepPlan) : List WebResult :=
  firsts WebResult.url (plan.notes.map VaultHit.url) (plan.results.filter fun r => !r.known)

/-- The pages to which the first new results lead. -/
def SweepPlan.pages (plan : SweepPlan) : List FetchedNote :=
  (plan.newResults.take researchMaxFetch).filterMap WebResult.note

/-- No two of these results lead to the same page, and none to the page of a note. -/
def PagesApart (plan : SweepPlan) : Prop :=
  (plan.pages.map FetchedNote.url).Nodup ∧ ∀ p ∈ plan.pages, ∀ h ∈ plan.notes, p.url ≠ h.url

end Gafam.Orchestrator
