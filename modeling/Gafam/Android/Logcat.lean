import Gafam.Android.EdgeInference
import Gafam.Lib.Words

/-!
# Lines of logcat

The desktop manager ships what `adb logcat` prints (`ship_adb_logcat_loop`), and the app what its own process logs
(`LogShipper.kt`). Both read a dump again and again, go on behind the last line that they know, and take a line apart
by the marker of its level.
-/

namespace Gafam.Android

open Gafam.Lib Gafam.Go

abbrev Line := List Char

/-- `char::is_whitespace` of Rust. -/
def rustSpace (c : Char) : Bool := isSpace c.toNat

/-- `Char.isWhitespace` of Kotlin. -/
def kotlinSpace (c : Char) : Bool := c.toNat < 0x10000 && EdgeInference.isWhitespace (UInt16.ofNat c.toNat)

/-- `find` and `indexOf`; `none` is the `-1` of Kotlin. -/
def indexOf (s : Line) : Line → Option Nat
  | [] => if s = [] then some 0 else none
  | c :: cs => if s.isPrefixOf (c :: cs) then some 0 else (indexOf s cs).map (· + 1)

/-! ## One line -/

/-- The level, the tag and the message of an entry. -/
structure LogcatEntry where
  level : Line
  tag : Line
  message : Line
deriving DecidableEq

def logcatTag : Line := ['l', 'o', 'g', 'c', 'a', 't']

/-- The letters of the markers, in the order in which they are tried. -/
def levels : List Char := ['V', 'D', 'I', 'W', 'E', 'F']

def marker (level : Char) : Line := [' ', level, ' ']

/-- The first marker that the line contains, and its first place. -/
def firstMarker (line : Line) : Option (Char × Nat) :=
  levels.findSome? fun m => (indexOf (marker m) line).map fun idx => (m, idx)

/-- `parse_logcat_line` -/
def parseLogcatLine (line : Line) : LogcatEntry :=
  match firstMarker line with
  | some (m, idx) =>
    let level := trimmed rustSpace (marker m)
    let rest := trimmed rustSpace (line.drop (idx + (marker m).length))
    match indexOf [':'] rest with
    | some colon => ⟨level, trimmed rustSpace (rest.take colon), trimmed rustSpace (rest.drop (colon + 1))⟩
    | none => ⟨level, logcatTag, rest⟩
  | none => ⟨['I'], logcatTag, line⟩

/-- The end of `parseAndEnqueueLogcat`; no colon counts like one at the front. -/
def splitTag (level tagMsg : Line) : LogcatEntry :=
  let colon := (indexOf [':'] tagMsg).getD 0
  if 0 < colon then
    ⟨level, trimmed kotlinSpace (tagMsg.take colon), trimmed kotlinSpace (tagMsg.drop (colon + 1))⟩
  else ⟨level, logcatTag, tagMsg⟩

/-- What `parseAndEnqueueLogcat` enqueues. -/
def parseAndEnqueueLogcat (line : Line) : LogcatEntry :=
  -- `line.split(" ", limit = 6).size`
  if min 6 (line.count ' ' + 1) < 6 then ⟨['I'], logcatTag, line⟩
  else
    match firstMarker line with
    | some (m, idx) =>
      splitTag (trimmed kotlinSpace (marker m)) (trimmed kotlinSpace (line.drop (idx + (marker m).length)))
    | none => splitTag ['I'] line

/-- A line in the format `threadtime`: the two numbers are aligned by spaces, and the tag is filled up with them. -/
structure ThreadTime where
  date : Line
  time : Line
  fill : Nat
  pid : Line
  fill' : Nat
  tid : Line
  level : Char
  tag : Line
  message : Line
  digits : ∀ c ∈ date ++ time ++ pid ++ tid, c.isDigit = true ∨ c = '-' ∨ c = ':' ∨ c = '.'
  level_mem : level ∈ levels
  no_colon : ':' ∉ tag

namespace ThreadTime

/-- What stands in front of the level. -/
def stamp (l : ThreadTime) : Line :=
  l.date ++ ' ' :: l.time ++ ' ' :: List.replicate l.fill ' ' ++ l.pid ++ ' ' :: List.replicate l.fill' (' ') ++ l.tid

/-- What stands behind it. -/
def body (l : ThreadTime) : Line := ' ' :: l.tag ++ ':' :: ' ' :: l.message

def text (l : ThreadTime) : Line := l.stamp ++ ' ' :: l.level :: l.body

/-- What the line says, but for white space at the ends of its columns. -/
def entry (l : ThreadTime) (space : Char → Bool) : LogcatEntry :=
  ⟨[l.level], trimmed space l.tag, trimmed space l.message⟩

/-- Behind the level no marker is found that is tried before its own. -/
def Unmarked (l : ThreadTime) : Prop := ∀ m ∈ levels.takeWhile (· ≠ l.level), ¬ marker m <:+: l.body

end ThreadTime

/-! ## Dumps -/

/-- What the log has done until the next dump: so many lines have been rotated out of the window, and others have
been written. -/
structure Growth where
  gone : Nat
  fresh : List Line

/-- The next window. -/
def Growth.window (g : Growth) (w : List Line) : List Line := (w ++ g.fresh).drop g.gone

/-- The lines of the window before that are still in it. -/
def Growth.kept (g : Growth) (w : List Line) : List Line := w.drop g.gone

/-- The lines that are new in it. -/
def Growth.added (g : Growth) (w : List Line) : List Line := g.fresh.drop (g.gone - w.length)

/-- The lines with something in them. -/
def nonBlank (space : Char → Bool) (l : List Line) : List Line := l.filter fun x => trimmed space x ≠ []

/-- A round of `ship_adb_logcat_loop` in which `adb` succeeds: the fingerprint behind it, and the lines whose entries
are sent. -/
def shipAdbLogcat (lastFingerprint : Line) (lines : List Line) : Line × List Line :=
  if lines = [] then (lastFingerprint, [])
  else
    let start :=
      if lastFingerprint = [] then lines.length - 40
      else ((lines.findIdx? (· == lastFingerprint)).map (· + 1)).getD (lines.length - 40)
    (lines.getLastD [], nonBlank rustSpace (lines.drop start))

/-- The loop of `harvestOwnLogcat` over the lines of a dump: `sawNew` and `collected`. -/
def harvestLine (lastLogcatLine : Option Line) (s : Bool × List Line) (l : Line) : Bool × List Line :=
  if lastLogcatLine ≠ none ∧ s.1 = false then (lastLogcatLine == some l, s.2)
  else if lastLogcatLine = none then
    (s.1, if 40 < (s.2 ++ [l]).length then (s.2 ++ [l]).drop 1 else s.2 ++ [l])
  else (s.1, s.2 ++ [l])

/-- `harvestOwnLogcat`: the last line behind it, and the lines that are enqueued. -/
def harvestOwnLogcat (lastLogcatLine : Option Line) (lines : List Line) : Option Line × List Line :=
  let collected := (lines.foldl (harvestLine lastLogcatLine) (false, [])).2
  if collected = [] then (lastLogcatLine, []) else (collected.getLast?, collected)

/-- A collector that reads one dump after the other; its state comes with the window it has read last. -/
def collect {σ : Type} (round : σ → List Line → σ × List Line) (p : σ × List Line) (g : Growth) :
    Option (σ × List Line) :=
  some ((round p.1 (g.window p.2)).1, g.window p.2)

/-! ## What the collectors are for -/

/-- Of the new lines each is emitted once and in its place, but for blank ones, and nothing else is. -/
def Emits (space : Char → Bool) (added emitted : List Line) : Prop :=
  nonBlank space emitted = nonBlank space added ∧ emitted.Sublist added

/-- What a round of a collector is to do. -/
def Collects {σ : Type} (round : σ → List Line → σ × List Line) (space : Char → Bool) (p : σ × List Line)
    (g : Growth) : Prop :=
  Emits space (g.added p.2) (round p.1 (g.window p.2)).2

/-! ## When they do it -/

def Blanks (space : Char → Bool) (l : List Line) : Prop := nonBlank space l = []

/-- But for blank ones, the last forty lines are the new ones. -/
def LastForty (space : Char → Bool) (kept added : List Line) : Prop :=
  Blanks space (kept.drop (kept.length + added.length - 40)) ∧ Blanks space (added.take (added.length - 40))

/-- The line is found first where the new lines begin, but for blank ones. -/
def FoundLast (space : Char → Bool) (last : Line) (kept added : List Line) : Prop :=
  (∃ a b, kept = a ++ last :: b ∧ last ∉ a ∧ Blanks space b) ∨
    last ∉ kept ∧ ∃ a b, added = a ++ last :: b ∧ last ∉ a ∧ Blanks space (a ++ [last])

/-- The manager goes on in the right place: it finds its last line there, or it does not look for one (an empty one)
or does not find it, and the last forty lines are the new ones. -/
def ShipsOn (p : Line × List Line) (g : Growth) : Prop :=
  if p.1 ≠ [] ∧ p.1 ∈ g.window p.2 then FoundLast rustSpace p.1 (g.kept p.2) (g.added p.2)
  else LastForty rustSpace (g.kept p.2) (g.added p.2)

/-- The app does: it finds its last line as the last of the old ones, or as a blank new one behind blank ones, or
nothing where the new lines are blank. Without a last line it takes the last forty, and these are new. -/
def HarvestsOn (p : Option Line × List Line) (g : Growth) : Prop :=
  match p.1 with
  | none =>
    (g.kept p.2).drop ((g.kept p.2).length + (g.added p.2).length - 40) = [] ∧
      Blanks kotlinSpace ((g.added p.2).take ((g.added p.2).length - 40))
  | some last =>
    (∃ a, g.kept p.2 = a ++ [last] ∧ last ∉ a) ∨
      last ∉ g.kept p.2 ∧
        ((∃ a b, g.added p.2 = a ++ last :: b ∧ last ∉ a ∧ Blanks kotlinSpace (a ++ [last])) ∨
          last ∉ g.added p.2 ∧ Blanks kotlinSpace (g.added p.2))

end Gafam.Android
