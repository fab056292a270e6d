import Gafam.Go.Text
import Gafam.Lib.Spans

/-!
# Package `time`

Days of the Gregorian calendar, without an end in either direction, as `Format` writes them and `Parse` reads them
with the layout `2006-01-02`.
-/

namespace Gafam.Go

open Gafam.Lib

/-! ## The calendar -/

def isLeap (year : Int) : Bool := year % 4 = 0 && (year % 100 ≠ 0 || year % 400 = 0)

def yearLength (year : Int) : Nat := if isLeap year then 366 else 365

def monthLengths (year : Int) : List Nat := [31, if isLeap year then 29 else 28, 31, 30, 31, 30, 31, 31, 30, 31, 30, 31]

structure Date where
  year : Int
  month : Nat
  day : Nat
deriving DecidableEq

/-- The lengths of the 400 years after which the calendar repeats itself. -/
def eraYears : List Nat := (List.range 400).map fun y : Nat => yearLength y

/-- The days of 400 years. -/
def eraDays : Nat := 146097

/-- The date so many days after 1 January 1970, which is 719528 days after 1 January 0. -/
def dateOf (days : Int) : Date :=
  let n := days + 719528
  let era := n / eraDays
  let y := locate eraYears (n % eraDays).toNat
  let m := locate (monthLengths y.1) y.2
  ⟨era * 400 + y.1, m.1 + 1, m.2 + 1⟩

/-! ## Writing -/

/-- The last `width` digits. -/
def lastDigits : Nat → Nat → GoString
  | 0, _ => []
  | width + 1, n => lastDigits width (n / 10) ++ [UInt8.ofNat (0x30 + n % 10)]

/-- `appendInt` for a number that is not negative: zeros in front up to the width. -/
def appendNat (n width : Nat) : GoString := if n < 10 ^ width then lastDigits width n else itoa n

/-- `appendInt` -/
def appendInt (n : Int) (width : Nat) : GoString :=
  if n < 0 then 0x2D :: appendNat n.natAbs width else appendNat n.natAbs width

/-- `Format("2006-01-02")` -/
def formatDate (d : Date) : GoString :=
  appendInt d.year 4 ++ 0x2D :: (appendNat d.month 2 ++ 0x2D :: appendNat d.day 2)

/-- `time.UnixMilli(ts).UTC().Format("2006-01-02")` -/
def formatDay (ts : Int) : GoString := formatDate (dateOf (ts / 86400000))

/-! ## Reading -/

/-- `daysIn` -/
def daysIn (year : Int) (month : Nat) : Nat := (monthLengths year).getD (month - 1) 0

/-- `time.Parse("2006-01-02", s)` finds no error: four digits, and twice two. -/
def parsesDate : GoString → Bool
  | [y1, y2, y3, y4, h1, m1, m2, h2, d1, d2] =>
    let year := digitsValue [y1, y2, y3, y4]
    let month := digitsValue [m1, m2]
    let day := digitsValue [d1, d2]
    [y1, y2, y3, y4, m1, m2, d1, d2].all isDigit && h1 = 0x2D && h2 = 0x2D &&
      1 ≤ month && month ≤ 12 && 1 ≤ day && day ≤ daysIn year month
  | _ => false

/-!
## Dates with a time of day

The layout `2006-01-02 15:04:05` of package `time`. A time is a number of seconds since the start of the
year 0; written without a zone, it is read back as a time of UTC.
-/

/-- `Format("2006-01-02 15:04:05")` -/
def formatDateTime (secs : Int) : GoString :=
  let n := (secs % 86400).toNat
  formatDate (dateOf (secs / 86400 - 719528)) ++
    0x20 :: (appendNat (n / 3600) 2 ++ 0x3A :: (appendNat (n / 60 % 60) 2 ++ 0x3A :: appendNat (n % 60) 2))

/-- The days from the start of the year 0 to a date. -/
def daysOf (d : Date) : Int :=
  d.year / 400 * eraDays + ((eraYears.take (d.year % 400).toNat).sum +
    ((monthLengths d.year).take (d.month - 1)).sum + (d.day - 1) : Nat)

/-- The numbers of a date. -/
def readDate (s : GoString) : Date :=
  ⟨digitsValue (s.take 4), digitsValue ((s.drop 5).take 2), digitsValue ((s.drop 8).take 2)⟩

/-- `time.Parse("2006-01-02 15:04:05", s)`, for texts without a fraction of a second. -/
def parseDateTime (s : GoString) : Option Int :=
  match s.drop 10 with
  | [space, h1, h2, c, m1, m2, c', s1, s2] =>
    let hour := digitsValue [h1, h2]
    let minute := digitsValue [m1, m2]
    let second := digitsValue [s1, s2]
    if parsesDate (s.take 10) && [h1, h2, m1, m2, s1, s2].all isDigit && space = 0x20 && c = 0x3A && c' = 0x3A &&
        hour < 24 && minute < 60 && second < 60 then
      some (daysOf (readDate (s.take 10)) * 86400 + (hour * 3600 + minute * 60 + second : Nat))
    else none
  | _ => none

/-- The year of a time. -/
def yearOf (secs : Int) : Int := (dateOf (secs / 86400 - 719528)).year

end Gafam.Go
