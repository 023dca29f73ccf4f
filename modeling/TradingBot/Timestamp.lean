import TradingBot.Rounding
import TradingBot.Text

/-!
# Points in time

**The type** (`Timestamp`). Seconds since the beginning of 1970 in UTC and nanoseconds within the
second. A leap second is counted into the second before it, with nanoseconds from one to two
thousand million.

**Text.** Dates and times of day as in RFC 3339. Reading (`parse`) also takes shorter numbers,
blanks around the separators, `UTC` for the offset, and years beyond four digits with a sign.
Writing (`render`) gives UTC with `Z` and 0, 3, 6 or 9 digits of a second, as few as are enough.
-/

namespace TradingBot

structure Timestamp where
  /-- Seconds since the beginning of 1970. -/
  seconds : Int
  nanos : Nat
deriving DecidableEq, Repr

namespace Timestamp

/-! ## The calendar -/

/-- A year and a day of it in the calendar of this reckoning. -/
structure Date where
  year : Int
  month : Nat
  day : Nat
deriving DecidableEq, Repr

def isLeapYear (year : Int) : Bool := year % 4 == 0 && (year % 100 != 0 || year % 400 == 0)

def daysInMonth (year : Int) (month : Nat) : Nat :=
  if month = 2 then if isLeapYear year then 29 else 28
  else if month = 4 ∨ month = 6 ∨ month = 9 ∨ month = 11 then 30
  else 31

/-- Years that a date may lie in. -/
def minYear : Int := -262143

def maxYear : Int := 262142

def Date.Valid (d : Date) : Prop :=
  minYear ≤ d.year ∧ d.year ≤ maxYear ∧ 1 ≤ d.month ∧ d.month ≤ 12 ∧ 1 ≤ d.day ∧
    d.day ≤ daysInMonth d.year d.month

instance (d : Date) : Decidable d.Valid := inferInstanceAs (Decidable (_ ∧ _))

/-- Days of the year before a month, when years begin in March. -/
def daysBeforeMonth (monthFromMarch : Nat) : Nat := (153 * monthFromMarch + 2) / 5

/-- Days from the beginning of 1970. Years are counted from March, so that the leap day is the
last of its year. -/
def Date.toDays (d : Date) : Int :=
  let year := if d.month ≤ 2 then d.year - 1 else d.year
  let month := if d.month ≤ 2 then d.month + 9 else d.month - 3
  year * 365 + year / 4 - year / 100 + year / 400 + daysBeforeMonth month + (d.day - 1 : Nat) -
    719468

/-- The date that lies so many days from the beginning of 1970. -/
def Date.ofDays (days : Int) : Date :=
  let n := days + 719468
  let era := n / 146097
  let dayOfEra := n % 146097
  let yearOfEra := (dayOfEra - dayOfEra / 1460 + dayOfEra / 36524 - dayOfEra / 146096) / 365
  let dayOfYear := dayOfEra - (365 * yearOfEra + yearOfEra / 4 - yearOfEra / 100)
  let month := ((5 * dayOfYear + 2) / 153).toNat
  { year := yearOfEra + era * 400 + (if month ≥ 10 then 1 else 0)
    month := if month < 10 then month + 3 else month - 9
    day := dayOfYear.toNat - daysBeforeMonth month + 1 }

def secondsPerDay : Nat := 86400

/-! ## Writing -/

def padded (width n : Nat) : String :=
  let ds := Nat.toDigits 10 n
  String.ofList (List.replicate (width - ds.length) '0' ++ ds)

/-- Years of four digits stand alone, all others have a sign. -/
def renderYear (year : Int) : String :=
  if 0 ≤ year ∧ year ≤ 9999 then padded 4 year.toNat
  else (if year < 0 then "-" else "+") ++ padded 4 year.natAbs

/-- The digits of the second, in groups of three. -/
def renderNanos (nanos : Nat) : String :=
  if nanos = 0 then ""
  else if nanos % 1000000 = 0 then "." ++ padded 3 (nanos / 1000000)
  else if nanos % 1000 = 0 then "." ++ padded 6 (nanos / 1000)
  else "." ++ padded 9 nanos

def nanosPerSecond : Nat := 1000000000

def render (t : Timestamp) : String :=
  let date := Date.ofDays (t.seconds / secondsPerDay)
  let s := (t.seconds % secondsPerDay).toNat
  let leap := t.nanos / nanosPerSecond
  s!"{renderYear date.year}-{padded 2 date.month}-{padded 2 date.day}T" ++
    s!"{padded 2 (s / 3600)}:{padded 2 (s / 60 % 60)}:{padded 2 (s % 60 + leap)}" ++
    s!"{renderNanos (t.nanos % nanosPerSecond)}Z"

/-! ## Reading -/

def skipBlanks (cs : List Char) : List Char := cs.dropWhile Text.isBlank

def digitsValue (ds : List Char) : Nat := Nat.ofDigitChars 10 ds 0

/-- A number of one to `width` digits behind blanks. -/
def takeNumber (width : Nat) (cs : List Char) : Option (Nat × List Char) :=
  let cs := skipBlanks cs
  match (cs.take width).takeWhile Char.isDigit with
  | [] => none
  | ds => some (digitsValue ds, cs.drop ds.length)

/-- A year: up to four digits, or a sign and any number of digits. -/
def takeYear (cs : List Char) : Option (Int × List Char) :=
  match skipBlanks cs with
  | '-' :: rest => (takeSigned rest).map fun (n, rest) => (-(n : Int), rest)
  | '+' :: rest => (takeSigned rest).map fun (n, rest) => ((n : Int), rest)
  | rest => (takeNumber 4 rest).map fun (n, rest) => ((n : Int), rest)
where
  takeSigned (cs : List Char) : Option (Nat × List Char) :=
    match cs.takeWhile Char.isDigit with
    | [] => none
    | ds => some (digitsValue ds, cs.drop ds.length)

/-- The text behind a separator and the blanks around it. -/
def takeMark (mark : Char) (cs : List Char) : Option (List Char) :=
  match skipBlanks cs with
  | c :: rest => if c = mark then some rest else none
  | [] => none

def takeDate (cs : List Char) : Option (Date × List Char) := do
  let (year, cs) ← takeYear cs
  let cs ← takeMark '-' cs
  let (month, cs) ← takeNumber 2 cs
  let cs ← takeMark '-' cs
  let (day, cs) ← takeNumber 2 cs
  let date : Date := { year, month, day }
  if date.Valid then some (date, cs) else none

/-- The digits of the second behind a point; those after the ninth are ignored. -/
def takeNanos (cs : List Char) : Option (Nat × List Char) :=
  match cs with
  | '.' :: rest =>
    match rest.takeWhile Char.isDigit with
    | [] => none
    | ds =>
      let kept := ds.take 9
      some (digitsValue kept * pow10 (9 - kept.length), rest.drop ds.length)
  | cs => some (0, cs)

/-- Seconds of the day and nanoseconds. -/
def takeTime (cs : List Char) : Option ((Nat × Nat) × List Char) := do
  let (hour, cs) ← takeNumber 2 cs
  let cs ← takeMark ':' cs
  let (minute, cs) ← takeNumber 2 cs
  let cs ← takeMark ':' cs
  let (second, cs) ← takeNumber 2 cs
  let (nanos, cs) ← takeNanos cs
  if 23 < hour ∨ 59 < minute ∨ 60 < second then none
  else
    let leap := second / 60
    some ((hour * 3600 + minute * 60 + (second - leap), nanos + leap * nanosPerSecond), cs)

def digit? (c : Char) : Option Nat := if c.isDigit then some (digitsValue [c]) else none

/-- An offset behind its sign, in seconds. -/
def takeHoursMinutes (cs : List Char) : Option (Nat × List Char) :=
  match cs with
  | h :: h' :: rest => do
    let hours := (← digit? h) * 10 + (← digit? h')
    match rest.dropWhile fun c => c == ':' || Text.isBlank c with
    | m :: m' :: rest =>
      let minutes := (← digit? m) * 10 + (← digit? m')
      let seconds := hours * 3600 + minutes * 60
      if 59 < minutes ∨ secondsPerDay ≤ seconds then none else some (seconds, rest)
    | _ => none
  | _ => none

/-- The offset from UTC, in seconds. -/
def takeOffset (cs : List Char) : Option (Int × List Char) :=
  match cs with
  | 'Z' :: rest | 'z' :: rest => some (0, rest)
  | '+' :: rest => (takeHoursMinutes rest).map fun (n, rest) => ((n : Int), rest)
  | '-' :: rest | '\u2212' :: rest =>
    (takeHoursMinutes rest).map fun (n, rest) => (-(n : Int), rest)
  | cs =>
    if (cs.take 3).map Char.toUpper = ['U', 'T', 'C'] then some (0, cs.drop 3) else none

def parse (text : String) : Option Timestamp := do
  let (date, cs) ← takeDate text.toList
  let cs ←
    match cs with
    | 'T' :: rest | 't' :: rest | ' ' :: rest => some rest
    | _ => none
  let ((seconds, nanos), cs) ← takeTime cs
  let (offset, cs) ← takeOffset (skipBlanks cs)
  if skipBlanks cs = [] then
    some { seconds := date.toDays * secondsPerDay + seconds - offset, nanos }
  else none

end Timestamp

end TradingBot
