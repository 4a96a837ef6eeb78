import TypedRoutes.Calendar.Date
import TypedRoutes.Text.Blank

/-!
# Moments and their texts

A moment is a day, a second of that day and nanoseconds; a leap second is a second 59 with a billion
nanoseconds or more.  `Moment.ofRfc3339?` reads a text with an offset, `Moment.ofLocal?` the forms
without one, which are taken as UTC.  Every moment is written with as many groups of three fraction
digits as it needs.
-/

namespace TypedRoutes

/-- A moment in UTC. -/
structure Moment where
  /-- Days since 1 January 1970. -/
  day : Int
  /-- Seconds since midnight. -/
  second : Nat
  /-- Nanoseconds; a billion and more inside a leap second. -/
  nano : Nat
  deriving DecidableEq

namespace Moment

/-! ## Reading -/

/-- At least `least` and at most `most` digits, as many as there are, and their number. -/
def takeNumber? (least : Nat) (most : Option Nat) (cs : List Char) : Option (Nat × List Char) :=
  let run := cs.takeWhile Char.isDigit
  let digits := match most with
    | some n => run.take n
    | none => run
  if digits.length < least ∨ digits.isEmpty then none
  else some (digits.foldl (fun n c => n * 10 + (c.toNat - '0'.toNat)) 0, cs.drop digits.length)

/-- What follows one expected character. -/
def expect? (c : Char) : List Char → Option (List Char)
  | d :: rest => if d = c then some rest else none
  | [] => none

/-- A fraction of a second after its point: at least one digit, those past the ninth are cut. -/
def takeFraction? (cs : List Char) : Option (Nat × List Char) := do
  let (n, rest) ← takeNumber? 1 (some 9) cs
  let count := cs.length - rest.length
  some (n * Nat.pow 10 (9 - count), rest.dropWhile Char.isDigit)

/-- A fraction, if a point stands first. -/
def optionalFraction? : List Char → Option (Nat × List Char)
  | '.' :: rest => takeFraction? rest
  | cs => some (0, cs)

/-- The moment of a date, a time of day and an offset in minutes.  A second 60 is a leap second. -/
def ofParts? (date : CalendarDate) (hour minute second nano : Nat) (offset : Int) : Option Moment :=
  if date.isValid ∧ hour ≤ 23 ∧ minute ≤ 59 ∧ second ≤ 60 then
    let (second, nano) := if second = 60 then (59, nano + 1000000000) else (second, nano)
    let local_ : Int := date.toDay * 86400 + (hour * 3600 + minute * 60 + second : Nat)
    let utc := local_ - offset * 60
    some ⟨utc / 86400, (utc % 86400).toNat, nano⟩
  else
    none

/-- An offset from UTC in minutes: `Z`, or a sign, two digits of hours up to 23, a colon and two
digits of minutes. -/
def takeOffset? : List Char → Option (Int × List Char)
  | [] => none
  | c :: rest =>
    if c = 'Z' ∨ c = 'z' then some (0, rest)
    else if c = '+' ∨ c = '-' ∨ c = '\u2212' then do
      let (hours, rest) ← takeNumber? 2 (some 2) rest
      let rest ← expect? ':' rest
      let (minutes, rest) ← takeNumber? 2 (some 2) rest
      if minutes ≤ 59 ∧ hours ≤ 23 then
        let offset : Int := hours * 60 + minutes
        some (if c = '+' then offset else -offset, rest)
      else
        none
    else
      none

/-- Reads an RFC 3339 text. -/
def ofRfc3339? (cs : List Char) : Option Moment := do
  let (year, rest) ← takeNumber? 4 (some 4) cs
  let rest ← expect? '-' rest
  let (month, rest) ← takeNumber? 2 (some 2) rest
  let rest ← expect? '-' rest
  let (day, rest) ← takeNumber? 2 (some 2) rest
  let rest ← (expect? 'T' rest).or ((expect? 't' rest).or (expect? ' ' rest))
  let (hour, rest) ← takeNumber? 2 (some 2) rest
  let rest ← expect? ':' rest
  let (minute, rest) ← takeNumber? 2 (some 2) rest
  let rest ← expect? ':' rest
  let (second, rest) ← takeNumber? 2 (some 2) rest
  let (nano, rest) ← optionalFraction? rest
  let (offset, rest) ← takeOffset? rest
  if rest.isEmpty then ofParts? ⟨year, month, day⟩ hour minute second nano offset else none

/-- A list without its leading blanks. -/
def skipBlanks (cs : List Char) : List Char :=
  cs.dropWhile Text.isBlank

/-- A year after blanks: up to four digits, or a sign and any number of digits. -/
def takeYear? (cs : List Char) : Option (Int × List Char) :=
  match skipBlanks cs with
  | '-' :: rest => (takeNumber? 1 none rest).map fun (n, rest) => (-(n : Int), rest)
  | '+' :: rest => (takeNumber? 1 none rest).map fun (n, rest) => ((n : Int), rest)
  | rest => (takeNumber? 1 (some 4) rest).map fun (n, rest) => ((n : Int), rest)

/-- A number of one or two digits after blanks. -/
def takePart? (cs : List Char) : Option (Nat × List Char) :=
  takeNumber? 1 (some 2) (skipBlanks cs)

/-- A date: year, month and day between hyphens. -/
def takeDate? (cs : List Char) : Option (CalendarDate × List Char) := do
  let (year, rest) ← takeYear? cs
  let rest ← expect? '-' rest
  let (month, rest) ← takePart? rest
  let rest ← expect? '-' rest
  let (day, rest) ← takePart? rest
  some (⟨year, month, day⟩, rest)

/-- A time of day: hours, minutes, seconds and an optional fraction in nanoseconds. -/
def takeTime? (cs : List Char) : Option ((Nat × Nat × Nat × Nat) × List Char) := do
  let (hour, rest) ← takePart? cs
  let rest ← expect? ':' rest
  let (minute, rest) ← takePart? rest
  let rest ← expect? ':' rest
  let (second, rest) ← takePart? rest
  let (nano, rest) ← optionalFraction? rest
  some ((hour, minute, second, nano), rest)

/-- The rest of a moment after its date: a time of day and nothing else. -/
def ofDateAndTime? (date : CalendarDate) (cs : List Char) : Option Moment := do
  let ((hour, minute, second, nano), rest) ← takeTime? cs
  if rest.isEmpty then ofParts? date hour minute second nano 0 else none

/-- Reads a date, the letter `T`, a time of day and an offset.  Unlike in an RFC 3339 text, the year
may have a sign and then any number of digits. -/
def ofSigned? (cs : List Char) : Option Moment := do
  let (date, rest) ← takeDate? cs
  let rest ← expect? 'T' rest
  let ((hour, minute, second, nano), rest) ← takeTime? rest
  let (offset, rest) ← takeOffset? rest
  if rest.isEmpty then ofParts? date hour minute second nano offset else none

/-- Reads a text without an offset: a date and a time after `T` or after blanks, or a date alone. -/
def ofLocal? (cs : List Char) : Option Moment := do
  let (date, rest) ← takeDate? cs
  ((expect? 'T' rest).bind (ofDateAndTime? date)).or
    ((ofDateAndTime? date (skipBlanks rest)).or
      (if rest.isEmpty then ofParts? date 0 0 0 0 0 else none))

/-- Reads a text with or without an offset. -/
def ofText? (cs : List Char) : Option Moment :=
  (ofRfc3339? cs).or (ofLocal? cs)

/-- The moment a number of seconds after the beginning of 1970, if its year is represented. -/
def ofUnixSeconds? (seconds : Int) : Option Moment :=
  let day := seconds / 86400
  let year := (CalendarDate.ofDay day).year
  if CalendarDate.firstYear ≤ year ∧ year ≤ CalendarDate.lastYear then
    some ⟨day, (seconds % 86400).toNat, 0⟩
  else
    none

/-! ## Writing -/

/-- A number in decimal with leading zeros up to a width. -/
def padded (width n : Nat) : String :=
  let digits := Nat.toDigits 10 n
  String.ofList (List.replicate (width - digits.length) '0' ++ digits)

/-- A year: four digits, or a sign and at least four digits outside 0 to 9999. -/
def yearText (year : Int) : String :=
  if 0 ≤ year ∧ year ≤ 9999 then padded 4 year.toNat
  else (if year < 0 then "-" else "+") ++ padded 4 year.natAbs

/-- The date of a moment. -/
def dateText (m : Moment) : String :=
  let date := CalendarDate.ofDay m.day
  yearText date.year ++ "-" ++ padded 2 date.month ++ "-" ++ padded 2 date.day

/-- A fraction of a second: no digits, or the least of three, six and nine that is exact. -/
def fractionText (nano : Nat) : String :=
  if nano = 0 then ""
  else if nano % 1000000 = 0 then "." ++ padded 3 (nano / 1000000)
  else if nano % 1000 = 0 then "." ++ padded 6 (nano / 1000)
  else "." ++ padded 9 nano

/-- The date and the time of a moment, without an offset. -/
def localText (m : Moment) : String :=
  let second := m.second % 60 + m.nano / 1000000000
  m.dateText ++ "T" ++ padded 2 (m.second / 3600) ++ ":" ++ padded 2 (m.second / 60 % 60) ++ ":" ++
    padded 2 second ++ fractionText (m.nano % 1000000000)

/-- The date and the time of a moment, marked as UTC. -/
def utcText (m : Moment) : String :=
  m.localText ++ "Z"

end Moment
end TypedRoutes
