import EntityQuery.Text.Split
import EntityQuery.Value.Binary64

/-!
Dates of the Gregorian calendar and instants in coordinated universal time.

* A date is a year, a month and a day; `Date.toDays` and `Date.ofDays` count days from 1970-01-01.
* A timestamp is a day number, a second of the day and nanoseconds; nanoseconds from `10 ^ 9` on
  are those of a leap second.
* Texts may leave out leading zeros and have blanks around their separators; a timestamp names
  its offset from universal time.
-/

namespace EntityQuery

/-! ### Dates -/

structure Date where
  year : Int
  month : Nat
  day : Nat
  deriving DecidableEq, Repr, Inhabited

namespace Date

def isLeap (year : Int) : Bool := year % 4 == 0 && (year % 100 != 0 || year % 400 == 0)

/-- The days of a month; `0` for a number that names no month. -/
def daysIn (year : Int) (month : Nat) : Nat :=
  match month with
  | 2 => if isLeap year then 29 else 28
  | 4 | 6 | 9 | 11 => 30
  | 1 | 3 | 5 | 7 | 8 | 10 | 12 => 31
  | _ => 0

/-- The first year of the calendar. -/
def firstYear : Int := -262143

/-- The last year of the calendar. -/
def lastYear : Int := 262142

/-- The date with these numbers, if there is one and its year is in range. -/
def ofParts? (year : Int) (month day : Nat) : Option Date :=
  if firstYear ≤ year ∧ year ≤ lastYear ∧ 1 ≤ day ∧ day ≤ daysIn year month then
    some ⟨year, month, day⟩
  else none

/-- Days since 1970-01-01. Years are counted from March, so that a leap day is the last of its
year, in eras of 400 years. -/
def toDays (d : Date) : Int :=
  let y := if d.month ≤ 2 then d.year - 1 else d.year
  let era := y / 400
  let yearOfEra := y % 400
  let monthFromMarch : Int := (d.month + 9) % 12
  let dayOfYear := (153 * monthFromMarch + 2) / 5 + (d.day : Int) - 1
  let dayOfEra := yearOfEra * 365 + yearOfEra / 4 - yearOfEra / 100 + dayOfYear
  era * 146097 + dayOfEra - 719468

/-- The first day of the calendar. -/
def firstDay : Int := toDays ⟨firstYear, 1, 1⟩

/-- The last day of the calendar. -/
def lastDay : Int := toDays ⟨lastYear, 12, 31⟩

/-- The date a number of days after 1970-01-01. -/
def ofDays (n : Int) : Date :=
  let z := n + 719468
  let era := z / 146097
  let dayOfEra := z % 146097
  let yearOfEra := (dayOfEra - dayOfEra / 1460 + dayOfEra / 36524 - dayOfEra / 146096) / 365
  let dayOfYear := dayOfEra - (365 * yearOfEra + yearOfEra / 4 - yearOfEra / 100)
  let m := (5 * dayOfYear + 2) / 153
  let day := dayOfYear - (153 * m + 2) / 5 + 1
  let month := if m < 10 then m + 3 else m - 9
  let year := yearOfEra + era * 400 + if month ≤ 2 then 1 else 0
  ⟨year, month.toNat, day.toNat⟩

/-! ### Text -/

/-- A number with zeros in front up to a width. -/
def padded (width n : Nat) : String :=
  let cs := Nat.toDigits 10 n
  String.ofList (List.replicate (width - cs.length) '0' ++ cs)

/-- Four digits; a year outside `0 .. 9999` shows its sign and takes five places at least. -/
def yearText (y : Int) : String :=
  if 0 ≤ y ∧ y ≤ 9999 then padded 4 y.toNat
  else (if y < 0 then "-" else "+") ++ padded 4 y.natAbs

def text (d : Date) : String :=
  yearText d.year ++ "-" ++ padded 2 d.month ++ "-" ++ padded 2 d.day

/-- A number of one up to `width` digits after white space. -/
def readNat (width : Nat) (cs : List Char) : Option (Nat × List Char) :=
  let cs := Text.trimLeft cs
  let ds := (cs.takeWhile Char.isDigit).take width
  if ds = [] then none else some (Binary64.digitsValue ds, cs.drop ds.length)

/-- A year: up to four digits, or a sign and any number of digits. -/
def readYear (cs : List Char) : Option (Int × List Char) :=
  match Text.trimLeft cs with
  | '-' :: rest => signed rest fun n => -(n : Int)
  | '+' :: rest => signed rest fun n => (n : Int)
  | rest => (readNat 4 rest).map fun (n, rest) => ((n : Int), rest)
where
  signed (rest : List Char) (f : Nat → Int) : Option (Int × List Char) :=
    let ds := rest.takeWhile Char.isDigit
    if ds = [] then none else some (f (Binary64.digitsValue ds), rest.dropWhile Char.isDigit)

/-- A separator after white space. -/
def readMark (c : Char) (cs : List Char) : Option (List Char) :=
  match Text.trimLeft cs with
  | d :: rest => if d = c then some rest else none
  | [] => none

/-- A date and the rest of the text. -/
def read (cs : List Char) : Option (Date × List Char) := do
  let (year, cs) ← readYear cs
  let cs ← readMark '-' cs
  let (month, cs) ← readNat 2 cs
  let cs ← readMark '-' cs
  let (day, cs) ← readNat 2 cs
  let date ← ofParts? year month day
  return (date, cs)

/-- The date a text is. -/
def ofText? (s : String) : Option Date := do
  let (date, rest) ← read s.toList
  if Text.trimLeft rest = [] then some date else none

end Date

/-! ### Timestamps -/

structure Timestamp where
  day : Int
  second : Nat
  nano : Nat
  deriving DecidableEq, Repr, Inhabited

namespace Timestamp

/-- The fraction of a second in thousandths, millionths or billionths, whatever is exact. -/
def fractionText (nano : Nat) : String :=
  if nano = 0 then ""
  else if nano % 1000000 = 0 then "." ++ Date.padded 3 (nano / 1000000)
  else if nano % 1000 = 0 then "." ++ Date.padded 6 (nano / 1000)
  else "." ++ Date.padded 9 nano

/-- Date and time with a mark for the offset. -/
def textWith (offset : String) (t : Timestamp) : String :=
  let second := t.second % 60 + t.nano / 1000000000
  (Date.ofDays t.day).text ++ "T" ++ Date.padded 2 (t.second / 3600) ++ ":" ++
    Date.padded 2 (t.second / 60 % 60) ++ ":" ++ Date.padded 2 second ++
    fractionText (t.nano % 1000000000) ++ offset

/-- A timestamp with its offset in digits. -/
def text (t : Timestamp) : String := t.textWith "+00:00"

/-- A timestamp with the letter for no offset. -/
def zuluText (t : Timestamp) : String := t.textWith "Z"

/-- The nanoseconds after a point: nine digits count, further ones are passed over. -/
def readFraction : List Char → Option (Nat × List Char)
  | '.' :: rest =>
    let ds := (rest.takeWhile Char.isDigit).take 9
    if ds = [] then none
    else some (Binary64.digitsValue ds * Nat.pow 10 (9 - ds.length), rest.dropWhile Char.isDigit)
  | cs => some (0, cs)

/-- Two digits. -/
def readPair : List Char → Option (Nat × List Char)
  | a :: b :: rest =>
    if a.isDigit && b.isDigit then some (Binary64.digitsValue [a, b], rest) else none
  | _ => none

/-- The seconds of an offset: a letter or word for none, or a sign, hours and minutes. -/
def readOffset (cs : List Char) : Option (Int × List Char) :=
  match cs with
  | 'Z' :: rest => some (0, rest)
  | 'z' :: rest => some (0, rest)
  | c :: rest =>
    if (c :: rest).length ≥ 3 ∧ ((c :: rest).take 3).map Char.toUpper = ['U', 'T', 'C'] then
      some (0, (c :: rest).drop 3)
    else if c = '+' ∨ c = '-' ∨ c.toNat = 0x2212 then do
      let (hours, rest) ← readPair rest
      let (minutes, rest) ← readPair (rest.dropWhile fun c => c == ':' || Text.isBlank c)
      if 60 ≤ minutes ∨ 24 ≤ hours then none
      else
        let n : Int := hours * 3600 + minutes * 60
        some (if c = '+' then n else -n, rest)
    else none
  | [] => none

/-- The instant a text names: a date, a mark, a time of day and an offset. -/
def ofText? (s : String) : Option Timestamp := do
  let (date, cs) ← Date.read s.toList
  let cs ← match cs with
    | 'T' :: rest => some rest
    | 't' :: rest => some rest
    | ' ' :: rest => some rest
    | _ => none
  let (hour, cs) ← Date.readNat 2 cs
  let cs ← Date.readMark ':' cs
  let (minute, cs) ← Date.readNat 2 cs
  let cs ← Date.readMark ':' cs
  let (second, cs) ← Date.readNat 2 cs
  let (nano, cs) ← readFraction cs
  let (offset, cs) ← readOffset (Text.trimLeft cs)
  if Text.trimLeft cs ≠ [] ∨ 24 ≤ hour ∨ 60 ≤ minute ∨ 61 ≤ second then none
  else
    let leap := second = 60
    let ofDay : Int := hour * 3600 + minute * 60 + (if leap then 59 else second)
    let total := date.toDays * 86400 + ofDay - offset
    let day := total / 86400
    if Date.firstDay ≤ day ∧ day ≤ Date.lastDay then
      some ⟨day, (total % 86400).toNat, nano + if leap then 1000000000 else 0⟩
    else none

end Timestamp

end EntityQuery
