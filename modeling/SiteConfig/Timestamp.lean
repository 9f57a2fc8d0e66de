/-!
# Points in time

A timestamp counts the seconds since the first of January 1970, in UTC, and the
nanoseconds after that. A leap second is the second before it with a thousand
million nanoseconds or more.

`SiteConfig.Timestamp.parse?` reads a date and a time with their offset, leniently:
blanks may stand before each number, and numbers may lack leading zeros.
`SiteConfig.Timestamp.text` writes the one canonical form.
-/

namespace SiteConfig

/-- A point in time. -/
structure Timestamp where
  seconds : Int
  nanos : Nat
  deriving DecidableEq, Repr

namespace Timestamp

instance : Inhabited Timestamp := ⟨⟨0, 0⟩⟩

/-- Whether a point in time is before another one. -/
def before (a b : Timestamp) : Bool :=
  a.seconds < b.seconds || (a.seconds == b.seconds && a.nanos < b.nanos)

/-- The nanoseconds from one point in time to another. -/
def since (a b : Timestamp) : Int :=
  (a.seconds - b.seconds) * 1000000000 + ((a.nanos : Int) - b.nanos)

/-! ### The calendar -/

/-- Whether a year has a twenty-ninth of February. -/
def isLeapYear (y : Int) : Bool := y % 4 == 0 && (y % 100 != 0 || y % 400 == 0)

/-- The number of days of a month. -/
def daysInMonth (y : Int) (m : Nat) : Nat :=
  match m with
  | 2 => if isLeapYear y then 29 else 28
  | 4 => 30
  | 6 => 30
  | 9 => 30
  | 11 => 30
  | _ => 31

/-- The days from the first of January 1970 to a date. Years are counted from March,
so that the leap day is the last one. -/
def daysOfDate (y : Int) (m d : Nat) : Int :=
  let y' := if m ≤ 2 then y - 1 else y
  let era := y'.fdiv 400
  let yearOfEra := y' - era * 400
  let monthFromMarch : Int := (m + 9) % 12
  let dayOfYear := (153 * monthFromMarch + 2) / 5 + d - 1
  let dayOfEra := yearOfEra * 365 + yearOfEra / 4 - yearOfEra / 100 + dayOfYear
  era * 146097 + dayOfEra - 719468

/-- The date a number of days after the first of January 1970. -/
def dateOfDays (days : Int) : Int × Nat × Nat :=
  let z := days + 719468
  let era := z.fdiv 146097
  let dayOfEra := z - era * 146097
  let yearOfEra :=
    (dayOfEra - dayOfEra / 1460 + dayOfEra / 36524 - dayOfEra / 146096) / 365
  let dayOfYear := dayOfEra - (365 * yearOfEra + yearOfEra / 4 - yearOfEra / 100)
  let monthFromMarch := (5 * dayOfYear + 2) / 153
  let d := (dayOfYear - (153 * monthFromMarch + 2) / 5 + 1).toNat
  let m := (if monthFromMarch < 10 then monthFromMarch + 3 else monthFromMarch - 9).toNat
  let y := yearOfEra + era * 400
  (if m ≤ 2 then y + 1 else y, m, d)

/-! ### Writing -/

/-- A number with at least some digits. -/
def padded (width : Nat) (n : Nat) : String :=
  let ds := toString n
  String.ofList (List.replicate (width - ds.length) '0') ++ ds

/-- Date and time of day, joined by a text. -/
def dateTimeText (t : Timestamp) (joint : String) : String :=
  let (y, m, d) := dateOfDays (t.seconds.fdiv 86400)
  let s := (t.seconds - t.seconds.fdiv 86400 * 86400).toNat
  let year :=
    if 0 ≤ y ∧ y ≤ 9999 then padded 4 y.toNat
    else if y < 0 then "-" ++ padded 4 (-y).toNat
    else "+" ++ padded 4 y.toNat
  let second := if 1000000000 ≤ t.nanos then s % 60 + 1 else s % 60
  year ++ "-" ++ padded 2 m ++ "-" ++ padded 2 d ++ joint ++
    padded 2 (s / 3600) ++ ":" ++ padded 2 (s / 60 % 60) ++ ":" ++ padded 2 second

/-- The fraction of a second: none, or three, six or nine digits. -/
def fractionText (t : Timestamp) : String :=
  let n := t.nanos % 1000000000
  if n = 0 then ""
  else if n % 1000000 = 0 then "." ++ padded 3 (n / 1000000)
  else if n % 1000 = 0 then "." ++ padded 6 (n / 1000)
  else "." ++ padded 9 n

/-- **The canonical text.** -/
def text (t : Timestamp) : String := t.dateTimeText "T" ++ t.fractionText ++ "Z"

/-! ### Reading -/

/-- Drops blanks at the front. -/
def skip (cs : List Char) : List Char := cs.dropWhile fun c => c.isWhitespace || c = '\x0b' || c = '\x0c'

/-- The value of a list of digits. -/
def digitsValue (ds : List Char) : Nat :=
  ds.foldl (fun n c => 10 * n + (c.toNat - '0'.toNat)) 0

/-- A number of at most some digits, after blanks. -/
def number? (most : Nat) (cs : List Char) : Option (Nat × List Char) :=
  let cs := skip cs
  let ds := (cs.takeWhile Char.isDigit).take most
  if ds.isEmpty then none else some (digitsValue ds, cs.drop ds.length)

/-- A year: of four digits, or with a sign of any number of them. -/
def year? (cs : List Char) : Option (Int × List Char) :=
  match skip cs with
  | '-' :: r =>
    let ds := r.takeWhile Char.isDigit
    if ds.isEmpty then none else some (-(digitsValue ds : Int), r.dropWhile Char.isDigit)
  | '+' :: r =>
    let ds := r.takeWhile Char.isDigit
    if ds.isEmpty then none else some ((digitsValue ds : Int), r.dropWhile Char.isDigit)
  | r => (number? 4 r).map fun (n, r) => ((n : Int), r)

/-- One character, after blanks. -/
def mark? (c : Char) (cs : List Char) : Option (List Char) :=
  match skip cs with
  | d :: r => if c = d then some r else none
  | [] => none

/-- The fraction of a second in nanoseconds; digits after the ninth do not count. -/
def fraction? (cs : List Char) : Option (Nat × List Char) :=
  match cs with
  | '.' :: r =>
    let ds := (r.takeWhile Char.isDigit).take 9
    if ds.isEmpty then none
    else some (digitsValue ds * Nat.pow 10 (9 - ds.length), r.dropWhile Char.isDigit)
  | r => some (0, r)

/-- The offset from UTC in seconds. -/
def offset? (cs : List Char) : Option (Int × List Char) :=
  let signed (negative : Bool) (r : List Char) : Option (Int × List Char) :=
    match r with
    | a :: b :: r =>
      if a.isDigit && b.isDigit then
        match r.dropWhile fun c => c = ':' || c.isWhitespace with
        | x :: y :: r =>
          if '0' ≤ x && x ≤ '5' && y.isDigit then
            let s : Int := digitsValue [a, b] * 3600 + digitsValue [x, y] * 60
            some (if negative then -s else s, r)
          else none
        | _ => none
      else none
    | _ => none
  match cs with
  | 'Z' :: r => some (0, r)
  | 'z' :: r => some (0, r)
  | '+' :: r => signed false r
  | '-' :: r => signed true r
  | '−' :: r => signed true r
  | a :: b :: c :: r =>
    if [a.toUpper, b.toUpper, c.toUpper] = ['U', 'T', 'C'] then some (0, r) else none
  | _ => none

/-- **The point in time of a text.** -/
def parse? (s : String) : Option Timestamp := do
  let (y, r) ← year? s.toList
  let (m, r) ← number? 2 (← mark? '-' r)
  let (d, r) ← number? 2 (← mark? '-' r)
  let r ← match r with
    | c :: r => if c = 'T' ∨ c = 't' ∨ c = ' ' then some r else none
    | [] => none
  let (hour, r) ← number? 2 r
  let (minute, r) ← number? 2 (← mark? ':' r)
  let (second, r) ← number? 2 (← mark? ':' r)
  let (nanos, r) ← fraction? r
  let (offset, r) ← offset? (skip r)
  if !(skip r).isEmpty then none
  else if y < -262143 ∨ 262142 < y then none
  else if m < 1 ∨ 12 < m ∨ d < 1 ∨ daysInMonth y m < d then none
  else if 23 < hour ∨ 59 < minute ∨ 60 < second then none
  else if offset ≤ -86400 ∨ 86400 ≤ offset then none
  else
    let (second, nanos) := if second = 60 then (59, nanos + 1000000000) else (second, nanos)
    let local_ : Int := daysOfDate y m d * 86400 + hour * 3600 + minute * 60 + second
    some ⟨local_ - offset, nanos⟩

end Timestamp

end SiteConfig
