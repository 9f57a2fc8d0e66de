import SiteConfig.Number.Binary64

/-!
# The fewest digits that read back

The text of a finite double is the shortest decimal number that rounds to it, and
of several of that length the one nearest to it
(`SiteConfig.Binary64.shortest`). A double stands for every real number between
the midpoints to its two neighbours, the midpoints themselves included when its
significand is even; for each number of digits the two multiples of the place
value around the double are tried, until one lies in that interval.

Where the digits stand is a matter of the output format: `SiteConfig.FloatStyle`
says at which sizes a text turns to exponents, and how an exponent is written.
-/

namespace SiteConfig

namespace Binary64

/-- The reals that round to a double, as fractions over one denominator: the
value, the two ends, and whether the ends belong to the interval. -/
structure Interval where
  value : Nat
  low : Nat
  high : Nat
  den : Nat
  closed : Bool

/-- The interval of `m · 2^e`, in quarters of the last binary place. -/
def interval (m : Nat) (e : Int) : Interval :=
  let below := if m = Nat.pow 2 52 ∧ minExponent < e then 1 else 2
  let (up, den) := if 2 ≤ e then (Nat.pow 2 (e - 2).toNat, 1) else (1, Nat.pow 2 (2 - e).toNat)
  { value := 4 * m * up, low := (4 * m - below) * up, high := (4 * m + 2) * up, den
    closed := m % 2 = 0 }

/-- Whether `n · 10^p` lies in the interval. -/
def Interval.holds (i : Interval) (n : Nat) (p : Int) : Bool :=
  let (x, d) := if 0 ≤ p then (n * Nat.pow 10 p.toNat, 1) else (n, Nat.pow 10 (-p).toNat)
  if i.closed then i.low * d ≤ x * i.den && x * i.den ≤ i.high * d
  else i.low * d < x * i.den && x * i.den < i.high * d

/-- The number of decimal digits of a natural number. -/
def digitCount (n : Nat) : Nat := (Nat.toDigits 10 n).length

/-- The exponent of the first digit of `num / den`. -/
def leadingExponent (num den : Nat) : Int :=
  if den ≤ num then (digitCount (num / den) : Int) - 1
  else
    match (List.range 330).find? (fun j => den ≤ num * Nat.pow 10 j) with
    | some j => -(j : Int)
    | none => -330

/-- The candidate of `n` digits: of the two multiples of the place value around
the double, those in the interval, and of these the nearer one. -/
def candidate? (i : Interval) (lead : Int) (n : Nat) : Option (Nat × Int) :=
  let p := lead - n + 1
  let (num, den) :=
    if 0 ≤ p then (i.value, i.den * Nat.pow 10 p.toNat) else (i.value * Nat.pow 10 (-p).toNat, i.den)
  let q := num / den
  let r := num % den
  match i.holds q p, i.holds (q + 1) p with
  | true, true => some (if 2 * r < den ∨ (2 * r = den ∧ q % 2 = 0) then (q, p) else (q + 1, p))
  | true, false => some (q, p)
  | false, true => some (q + 1, p)
  | false, false => none

/-- Drops the zeros at the end of a number, counting them into the exponent. -/
def trimZeros (n : Nat) (p : Int) : Nat × Int :=
  if h : 0 < n ∧ n % 10 = 0 then trimZeros (n / 10) (p + 1) else (n, p)
termination_by n
decreasing_by omega

/-- The digits and the exponent of the shortest decimal of `m · 2^e`, where `m` is
not zero. Seventeen digits always suffice. -/
def shortest (m : Nat) (e : Int) : Nat × Int :=
  let i := interval m e
  let lead := leadingExponent i.value i.den
  match (List.range 17).findSome? (fun n => candidate? i lead (n + 1)) with
  | some (n, p) => trimZeros n p
  | none => (m, 0)

end Binary64

/-! ### Texts -/

/-- Where a format puts the point, and how it writes exponents and the numbers
that are not finite. -/
structure FloatStyle where
  /-- The greatest number of digits before the point in a text without exponent. -/
  maxWhole : Nat
  /-- The greatest number of zeros between the point and the first digit. -/
  maxLeading : Nat
  /-- The mark of an exponent that is not negative. -/
  plus : String
  nan : String
  infinity : String

namespace FloatStyle

/-- The text of `ds · 10^p`, where `ds` is a string of digits. -/
def place (style : FloatStyle) (ds : List Char) (p : Int) : String :=
  let n : Int := ds.length
  let whole := n + p
  if 0 ≤ p ∧ whole ≤ style.maxWhole then
    String.ofList (ds ++ List.replicate p.toNat '0') ++ ".0"
  else if 0 < whole ∧ whole ≤ style.maxWhole then
    String.ofList (ds.take whole.toNat) ++ "." ++ String.ofList (ds.drop whole.toNat)
  else if whole ≤ 0 ∧ -whole ≤ style.maxLeading then
    "0." ++ String.ofList (List.replicate (-whole).toNat '0' ++ ds)
  else
    let exponent := whole - 1
    let mark := if 0 ≤ exponent then style.plus ++ toString exponent else toString exponent
    match ds with
    | [d] => String.ofList [d] ++ "e" ++ mark
    | d :: r => String.ofList (d :: '.' :: r) ++ "e" ++ mark
    | [] => ""

/-- The text of a number. -/
def text (style : FloatStyle) : Binary64 → String
  | .nan => style.nan
  | .infinity s => if s then "-" ++ style.infinity else style.infinity
  | .finite s m e =>
    let body :=
      if m = 0 then "0.0"
      else
        let (n, p) := Binary64.shortest m e
        style.place (Nat.toDigits 10 n) p
    if s then "-" ++ body else body

/-- Positional at every size: the way numbers are quoted in messages. -/
def positional : FloatStyle :=
  { maxWhole := 400, maxLeading := 400, plus := "", nan := "NaN", infinity := "inf" }

end FloatStyle

end SiteConfig
