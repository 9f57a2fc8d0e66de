/-!
# Double precision numbers, exactly

A `SiteConfig.Binary64` is a finite number `±m · 2^e`, an infinity or not a
number. The finite ones are kept in the one form in which the significand has at
most 53 bits and is as large as the exponent's floor of `-1074` allows, so that a
number other than zero has a single form.

`SiteConfig.Binary64.ofDecimal` rounds a decimal number to the nearest double, a
tie to the even significand. No machine float takes part: both the rounding and
the digits that are printed (`SiteConfig.Number.Shortest`) are integer
arithmetic.
-/

namespace SiteConfig

/-- A number of double precision. -/
inductive Binary64 where
  | nan
  | infinity (negative : Bool)
  | finite (negative : Bool) (m : Nat) (e : Int)
  deriving DecidableEq, Repr

namespace Binary64

/-- The least exponent of a finite number. -/
def minExponent : Int := -1074

/-- Zero, with a sign. -/
def zero (negative : Bool) : Binary64 := .finite negative 0 minExponent

/-- The quotient rounded to the nearest integer, a tie to the even one. -/
def roundHalfEven (num den : Nat) : Nat :=
  let q := num / den
  let r := num % den
  if 2 * r < den then q
  else if den < 2 * r then q + 1
  else if q % 2 = 0 then q else q + 1

/-- The double nearest to `±num / den`; beyond the largest one, an infinity. -/
def ofRatio (negative : Bool) (num den : Nat) : Binary64 :=
  if num = 0 then zero negative
  else
    -- at this exponent the significand has 53 or 54 bits, or the exponent is the least one
    let e₀ : Int := max minExponent ((num.log2 : Int) - den.log2 - 53)
    let scaled (e : Int) : Nat × Nat :=
      if 0 ≤ e then (num, den * Nat.pow 2 e.toNat) else (num * Nat.pow 2 (-e).toNat, den)
    let (n₀, d₀) := scaled e₀
    let e := if n₀ / d₀ < Nat.pow 2 53 then e₀ else e₀ + 1
    let (n, d) := scaled e
    let q := roundHalfEven n d
    let (m, e) := if q = Nat.pow 2 53 then (Nat.pow 2 52, e + 1) else (q, e)
    if 971 < e then .infinity negative else .finite negative m e

/-- The double nearest to `±digits · 10^exponent`. Numbers far outside the range
are decided by their size, so that no huge power is computed. -/
def ofDecimal (negative : Bool) (digits : Nat) (exponent : Int) : Binary64 :=
  if digits = 0 then zero negative
  else
    let size := (digits.log2 : Int) * 3 / 10 + exponent
    if 400 < size then .infinity negative
    else if size < -800 then zero negative
    else if 0 ≤ exponent then ofRatio negative (digits * Nat.pow 10 exponent.toNat) 1
    else ofRatio negative digits (Nat.pow 10 (-exponent).toNat)

/-- Whether the number is finite. -/
def isFinite : Binary64 → Bool
  | .finite .. => true
  | _ => false

/-- Equality of numbers: both zeros are equal, and so is every `nan` to itself. -/
def same : Binary64 → Binary64 → Bool
  | .nan, .nan => true
  | .infinity s, .infinity t => s == t
  | .finite s m e, .finite t n f => (m == 0 && n == 0) || (s == t && m == n && e == f)
  | _, _ => false

/-- The number as an integer, when it is whole. -/
def toInt? : Binary64 → Option Int
  | .finite s m e =>
    let sign : Int := if s then -1 else 1
    if 0 ≤ e then some (sign * m * Nat.pow 2 e.toNat)
    else
      let d := Nat.pow 2 (-e).toNat
      if m % d = 0 then some (sign * (m / d : Nat)) else none
  | _ => none

/-- Whether the first finite number is less than the second. -/
def lt : Binary64 → Binary64 → Bool
  | .finite s m e, .finite t n f =>
    let low := min e f
    let scale (neg : Bool) (k : Nat) (g : Int) : Int :=
      (if neg then -1 else 1) * k * Nat.pow 2 (g - low).toNat
    scale s m e < scale t n f
  | .infinity s, .infinity t => s && !t
  | .infinity s, .finite .. => s
  | .finite .., .infinity t => !t
  | _, _ => false

theorem same_refl (x : Binary64) : x.same x = true := by
  cases x <;> simp [same]

theorem same_symm (x y : Binary64) : x.same y = y.same x := by
  cases x <;> cases y <;> simp [same, Bool.beq_comm]
  grind

theorem same_trans {x y z : Binary64} (h : x.same y = true) (h' : y.same z = true) :
    x.same z = true := by
  cases x <;> cases y <;> cases z <;> simp_all [same]
  grind

end Binary64

end SiteConfig
