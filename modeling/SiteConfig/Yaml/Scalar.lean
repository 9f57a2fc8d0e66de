import SiteConfig.Yaml.Value

/-!
# What a plain scalar means

A scalar without quotes is read by its spelling: as null, a boolean, an integer, a
float, or else as the string that it is (`SiteConfig.Yaml.Scalar.resolve`). The
same rule decides which strings must be quoted when they are written: those that
would be read back as something else.

Integers carry an optional sign and may be written to the bases 16, 8 and 2 with
the marks `0x`, `0o` and `0b`. Digits with a leading zero are a string, not a
number. An integer of more than 64 bits but at most 128 has no value; a longer one
is read as a float.
-/

namespace SiteConfig.Yaml.Scalar

/-- What a spelling stands for. -/
inductive Meaning where
  | null
  | bool (b : Bool)
  | int (i : Int)
  /-- An integer that needs more than 64 bits. -/
  | wideInt
  | float (x : Binary64)
  | string
  deriving DecidableEq, Repr

/-! ### Digits -/

/-- The value of a digit to any base up to 16. -/
def digitValue? (c : Char) : Option Nat :=
  if '0' ≤ c ∧ c ≤ '9' then some (c.toNat - '0'.toNat)
  else if 'a' ≤ c ∧ c ≤ 'f' then some (c.toNat - 'a'.toNat + 10)
  else if 'A' ≤ c ∧ c ≤ 'F' then some (c.toNat - 'A'.toNat + 10)
  else none

/-- The number that a nonempty text of digits stands for. -/
def readDigits? (base : Nat) (cs : List Char) : Option Nat :=
  if cs.isEmpty then none
  else cs.foldlM (fun n c => (digitValue? c).bind fun d =>
    if d < base then some (base * n + d) else none) 0

/-- Whether a text is digits with a leading zero, a sign aside. -/
def isPaddedDigits (cs : List Char) : Bool :=
  let body := match cs with
    | '-' :: r => r
    | '+' :: r => r
    | r => r
  match body with
  | '0' :: d :: r => (d :: r).all Char.isDigit
  | _ => false

/-! ### Integers -/

/-- An unsigned integer below a bound, with an optional plus sign. -/
def readUnsigned? (bound : Nat) (cs : List Char) : Option Nat :=
  let body := match cs with
    | '+' :: r => r
    | r => r
  let within (n : Option Nat) : Option Nat := n.filter (· < bound)
  match body with
  | '0' :: 'x' :: r => within (readDigits? 16 r)
  | '0' :: 'o' :: r => within (readDigits? 8 r)
  | '0' :: 'b' :: r => within (readDigits? 2 r)
  | r => if isPaddedDigits cs then none else within (readDigits? 10 r)

/-- A negative integer not below `-bound`. -/
def readNegative? (bound : Nat) (cs : List Char) : Option Int :=
  let within (n : Option Nat) : Option Int := (n.filter (· ≤ bound)).map fun k => -(k : Int)
  match cs with
  | '-' :: '0' :: 'x' :: r => within (readDigits? 16 r)
  | '-' :: '0' :: 'o' :: r => within (readDigits? 8 r)
  | '-' :: '0' :: 'b' :: r => within (readDigits? 2 r)
  | '-' :: r => if isPaddedDigits cs then none else within (readDigits? 10 r)
  | _ => none

/-- The integer that a spelling stands for, or that it is too wide. -/
def readInt? (cs : List Char) : Option Meaning :=
  match readUnsigned? (Nat.pow 2 64) cs with
  | some n => some (.int n)
  | none =>
    match readNegative? (Nat.pow 2 63) cs with
    | some i => some (.int i)
    | none =>
      if (readUnsigned? (Nat.pow 2 128) cs).isSome || (readNegative? (Nat.pow 2 127) cs).isSome then
        some .wideInt
      else none

/-! ### Floats -/

/-- A decimal number: digits with an optional point, at least one digit, and an
optional exponent; with its sign. Powers of ten are counted, not multiplied out. -/
def readDecimal? (cs : List Char) : Option Binary64 :=
  let (negative, body) := match cs with
    | '-' :: r => (true, r)
    | '+' :: r => (false, r)
    | r => (false, r)
  let whole := body.takeWhile Char.isDigit
  let afterWhole := body.dropWhile Char.isDigit
  let (fraction, afterPoint) := match afterWhole with
    | '.' :: r => (r.takeWhile Char.isDigit, r.dropWhile Char.isDigit)
    | r => ([], r)
  let exponent? : Option Int := match afterPoint with
    | [] => some 0
    | e :: r =>
      if e = 'e' ∨ e = 'E' then
        match r with
        | '-' :: ds => (readDigits? 10 ds).map fun n => -(n : Int)
        | '+' :: ds => (readDigits? 10 ds).map Int.ofNat
        | ds => (readDigits? 10 ds).map Int.ofNat
      else none
  match readDigits? 10 (whole ++ fraction), exponent? with
  | some n, some e => some (Binary64.ofDecimal negative n (e - fraction.length))
  | _, _ => none

/-- The float that a spelling stands for. A number beyond the range is none. -/
def readFloat? (cs : List Char) : Option Binary64 :=
  let unsigned? := match cs with
    | '+' :: '+' :: _ => none
    | '+' :: '-' :: _ => none
    | '+' :: r => some r
    | r => some r
  unsigned?.bind fun body =>
    let word := String.ofList body
    if word = ".inf" ∨ word = ".Inf" ∨ word = ".INF" then some (.infinity false)
    else if word = "-.inf" ∨ word = "-.Inf" ∨ word = "-.INF" then some (.infinity true)
    else if String.ofList cs = ".nan" ∨ String.ofList cs = ".NaN" ∨ String.ofList cs = ".NAN" then
      some .nan
    else (readDecimal? body).filter (·.isFinite)

/-! ### The rule -/

/-- The spellings of null, the empty one aside. -/
def isNullWord (s : String) : Bool := s == "null" || s == "Null" || s == "NULL" || s == "~"

/-- The spellings of the booleans. -/
def readBool? (s : String) : Option Bool :=
  if s = "true" ∨ s = "True" ∨ s = "TRUE" then some true
  else if s = "false" ∨ s = "False" ∨ s = "FALSE" then some false
  else none

/-- **What a plain scalar means**: the first reading that fits its spelling. -/
def resolve (s : String) : Meaning :=
  let cs := s.toList
  if s.isEmpty ∨ isNullWord s then .null
  else
    match readBool? s with
    | some b => .bool b
    | none =>
      match readInt? cs with
      | some m => m
      | none =>
        if isPaddedDigits cs then .string
        else
          match readFloat? cs with
          | some x => .float x
          | none => .string

end SiteConfig.Yaml.Scalar
