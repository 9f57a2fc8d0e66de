/-!
# Identifiers

An identifier is a number of 128 bits, written in hexadecimal digits in five groups.
The bits that say how an identifier was made are set as for a random one.
-/

namespace SiteConfig.Uuid

/-- The hexadecimal digit of a number below sixteen. -/
def digit (n : Nat) : Char :=
  if n < 10 then Char.ofNat ('0'.toNat + n) else Char.ofNat ('a'.toNat + (n - 10))

/-- The last digits of a number, a stated count of them. -/
def digits : Nat → Nat → List Char
  | 0, _ => []
  | k + 1, n => digits k (n / 16) ++ [digit (n % 16)]

/-- **The text of an identifier.** The thirteenth digit is 4 and the seventeenth one
of 8, 9, a and b. -/
def text (n : Nat) : String :=
  let ds := digits 32 n
  let variant := digit (8 + n / Nat.pow 16 15 % 4)
  let group (start count : Nat) : List Char := (ds.drop start).take count
  String.ofList (group 0 8 ++ ['-'] ++ group 8 4 ++ ['-', '4'] ++ group 13 3 ++ ['-', variant] ++
    group 17 3 ++ ['-'] ++ group 20 12)

end SiteConfig.Uuid
