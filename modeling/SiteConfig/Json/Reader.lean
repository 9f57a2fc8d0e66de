import SiteConfig.Json.Value

/-!
# Reading JSON

`SiteConfig.Json.read?` gives the value of a text, none when the text is not JSON.
Numbers without point and exponent are integers while they fit 64 bits; a number
beyond the range of doubles is refused, as is nesting of
`SiteConfig.Json.maxDepth` levels.
-/

namespace SiteConfig.Json

/-- The depth of nesting that is refused. -/
def maxDepth : Nat := 128

/-- Drops blanks. -/
def dropBlanks (cs : List Char) : List Char :=
  cs.dropWhile fun c => c == ' ' || c == '\t' || c == '\n' || c == '\r'

/-! ### Strings -/

/-- The value of a hexadecimal digit. -/
def hexDigit? (c : Char) : Option Nat :=
  if c.isDigit then some (c.toNat - '0'.toNat)
  else if 'a' ≤ c ∧ c ≤ 'f' then some (c.toNat - 'a'.toNat + 10)
  else if 'A' ≤ c ∧ c ≤ 'F' then some (c.toNat - 'A'.toNat + 10)
  else none

/-- The unit that four hexadecimal digits stand for. -/
def unit? (a b c d : Char) : Option Nat := do
  let a ← hexDigit? a
  let b ← hexDigit? b
  let c ← hexDigit? c
  let d ← hexDigit? d
  some (((16 * a + b) * 16 + c) * 16 + d)

/-- The character that one letter after a backslash stands for. -/
def letter? : Char → Option Char
  | '"' => some '"'
  | '\\' => some '\\'
  | '/' => some '/'
  | 'b' => some '\x08'
  | 'f' => some '\x0c'
  | 'n' => some '\n'
  | 'r' => some '\r'
  | 't' => some '\t'
  | _ => none

/-- The characters up to the closing quote, and the text after it. A pair of
surrogates is one character; a single one is refused. -/
def readString? : List Char → Option (List Char × List Char)
  | [] => none
  | '"' :: r => some ([], r)
  | '\\' :: 'u' :: a :: b :: c :: d :: r => do
    let n ← unit? a b c d
    if 0xD800 ≤ n ∧ n < 0xDC00 then
      match r with
      | '\\' :: 'u' :: a :: b :: c :: d :: r =>
        let m ← unit? a b c d
        if 0xDC00 ≤ m ∧ m < 0xE000 then
          let (t, r) ← readString? r
          some (Char.ofNat (0x10000 + (n - 0xD800) * 0x400 + (m - 0xDC00)) :: t, r)
        else none
      | _ => none
    else if 0xDC00 ≤ n ∧ n < 0xE000 then none
    else
      let (t, r) ← readString? r
      some (Char.ofNat n :: t, r)
  | '\\' :: e :: r => do
    let c ← letter? e
    let (t, r) ← readString? r
    some (c :: t, r)
  | c :: r =>
    if c.toNat < 0x20 || c == '\\' then none
    else (readString? r).map fun (t, r) => (c :: t, r)

/-! ### Numbers -/

/-- The number of a text of digits. -/
def digitsValue (ds : List Char) : Nat :=
  ds.foldl (fun n d => 10 * n + (d.toNat - '0'.toNat)) 0

/-- The exponent at the front of a text: its value if there is one. -/
def exponent? (cs : List Char) : Option (Option Int × List Char) :=
  match cs with
  | e :: r =>
    if e == 'e' || e == 'E' then
      let (negative, r) := match r with
        | '-' :: r => (true, r)
        | '+' :: r => (false, r)
        | r => (false, r)
      let ds := r.takeWhile Char.isDigit
      if ds.isEmpty then none
      else
        let n : Int := digitsValue ds
        some (some (if negative then -n else n), r.dropWhile Char.isDigit)
    else some (none, cs)
  | [] => some (none, cs)

/-- The fraction at the front of a text: its digits if there is one. -/
def fraction? (cs : List Char) : Option (Option (List Char) × List Char) :=
  match cs with
  | '.' :: r =>
    let ds := r.takeWhile Char.isDigit
    if ds.isEmpty then none else some (some ds, r.dropWhile Char.isDigit)
  | _ => some (none, cs)

/-- A number at the front of a text. -/
def readNumber? (cs : List Char) : Option (Json × List Char) := do
  let (negative, r) := match cs with
    | '-' :: r => (true, r)
    | r => (false, r)
  let whole := r.takeWhile Char.isDigit
  if whole.isEmpty || (whole.head? == some '0' && 1 < whole.length) then none
  else
    let (fraction, r) ← fraction? (r.dropWhile Char.isDigit)
    let (exponent, r) ← exponent? r
    let float (digits : List Char) (e : Int) : Option (Json × List Char) :=
      let x := Binary64.ofDecimal negative (digitsValue digits) e
      if x.isFinite then some (.float x, r) else none
    match fraction, exponent with
    | none, none =>
      let n := digitsValue whole
      if negative then
        if n ≠ 0 ∧ n ≤ Nat.pow 2 63 then some (.int (-(n : Int)), r) else float whole 0
      else if n < Nat.pow 2 64 then some (.int n, r)
      else float whole 0
    | _, _ =>
      let ds := fraction.getD []
      float (whole ++ ds) (exponent.getD 0 - ds.length)

/-! ### Values -/

mutual
/-- A value at the front of a text. The first count bounds the nesting that is still
allowed, the second the length of the text. -/
def readValue? (depth : Nat) (fuel : Nat) (cs : List Char) : Option (Json × List Char) :=
  match fuel with
  | 0 => none
  | fuel + 1 =>
    match dropBlanks cs with
    | 'n' :: 'u' :: 'l' :: 'l' :: r => some (.null, r)
    | 't' :: 'r' :: 'u' :: 'e' :: r => some (.bool true, r)
    | 'f' :: 'a' :: 'l' :: 's' :: 'e' :: r => some (.bool false, r)
    | '"' :: r => (readString? r).map fun (t, r) => (.string (String.ofList t), r)
    | '[' :: r =>
      if depth ≤ 1 then none
      else
        match dropBlanks r with
        | ']' :: r => some (.array [], r)
        | r => (readItems? (depth - 1) fuel r).map fun (vs, r) => (.array vs, r)
    | '\x7b' :: r =>
      if depth ≤ 1 then none
      else
        match dropBlanks r with
        | '\x7d' :: r => some (.object [], r)
        | r => (readMembers? (depth - 1) fuel r).map fun (ms, r) => (.object ms, r)
    | r => readNumber? r

/-- The items of an array, up to its bracket. -/
def readItems? (depth : Nat) (fuel : Nat) (cs : List Char) : Option (List Json × List Char) :=
  match fuel with
  | 0 => none
  | fuel + 1 => do
    let (v, r) ← readValue? depth fuel cs
    match dropBlanks r with
    | ']' :: r => some ([v], r)
    | ',' :: r => (readItems? depth fuel r).map fun (vs, r) => (v :: vs, r)
    | _ => none

/-- The members of an object, up to its brace. -/
def readMembers? (depth : Nat) (fuel : Nat) (cs : List Char) :
    Option (List (String × Json) × List Char) :=
  match fuel with
  | 0 => none
  | fuel + 1 => do
    match dropBlanks cs with
    | '"' :: r =>
      let (k, r) ← readString? r
      match dropBlanks r with
      | ':' :: r =>
        let (v, r) ← readValue? depth fuel r
        match dropBlanks r with
        | '\x7d' :: r => some ([(String.ofList k, v)], r)
        | ',' :: r =>
          (readMembers? depth fuel r).map fun (ms, r) => ((String.ofList k, v) :: ms, r)
        | _ => none
      | _ => none
    | _ => none
end

/-- **The value of a text.** -/
def read? (text : String) : Option Json :=
  let cs := text.toList
  match readValue? maxDepth (cs.length + 2) cs with
  | some (v, r) => if (dropBlanks r).isEmpty then some v else none
  | none => none

end SiteConfig.Json
