import SiteConfig.Yaml.Reader

/-!
# Writing values

`SiteConfig.Yaml.write` gives the text of a mapping in block style: two columns of
indentation to a level, the items of a sequence in the column of the key they
belong to, brackets and braces for empty collections only.

A string is written plainly when it would read back as itself; else in single
quotes, in double quotes when it holds a character that must be escaped, or, when
it has several lines, as a literal block with a header that says how it starts and
ends. Lines are never folded.
-/

namespace SiteConfig.Yaml

/-! ### The pen -/

/-- What has been written, and how the present line stands. -/
structure Pen where
  /-- The lines written so far, the last piece first. -/
  pieces : List String
  column : Nat
  /-- Whether a word may follow without a space. -/
  spaced : Bool
  /-- Whether the present line holds nothing but indentation and indicators. -/
  fresh : Bool

namespace Pen

/-- An empty page. -/
def start : Pen := ⟨[], 0, true, true⟩

/-- All that has been written. -/
def text (p : Pen) : String := String.join p.pieces.reverse

/-- Writes characters of one line. -/
def put (s : String) (p : Pen) : Pen :=
  { p with pieces := s :: p.pieces, column := p.column + s.length }

/-- Ends the line. -/
def newline (p : Pen) : Pen := { p with pieces := "\n" :: p.pieces, column := 0 }

/-- Goes to a column, on a new line unless the present one is still fresh. -/
def indent (n : Nat) (p : Pen) : Pen :=
  let p := if !p.fresh || n < p.column || (p.column == n && !p.spaced) then p.newline else p
  let p := p.put (String.ofList (List.replicate (n - p.column) ' '))
  { p with spaced := true, fresh := true }

/-- Writes an indicator, after a space where one is due. -/
def indicator (s : String) (space : Bool) (p : Pen) : Pen :=
  let p := if space && !p.spaced then p.put " " else p
  { p.put s with spaced := false, fresh := false }

/-- Writes an indicator that a line may start with: a dash, a question mark, or the
colon of an entry whose key has a line of its own. -/
def opener (s : String) (p : Pen) : Pen :=
  let p := if p.spaced then p else p.put " "
  { p.put s with spaced := false }

end Pen

/-! ### How a string can be written -/

/-- A character that needs no escape in double quotes. -/
def isPrintable (c : Char) : Bool :=
  let n := c.toNat
  n == 0x0A || (0x20 ≤ n && n ≤ 0x7E) ||
    (0xA0 ≤ n && n != 0xFEFF && n != 0xFFFE && n != 0xFFFF)

/-- What the characters of a string rule out. -/
structure Traits where
  multiline : Bool := false
  plain : Bool := true
  single : Bool := true
  block : Bool := true

/-- Whether the first character of a plain scalar would be read as an indicator. -/
def startsIndicator : List Char → Bool
  | c :: r =>
    "#,[]\x7b\x7d&*!|>'\"%@`".toList.contains c || ("?:-".toList.contains c && atGap r)
  | [] => false

/-- Whether a colon before a gap, or a number sign after one, would end a plain
scalar. -/
def holdsIndicator : List Char → Bool
  | c :: d :: r =>
    (d == ':' && atGap r) || (d == '#' && (isBlank c || isBreak c)) || holdsIndicator (d :: r)
  | _ => false

/-- Whether two neighbouring characters satisfy a condition. -/
def hasPair (p : Char → Char → Bool) : List Char → Bool
  | c :: d :: r => p c d || hasPair p (d :: r)
  | _ => false

/-- The traits of a string. -/
def traits (s : String) : Traits :=
  let cs := s.toList
  if cs.isEmpty then { plain := true, block := false }
  else
    let space (c : Char) : Bool := c == ' '
    let edge (p : Char → Bool) : Bool := cs.head?.any p || cs.getLast?.any p
    let multiline := cs.any isBreak
    let special := cs.any fun c => !isPrintable c
    let spaceBreak := hasPair (fun c d => space c && isBreak d) cs
    let breakSpace := hasPair (fun c d => isBreak c && space d) cs
    let trailingSpace := cs.getLast?.any space
    let marker := "---".toList.isPrefixOf cs || "...".toList.isPrefixOf cs
    { multiline
      plain := !(edge space || edge isBreak || breakSpace || spaceBreak || special || multiline ||
        marker || startsIndicator cs || holdsIndicator cs)
      single := !(breakSpace || spaceBreak || special)
      block := !(trailingSpace || spaceBreak || special) }

/-- The styles in which strings are written. -/
inductive Quoting where
  | plain
  | single
  | double
  | literal
  deriving DecidableEq, Repr

/-- The style that a string asks for: literal when it has several lines, quoted when
its spelling means something else. -/
def wanted (s : String) : Quoting :=
  if s.toList.contains '\n' then .literal
  else if s.isEmpty then .single
  else
    match Scalar.resolve s with
    | .string => if Scalar.isPaddedDigits s.toList then .single else .plain
    | _ => .single

/-- The style that it gets, given its traits. The key of an entry cannot be a block. -/
def settle (asKey : Bool) (t : Traits) (empty : Bool) (q : Quoting) : Quoting :=
  let q := if asKey && t.multiline then .double else q
  let q := if q = .plain ∧ (!t.plain || (empty && asKey)) then .single else q
  let q := if q = .single ∧ !t.single then .double else q
  if q = .literal ∧ (!t.block || asKey) then .double else q

/-! ### Writing strings -/

/-- A number in hexadecimal capitals of a given width. -/
def hexText (width n : Nat) : String :=
  let ds := (Nat.toDigits 16 n).map Char.toUpper
  String.ofList (List.replicate (width - ds.length) '0' ++ ds)

/-- A character inside double quotes. -/
def escape (c : Char) : String :=
  let n := c.toNat
  if isPrintable c && !isBreak c && c != '"' && c != '\\' then c.toString
  else
    match c with
    | '\x00' => "\\0"
    | '\x07' => "\\a"
    | '\x08' => "\\b"
    | '\t' => "\\t"
    | '\n' => "\\n"
    | '\x0b' => "\\v"
    | '\x0c' => "\\f"
    | '\r' => "\\r"
    | '\x1b' => "\\e"
    | '"' => "\\\""
    | '\\' => "\\\\"
    | '\u0085' => "\\N"
    | '\u2028' => "\\L"
    | '\u2029' => "\\P"
    | _ =>
      if n ≤ 0xFF then "\\x" ++ hexText 2 n
      else if n ≤ 0xFFFF then "\\u" ++ hexText 4 n
      else "\\U" ++ hexText 8 n

namespace Pen

/-- Writes a break inside a scalar: a line feed ends the line, another break is
copied. -/
def breakChar (c : Char) (p : Pen) : Pen :=
  let p := if c == '\n' then p.newline else { p.put c.toString with column := 0 }
  { p with fresh := true }

/-- The text of a plain scalar. -/
def plain (s : String) (p : Pen) : Pen :=
  let p := if p.spaced || s.isEmpty then p else p.put " "
  { p.put s with spaced := false, fresh := false }

/-- The characters between single quotes; the flag tells that a break came last. -/
def singleBody (n : Nat) : List Char → Bool → Pen → Pen
  | [], afterBreak, p => if afterBreak then p.indent n else p
  | c :: r, afterBreak, p =>
    if c == ' ' then singleBody n r afterBreak (p.put " ")
    else if isBreak c then
      let p := if !afterBreak && c == '\n' then p.newline else p
      singleBody n r true (p.breakChar c)
    else
      let p := if afterBreak then p.indent n else p
      let p := p.put (if c == '\'' then "''" else c.toString)
      singleBody n r false { p with fresh := false }

/-- A string in single quotes, further lines of it in a given column. -/
def single (n : Nat) (s : String) (p : Pen) : Pen :=
  (singleBody n s.toList false (p.indicator "'" true)).indicator "'" false

/-- A string in double quotes. -/
def double (s : String) (p : Pen) : Pen :=
  let p := (p.indicator "\"" true).put (String.join (s.toList.map escape))
  p.indicator "\"" false

/-- The lines of a block; the flag tells that a break came last. -/
def literalBody (n : Nat) : List Char → Bool → Pen → Pen
  | [], _, p => p
  | c :: r, afterBreak, p =>
    if isBreak c then literalBody n r true (p.breakChar c)
    else
      let p := if afterBreak then p.indent n else p
      literalBody n r false { p.put c.toString with fresh := false }

/-- The header of a block: the indentation when the first line does not show it, and
how the block ends. -/
def header (s : String) : String :=
  let cs := s.toList
  let hint := if cs.head?.any (fun c => c == ' ' || isBreak c) then "2" else ""
  let ending := match cs.reverse with
    | c :: r =>
      if !isBreak c then "-" else if r.isEmpty || r.head?.any isBreak then "+" else ""
    | [] => "-"
  hint ++ ending

/-- A string as a literal block in a given column. -/
def literal (n : Nat) (s : String) (p : Pen) : Pen :=
  let p := (p.indicator "|" true).put (header s)
  literalBody n s.toList true { p.newline with spaced := true, fresh := true }

/-- A string in the style it gets; further lines of it in a given column. -/
def string (n : Nat) (asKey : Bool) (s : String) (p : Pen) : Pen :=
  match settle asKey (traits s) s.isEmpty (wanted s) with
  | .plain => p.plain s
  | .single => p.single n s
  | .double => p.double s
  | .literal => p.literal n s

/-- A local tag; characters that a tag cannot hold are written as percent escapes, and so is an
exclamation mark, which would end a handle. -/
def tag (t : String) (p : Pen) : Pen :=
  let body := t.toList.map fun c =>
    if isWordChar c || ";/?:@&=+$,.~*'()[]".toList.contains c then c.toString
    else String.join (c.toString.toUTF8.toList.map fun b => "%" ++ hexText 2 b.toNat)
  p.indicator ("!" ++ String.join body) true

end Pen

/-! ### Writing values -/

/-- The length of the text of a key that fits on the line of its value, without
breaks; none for a key that needs a line of its own. -/
def simpleLength? : Value → Option Nat
  | .null => some 4
  | .bool b => some (if b then 4 else 5)
  | .number n => some n.text.utf8ByteSize
  | .string s => if (traits s).multiline then none else some s.utf8ByteSize
  | .sequence [] => some 0
  | .mapping [] => some 0
  | .tagged t v => (simpleLength? v).map (· + 1 + t.utf8ByteSize)
  | _ => none

/-- Whether a key fits on the line of its value. -/
def isSimpleKey (v : Value) : Bool := (simpleLength? v).any (· ≤ 128)

/-- Where a value stands. -/
inductive Place where
  /-- The whole document. -/
  | root
  /-- An item of a sequence. -/
  | item
  /-- A key on the line of its value. -/
  | simpleKey
  /-- Any other key, or a value. -/
  | entry
  deriving DecidableEq

/-- The column of the contents of a mapping, given that of what is around it. -/
def deeper (n : Option Nat) : Nat := match n with
  | none => 0
  | some n => n + 2

/-- The column of the items of a sequence: that of the key when the sequence starts
below it. -/
def itemColumn (place : Place) (n : Option Nat) (p : Pen) : Nat := match n with
  | none => 0
  | some n =>
    if (place = .entry ∨ place = .simpleKey) ∧ !p.fresh then n else n + 2

mutual
/-- Writes a value at a place inside a collection in the column `n`. -/
def writeValue (place : Place) (n : Option Nat) (v : Value) (p : Pen) : Pen :=
  let inner := match n with
    | none => 2
    | some n => n + 2
  match v with
  | .null => p.plain "null"
  | .bool b => p.plain (if b then "true" else "false")
  | .number x => p.plain x.text
  | .string s => p.string inner (place = .simpleKey) s
  | .sequence [] => (p.indicator "[" true).indicator "]" false
  | .sequence (x :: xs) => let column := itemColumn place n p; writeItems column (x :: xs) p
  | .mapping [] => (p.indicator "\x7b" true).indicator "\x7d" false
  | .mapping (e :: es) => writeEntries (deeper n) (e :: es) p
  | .tagged t v => writeValue place n v (p.tag t)

/-- Writes the items of a sequence in a column. -/
def writeItems (n : Nat) (items : List Value) (p : Pen) : Pen :=
  match items with
  | [] => p
  | v :: r => writeItems n r (writeValue .item (some n) v ((p.indent n).opener "-"))

/-- Writes the entries of a mapping in a column. -/
def writeEntries (n : Nat) (entries : List (Value × Value)) (p : Pen) : Pen :=
  match entries with
  | [] => p
  | (k, v) :: r =>
    let p := p.indent n
    let p :=
      if isSimpleKey k then (writeValue .simpleKey (some n) k p).indicator ":" false
      else ((writeValue .entry (some n) k (p.opener "?")).indent n).opener ":"
    writeEntries n r (writeValue .entry (some n) v p)
end

/-! ### What cannot be written -/

/-- Whether a value is taken for a tag or the start of one when it is the only key of
a mapping. -/
def isTagLike : Value → Bool
  | .tagged .. => true
  | .mapping [_] => true
  | _ => false

mutual
/-- The first part of a value that cannot be written. -/
def unwritable? (top tagged : Bool) : Value → Option Error
  | .sequence items => unwritableItem? items
  | .mapping [(k, v)] =>
    if !tagged && isTagLike k then some (if top then .unwritableRoot else .unwritableEntry)
    else (unwritable? top false k).or (unwritable? false false v)
  | .mapping entries => unwritableAmong? top entries
  | .tagged _ v => unwritable? top true v
  | _ => none

def unwritableItem? : List Value → Option Error
  | [] => none
  | v :: r => (unwritable? false false v).or (unwritableItem? r)

def unwritableAmong? (top : Bool) : List (Value × Value) → Option Error
  | [] => none
  | (k, v) :: r =>
    ((unwritable? top false k).or (unwritable? false false v)).or (unwritableAmong? top r)
end

/-- **The text of a mapping.** -/
def write (m : Mapping) : Except Error String :=
  match unwritable? true false (.mapping m) with
  | some e => .error e
  | none => .ok ((writeValue .root none (.mapping m) Pen.start).indent 0).text

end SiteConfig.Yaml
