/-!
# Places in a text

A `SiteConfig.Yaml.Cursor` is the unread rest of a text together with where it
starts: how many characters are before it, and on which line and in which column.
Columns count characters. A break is a line feed, a carriage return, the two
together, or one of the three further breaks of Unicode; the last two of these
keep their character when they are read, the others are read as a line feed.
-/

namespace SiteConfig.Yaml

/-! ### Classes of characters -/

/-- A space or a tab. -/
def isBlank (c : Char) : Bool := c == ' ' || c == '\t'

/-- A character that ends a line. -/
def isBreak (c : Char) : Bool :=
  c == '\n' || c == '\r' || c == '\u0085' || c == '\u2028' || c == '\u2029'

/-- A letter, a digit, a dash or an underscore. -/
def isWordChar (c : Char) : Bool := c.isAlphanum || c == '-' || c == '_'

/-- A character that a text may hold as it is. -/
def isAllowed (c : Char) : Bool :=
  let n := c.toNat
  n == 0x09 || n == 0x0A || n == 0x0D || (0x20 ≤ n && n ≤ 0x7E) || n == 0x85 ||
    (0xA0 ≤ n && n ≤ 0xD7FF) || (0xE000 ≤ n && n ≤ 0xFFFD) || 0x10000 ≤ n

/-- Whether the text is at its end, or starts with a blank or a break. -/
def atGap : List Char → Bool
  | [] => true
  | c :: _ => isBlank c || isBreak c

/-- Whether the text is at its end, or starts with a break. -/
def atLineEnd : List Char → Bool
  | [] => true
  | c :: _ => isBreak c

/-- Whether a marker of three characters, set off by a gap, starts the text. -/
def startsMarker (c : Char) : List Char → Bool
  | a :: b :: d :: r => a == c && b == c && d == c && atGap r
  | _ => false

/-! ### Cursors -/

/-- The rest of a text and its place. -/
structure Cursor where
  rest : List Char
  index : Nat
  line : Nat
  column : Nat

namespace Cursor

/-- The start of a text. -/
def ofText (cs : List Char) : Cursor := ⟨cs, 0, 0, 0⟩

/-- Moves on by some characters of the same line. -/
def skip (n : Nat) (c : Cursor) : Cursor :=
  let k := min n c.rest.length
  { c with rest := c.rest.drop n, index := c.index + k, column := c.column + k }

/-- Moves past the characters of a class. -/
def skipWhile (p : Char → Bool) (c : Cursor) : Cursor :=
  c.skip (c.rest.takeWhile p).length

/-- Reads the characters of a class. -/
def takeWhile (p : Char → Bool) (c : Cursor) : List Char × Cursor :=
  (c.rest.takeWhile p, c.skipWhile p)

/-- Reads a break, as the characters it stands for. -/
def takeBreak (c : Cursor) : List Char × Cursor :=
  match c.rest with
  | '\r' :: '\n' :: r => (['\n'], ⟨r, c.index + 2, c.line + 1, 0⟩)
  | b :: r =>
    if isBreak b then
      (if b == '\u2028' || b == '\u2029' then [b] else ['\n'],
        ⟨r, c.index + 1, c.line + 1, 0⟩)
    else ([], c)
  | [] => ([], c)

/-- Moves past a break. -/
def skipBreak (c : Cursor) : Cursor := c.takeBreak.2

/-- Whether a marker between documents starts here. -/
def atMarker (c : Cursor) : Bool :=
  c.column == 0 && (startsMarker '-' c.rest || startsMarker '.' c.rest)

end Cursor

end SiteConfig.Yaml
