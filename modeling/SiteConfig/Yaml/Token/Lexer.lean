import SiteConfig.Yaml.Token.Scalar

/-!
# From a text to its tokens

A key is known to be one only when the colon after it is met, so a place where a
key may start is remembered, one for each open flow collection and one for the
block around them; at the colon the token `key` is put in there
(`SiteConfig.Yaml.Lexer.takeKey`). Such a place is forgotten at the end of its
line and after 1024 characters. It is an error to forget it when the place is one
where only a key can stand.

Indentation opens and closes block collections: a column deeper than the current
one opens a collection (`SiteConfig.Yaml.Lexer.indentTo`), a shallower one closes
every collection that is deeper (`SiteConfig.Yaml.Lexer.dedentTo`). In flow
collections indentation has no meaning.

`SiteConfig.Yaml.tokens?` gives the tokens of a text, none if it is not well
formed.
-/

namespace SiteConfig.Yaml

/-- A place where a key may have started. -/
structure KeyStart where
  /-- Whether nothing but a key can stand there. -/
  required : Bool
  /-- How many tokens are before it. -/
  tokens : Nat
  index : Nat
  line : Nat
  column : Nat

/-- The state between two tokens. -/
structure Lexer where
  cursor : Cursor
  /-- The tokens read so far, the last one first. -/
  output : List Token
  /-- The column of the innermost block collection; `-1` outside all. -/
  indent : Int
  /-- The columns of the block collections around it. -/
  outer : List Int
  keyAllowed : Bool
  /-- Where a key may have started: in the innermost flow collection, in those
  around it, and in the block around them all. -/
  keys : List (Option KeyStart)

namespace Lexer

/-- The state at the start of a text. -/
def start (cs : List Char) : Lexer :=
  { cursor := .ofText cs, output := [], indent := -1, outer := [], keyAllowed := true
    keys := [none] }

/-- Whether a flow collection is open. -/
def inFlow (s : Lexer) : Bool := 1 < s.keys.length

/-- Adds a token at the end. -/
def emit (s : Lexer) (t : Token) : Lexer := { s with output := t :: s.output }

/-- Puts tokens in after the first `n`. -/
def emitAt (s : Lexer) (n : Nat) (ts : List Token) : Lexer :=
  let later := s.output.take (s.output.length - n)
  let earlier := s.output.drop (s.output.length - n)
  { s with output := later ++ ts.reverse ++ earlier }

/-- Passes one-character indicators. -/
def skip (s : Lexer) (n : Nat) : Lexer := { s with cursor := s.cursor.skip n }

/-! ### Places of keys -/

/-- Forgets the place of the innermost level, unless a key is required there. -/
def dropKey (s : Lexer) : Option Lexer :=
  match s.keys with
  | some k :: r => if k.required then none else some { s with keys := none :: r }
  | _ => some s

/-- Forgets the places that are on an earlier line or too far back. -/
def dropStale (s : Lexer) : Option Lexer := do
  let c := s.cursor
  let keys ← s.keys.mapM fun k? => match k? with
    | none => some none
    | some k =>
      if k.line < c.line || k.index + 1024 < c.index then
        if k.required then none else some none
      else some (some k)
  some { s with keys }

/-- Remembers this place if a key may start here. -/
def markKey (s : Lexer) : Option Lexer :=
  if s.keyAllowed then do
    let c := s.cursor
    let k : KeyStart :=
      { required := !s.inFlow && s.indent == c.column, tokens := s.output.length
        index := c.index, line := c.line, column := c.column }
    let s ← s.dropKey
    some { s with keys := some k :: s.keys.drop 1 }
  else some s

/-! ### Indentation -/

/-- Whether a collection that starts in a column is deeper than the current one. -/
def opens (s : Lexer) (column : Nat) : Bool := !s.inFlow && s.indent < column

/-- Enters a collection in a column, if it is deeper. -/
def indentTo (s : Lexer) (column : Nat) : Lexer :=
  if s.opens column then { s with indent := column, outer := s.indent :: s.outer } else s

/-- Opens a block collection at the present place. -/
def openBlock (s : Lexer) (t : Token) : Lexer :=
  let column := s.cursor.column
  if s.opens column then (s.indentTo column).emit t else s

/-- Closes the block collections deeper than a column. -/
def dedentTo (column : Int) (s : Lexer) : Lexer :=
  if s.inFlow then s else go s.outer s
where
  go : List Int → Lexer → Lexer
    | [], s => s
    | i :: r, s =>
      if column < s.indent then go r { s.emit .blockEnd with indent := i, outer := r } else s

/-! ### Indicators -/

/-- A marker between documents, or a directive, ends all that is open. -/
def leaveBlocks (s : Lexer) : Option Lexer :=
  (s.dedentTo (-1)).dropKey.map fun s => { s with keyAllowed := false }

/-- The start of a flow collection. -/
def openFlow (s : Lexer) (t : Token) : Option Lexer :=
  s.markKey.map fun s => ({ s with keys := none :: s.keys, keyAllowed := true }.skip 1).emit t

/-- The end of a flow collection. -/
def closeFlow (s : Lexer) (t : Token) : Option Lexer :=
  s.dropKey.map fun s =>
    let keys := if s.inFlow then s.keys.drop 1 else s.keys
    ({ s with keys, keyAllowed := false }.skip 1).emit t

/-- The comma between the items of a flow collection. -/
def takeComma (s : Lexer) : Option Lexer :=
  s.dropKey.map fun s => ({ s with keyAllowed := true }.skip 1).emit .flowEntry

/-- The dash before an item. -/
def takeDash (s : Lexer) : Option Lexer :=
  if !s.inFlow && !s.keyAllowed then none
  else (s.openBlock .blockSequenceStart).dropKey.map fun s =>
    ({ s with keyAllowed := true }.skip 1).emit .blockEntry

/-- The question mark before a key. -/
def takeQuestion (s : Lexer) : Option Lexer :=
  if !s.inFlow && !s.keyAllowed then none
  else (s.openBlock .blockMappingStart).dropKey.map fun s =>
    ({ s with keyAllowed := !s.inFlow }.skip 1).emit .key

/-- The colon before a value. If a key may have started earlier, it did. -/
def takeKey (s : Lexer) : Option Lexer :=
  match s.keys with
  | some k :: r =>
    let opened := if s.opens k.column then [Token.blockMappingStart] else []
    let s := (s.emitAt k.tokens (opened ++ [.key])).indentTo k.column
    some (({ s with keys := none :: r, keyAllowed := false }.skip 1).emit .value)
  | _ =>
    if !s.inFlow && !s.keyAllowed then none
    else
      let s := s.openBlock .blockMappingStart
      some (({ s with keyAllowed := !s.inFlow }.skip 1).emit .value)

/-! ### Anchors, tags and directives -/

/-- An anchor or an alias, from its indicator on. -/
def takeName (s : Lexer) (t : String → Token) : Option Lexer := do
  let s ← s.markKey
  let (name, c) := (s.cursor.skip 1).takeWhile isWordChar
  if name.isEmpty || !(atGap c.rest || c.rest.head?.any fun d => "?:,]\x7d%@`".toList.contains d) then
    none
  else some ({ s with cursor := c, keyAllowed := false }.emit (t (String.ofList name)))

/-- The number of bytes of a character whose first byte is given. -/
def utf8Width? (n : Nat) : Option Nat :=
  if n < 0x80 then some 1
  else if 0xC0 ≤ n ∧ n < 0xE0 then some 2
  else if 0xE0 ≤ n ∧ n < 0xF0 then some 3
  else if 0xF0 ≤ n ∧ n < 0xF8 then some 4
  else none

/-- The bytes of some percent escapes. -/
def percentBytes? : Nat → List Char → Option (List UInt8)
  | 0, _ => some []
  | n + 1, '%' :: a :: b :: r => do
    let v ← hexValue? 2 [a, b]
    (percentBytes? n r).map (v.toUInt8 :: ·)
  | _, _ => none

/-- The character that percent escapes stand for, and how many they are. -/
def percentChar? (cs : List Char) : Option (Char × Nat) := do
  let first ← percentBytes? 1 cs
  let width ← (first.head?.map UInt8.toNat).bind utf8Width?
  let bytes ← percentBytes? width cs
  let text ← String.fromUTF8? (ByteArray.mk bytes.toArray)
  let c ← text.toList.head?
  some (c, width)

/-- The rest of a tag. Inside angle brackets and in directives it may also hold the
indicators of flow collections. -/
def uri (verbatim : Bool) : Nat → Cursor → Option (List Char × Cursor)
  | 0, c => some ([], c)
  | n + 1, c =>
    match c.rest with
    | [] => some ([], c)
    | '%' :: _ => do
      let (d, k) ← percentChar? c.rest
      let (r, c) ← uri verbatim n (c.skip (3 * k))
      some (d :: r, c)
    | d :: _ =>
      if isWordChar d || ";/?:@&=+$.!~*'()".toList.contains d ||
          (verbatim && ",[]".toList.contains d) then do
        let (r, c) ← uri verbatim n (c.skip 1)
        some (d :: r, c)
      else some ([], c)

/-- A tag handle: an exclamation mark, or a word between two of them. In a directive
a word must be closed. -/
def tagHandle (directive : Bool) (c : Cursor) : Option (List Char × Cursor) :=
  match c.rest with
  | '!' :: _ =>
    let (word, c) := (c.skip 1).takeWhile isWordChar
    if c.rest.head? == some '!' then some ('!' :: word ++ ['!'], c.skip 1)
    else if directive && !word.isEmpty then none
    else some ('!' :: word, c)
  | _ => none

/-- A tag, from its exclamation mark on. -/
def takeTag (s : Lexer) : Option Lexer := do
  let s ← s.markKey
  let (handle, suffix, c) ← match s.cursor.rest with
    | '!' :: '<' :: _ => do
      let c := s.cursor.skip 2
      let (r, c) ← uri true c.rest.length c
      if r.isEmpty || c.rest.head? != some '>' then none
      else some ([], r, c.skip 1)
    | _ => do
      let (h, c) ← tagHandle false s.cursor
      let (r, c) ← uri false c.rest.length c
      if 1 < h.length && h.getLast? == some '!' then
        if r.isEmpty then none else some (h, r, c)
      else
        let suffix := h.drop 1 ++ r
        if suffix.isEmpty then some ([], ['!'], c) else some (['!'], suffix, c)
  if (s.inFlow && c.rest.head? == some ',') || atGap c.rest then
    some ({ s with cursor := c, keyAllowed := false }.emit
      (.tag (String.ofList handle) (String.ofList suffix)))
  else none

/-- The number in a version directive, of at most nine digits. -/
def versionNumber (c : Cursor) : Option (Nat × Cursor) :=
  let (ds, c) := c.takeWhile Char.isDigit
  if ds.isEmpty || 9 < ds.length then none
  else some (ds.foldl (fun n d => 10 * n + (d.toNat - '0'.toNat)) 0, c)

/-- A directive, from its percent sign to the end of its line. -/
def takeDirective (s : Lexer) : Option Lexer := do
  let s ← s.leaveBlocks
  let (name, c) := (s.cursor.skip 1).takeWhile isWordChar
  if name.isEmpty || !atGap c.rest then none
  else
    let c := c.skipWhile isBlank
    let (t, c) ← match String.ofList name with
      | "YAML" => do
        let (major, c) ← versionNumber c
        if c.rest.head? != some '.' then none
        else
          let (minor, c) ← versionNumber (c.skip 1)
          some (Token.versionDirective major minor, c)
      | "TAG" => do
        let (handle, c) ← tagHandle true c
        if !(c.rest.head?.any isBlank) then none
        else
          let c := c.skipWhile isBlank
          let (expansion, c) ← uri true c.rest.length c
          if expansion.isEmpty || !atGap c.rest then none
          else some (.tagDirective (String.ofList handle) (String.ofList expansion), c)
      | _ => none
    let c := c.skipWhile isBlank
    let c := if c.rest.head? == some '#' then c.skipWhile (fun d => !isBreak d) else c
    if !atLineEnd c.rest then none
    else some ({ s with cursor := c.skipBreak }.emit t)

/-! ### Scalars -/

/-- A quoted scalar. -/
def takeQuoted (s : Lexer) (single : Bool) : Option Lexer := do
  let s ← s.markKey
  let (t, c) ← quotedScalar single s.cursor
  some ({ s with cursor := c, keyAllowed := false }.emit t)

/-- A block; after it a key may start. -/
def takeBlock (s : Lexer) (literal : Bool) : Option Lexer := do
  let s ← s.dropKey
  let (t, c) ← blockScalar literal s.indent s.cursor
  some ({ s with cursor := c, keyAllowed := true }.emit t)

/-- A plain scalar; a key may start after it if a break was passed. -/
def takePlain (s : Lexer) : Option Lexer := do
  let s ← s.markKey
  let (text, broken, c) ←
    plainWords s.inFlow (s.indent + 1) (s.cursor.rest.length + 1) {} [] s.cursor
  some ({ s with cursor := c, keyAllowed := broken }.emit (.scalar .plain (String.ofList text)))

/-! ### The next token -/

/-- Passes blanks, comments and breaks. A tab counts as a blank only where no key
may start; a break allows a key again, outside flow collections. -/
def passGaps : Nat → Lexer → Lexer
  | 0, s => s
  | n + 1, s =>
    let tabs := s.inFlow || !s.keyAllowed
    let c := s.cursor
    let c := if c.index == 0 && c.rest.head? == some '\ufeff' then c.skip 1 else c
    let c := c.skipWhile fun d => d == ' ' || (tabs && d == '\t')
    let c := if c.rest.head? == some '#' then c.skipWhile (fun d => !isBreak d) else c
    if c.rest.head?.any isBreak then
      passGaps n { s with cursor := c.skipBreak, keyAllowed := s.keyAllowed || !s.inFlow }
    else { s with cursor := c }

/-- The characters that start no plain scalar. -/
def indicators : List Char := "-?:,[]\x7b\x7d#&*!|>'\"%@`".toList

/-- Reads one token; the text is known not to be at its end. -/
def next (s : Lexer) (c : Char) (r : List Char) : Option Lexer :=
  let column := s.cursor.column
  if column == 0 && c == '%' then s.takeDirective
  else if column == 0 && startsMarker '-' (c :: r) then
    s.leaveBlocks.map fun s => (s.skip 3).emit .documentStart
  else if column == 0 && startsMarker '.' (c :: r) then
    s.leaveBlocks.map fun s => (s.skip 3).emit .documentEnd
  else if c == '[' then s.openFlow .flowSequenceStart
  else if c == '{' then s.openFlow .flowMappingStart
  else if c == ']' then s.closeFlow .flowSequenceEnd
  else if c == '}' then s.closeFlow .flowMappingEnd
  else if c == ',' then s.takeComma
  else if c == '-' && atGap r then s.takeDash
  else if c == '?' && (s.inFlow || atGap r) then s.takeQuestion
  else if c == ':' && (s.inFlow || atGap r) then s.takeKey
  else if c == '*' then s.takeName .alias
  else if c == '&' then s.takeName .anchor
  else if c == '!' then s.takeTag
  else if c == '|' && !s.inFlow then s.takeBlock true
  else if c == '>' && !s.inFlow then s.takeBlock false
  else if c == '\'' then s.takeQuoted true
  else if c == '"' then s.takeQuoted false
  else if !(isBlank c || indicators.contains c) || c == '-' ||
      (!s.inFlow && (c == '?' || c == ':')) then s.takePlain
  else none

/-- Reads tokens to the end of the text. The count bounds the tokens by the
characters: each takes at least one. -/
def run : Nat → Lexer → Option Lexer
  | 0, _ => none
  | n + 1, s => do
    let s ← (s.passGaps (s.cursor.rest.length + 1)).dropStale
    match s.cursor.rest with
    | [] => ({ s with cursor := { s.cursor with column := 0 } }).leaveBlocks
    | c :: r =>
      let s ← (s.dedentTo s.cursor.column).next c r
      run n s

end Lexer

/-- The tokens of a text. A byte order mark before it does not count. -/
def tokens? (text : String) : Option (List Token) :=
  let cs := match text.toList with
    | '\ufeff' :: r => r
    | r => r
  if cs.all isAllowed then
    ((Lexer.start cs).run (cs.length + 1)).map fun s => s.output.reverse
  else none

end SiteConfig.Yaml
