import SiteConfig.Yaml.Token.Cursor
import SiteConfig.Yaml.Token

/-!
# The three shapes of a scalar

A scalar is **plain**, **quoted** or a **block**. Each reader starts at the first
character of the scalar and gives the text that it stands for, together with the
place after it; a text that is not well formed gives none.

Plain and quoted scalars may go on over several lines. What stands between two
words of them is a `SiteConfig.Yaml.Gap`: blanks within a line are kept, a single
break counts as a space, and of several breaks the first is dropped. In a block
the lines are kept, less the indentation, and the header says how many of the
breaks at the end count.
-/

namespace SiteConfig.Yaml

/-! ### Gaps -/

/-- What was passed since the last word: blanks, or a first break and the breaks
that follow it. -/
structure Gap where
  broken : Bool := false
  blanks : List Char := []
  first : List Char := []
  more : List Char := []

namespace Gap

/-- The characters that a gap contributes to the text. -/
def text (g : Gap) : List Char :=
  if g.broken then
    match g.first with
    | '\n' :: _ => if g.more.isEmpty then [' '] else g.more
    | first => first ++ g.more
  else g.blanks

/-- Passes blanks and breaks. A tab before the column `margin` on a line of its own
is refused; the count is the number of characters that may still be passed. -/
def pass (margin : Option Int) : Nat → Gap → Cursor → Option (Gap × Cursor)
  | 0, g, c => some (g, c)
  | n + 1, g, c =>
    match c.rest with
    | [] => some (g, c)
    | d :: _ =>
      if isBlank d then
        if g.broken then
          if d == '\t' && margin.any (fun m => decide ((c.column : Int) < m)) then none
          else pass margin n g (c.skip 1)
        else pass margin n { g with blanks := g.blanks ++ [d] } (c.skip 1)
      else if isBreak d then
        let (b, c) := c.takeBreak
        if g.broken then pass margin n { g with more := g.more ++ b } c
        else pass margin n { g with broken := true, blanks := [], first := b } c
      else some (g, c)

end Gap

/-! ### Plain scalars -/

/-- The characters of a plain scalar up to the next gap or to where it ends. In a
flow collection a colon before an indicator is an error. -/
def plainRun (inFlow : Bool) : List Char → Option (List Char)
  | [] => some []
  | c :: r =>
    if isBlank c || isBreak c then some []
    else if inFlow && c == ':' && (r.head?.any fun d => ",?[]\x7b\x7d".toList.contains d) then none
    else if c == ':' && atGap r then some []
    else if inFlow && ",[]\x7b\x7d".toList.contains c then some []
    else (plainRun inFlow r).map (c :: ·)

/-- The words of a plain scalar, with the gaps between them. The result tells
whether a break was passed at the end. -/
def plainWords (inFlow : Bool) (margin : Int) :
    Nat → Gap → List Char → Cursor → Option (List Char × Bool × Cursor)
  | 0, g, text, c => some (text, g.broken, c)
  | n + 1, g, text, c =>
    if c.atMarker || c.rest.head? == some '#' then some (text, g.broken, c)
    else do
      let run ← plainRun inFlow c.rest
      let c := c.skip run.length
      let (g, text) := if run.isEmpty then (g, text) else ({}, text ++ g.text ++ run)
      if atGap c.rest && !c.rest.isEmpty then
        let (g, c) ← Gap.pass (some margin) c.rest.length g c
        if !inFlow && (c.column : Int) < margin then some (text, g.broken, c)
        else plainWords inFlow margin n g text c
      else some (text, g.broken, c)

/-! ### Quoted scalars -/

/-- The value of some hexadecimal digits. -/
def hexValue? (n : Nat) (cs : List Char) : Option Nat :=
  if cs.length < n then none
  else (cs.take n).foldlM (fun v c =>
    if c.isDigit then some (16 * v + (c.toNat - '0'.toNat))
    else if 'a' ≤ c ∧ c ≤ 'f' then some (16 * v + (c.toNat - 'a'.toNat + 10))
    else if 'A' ≤ c ∧ c ≤ 'F' then some (16 * v + (c.toNat - 'A'.toNat + 10))
    else none) 0

/-- The characters that one letter after a backslash stands for. -/
def simpleEscape? : Char → Option Char
  | '0' => some '\x00'
  | 'a' => some '\x07'
  | 'b' => some '\x08'
  | 't' => some '\t'
  | '\t' => some '\t'
  | 'n' => some '\n'
  | 'v' => some '\x0b'
  | 'f' => some '\x0c'
  | 'r' => some '\r'
  | 'e' => some '\x1b'
  | ' ' => some ' '
  | '"' => some '"'
  | '/' => some '/'
  | '\\' => some '\\'
  | 'N' => some '\u0085'
  | '_' => some '\u00a0'
  | 'L' => some '\u2028'
  | 'P' => some '\u2029'
  | _ => none

/-- Reads what follows a backslash: a character, and how much of the text it took. -/
def escape? : List Char → Option (Char × Nat)
  | [] => none
  | e :: r =>
    match simpleEscape? e with
    | some c => some (c, 1)
    | none =>
      let digits := if e == 'x' then 2 else if e == 'u' then 4 else if e == 'U' then 8 else 0
      if digits = 0 then none
      else (hexValue? digits r).bind fun v =>
        if v.isValidChar then some (Char.ofNat v, digits + 1) else none

/-- A run of a quoted scalar: its characters, and how much of the text they took;
whether it ends at an escaped break. -/
def quotedRun (single : Bool) : Nat → List Char → Option (List Char × Nat × Bool)
  | 0, _ => some ([], 0, false)
  | n + 1, cs =>
    match cs with
    | [] => some ([], 0, false)
    | c :: r =>
      if isBlank c || isBreak c then some ([], 0, false)
      else if single then
        if c == '\'' then
          match r with
          | '\'' :: r => (quotedRun single n r).map fun (t, k, b) => ('\'' :: t, k + 2, b)
          | _ => some ([], 0, false)
        else (quotedRun single n r).map fun (t, k, b) => (c :: t, k + 1, b)
      else if c == '"' then some ([], 0, false)
      else if c == '\\' then
        if r.head?.any isBreak then some ([], 1, true)
        else do
          let (d, k) ← escape? r
          let (t, l, b) ← quotedRun single n (r.drop k)
          some (d :: t, k + 1 + l, b)
      else (quotedRun single n r).map fun (t, k, b) => (c :: t, k + 1, b)

/-- The words of a quoted scalar, up to the closing quote. -/
def quotedWords (single : Bool) : Nat → List Char → Cursor → Option (List Char × Cursor)
  | 0, _, _ => none
  | n + 1, text, c =>
    if c.atMarker || c.rest.isEmpty then none
    else do
      let (run, length, escaped) ← quotedRun single c.rest.length c.rest
      let text := text ++ run
      let c := c.skip length
      let (g, c) := if escaped then (({ broken := true } : Gap), c.skipBreak) else ({}, c)
      if c.rest.head? == some (if single then '\'' else '"') then some (text, c.skip 1)
      else
        let (g, c) ← Gap.pass none c.rest.length g c
        quotedWords single n (text ++ g.text) c

/-- Reads a quoted scalar, from its opening quote on. -/
def quotedScalar (single : Bool) (c : Cursor) : Option (Token × Cursor) :=
  (quotedWords single (c.rest.length + 1) [] (c.skip 1)).map fun (text, c) =>
    (.scalar (if single then .singleQuoted else .doubleQuoted) (String.ofList text), c)

/-! ### Blocks -/

/-- Which breaks at the end of a block count. -/
inductive Chomping where
  | strip
  | clip
  | keep
  deriving DecidableEq

/-- The header of a block: how it ends, and the indentation that it states. -/
def blockHeader (c : Cursor) : Option (Chomping × Option Nat × Cursor) :=
  let mark? (d : Char) : Option Chomping :=
    if d == '+' then some .keep else if d == '-' then some .strip else none
  let depth? (d : Char) : Option Nat :=
    if d.isDigit then some (d.toNat - '0'.toNat) else none
  match c.rest with
  | a :: r =>
    match mark? a, depth? a with
    | some m, _ =>
      match r.head?.bind depth? with
      | some 0 => none
      | some k => some (m, some k, c.skip 2)
      | none => some (m, none, c.skip 1)
    | none, some 0 => none
    | none, some k =>
      match r.head?.bind mark? with
      | some m => some (m, some k, c.skip 2)
      | none => some (.clip, some k, c.skip 1)
    | none, none => some (.clip, none, c)
  | [] => some (.clip, none, c)

/-- Passes the empty lines before a line of a block. While the indentation is not
known it is the greatest column seen. -/
def blockBreaks (indent : Option Nat) :
    Nat → Nat → List Char → Cursor → Option (Nat × List Char × Cursor)
  | 0, deepest, breaks, c => some (deepest, breaks, c)
  | n + 1, deepest, breaks, c =>
    let spaces := (c.rest.takeWhile (· == ' ')).length
    let c := c.skip (match indent with
      | none => spaces
      | some k => min spaces (k - c.column))
    let deepest := max deepest c.column
    if indent.all (fun k => decide (c.column < k)) && c.rest.head? == some '\t' then none
    else if c.rest.head?.any isBreak then
      let (b, c) := c.takeBreak
      blockBreaks indent n deepest (breaks ++ b) c
    else some (deepest, breaks, c)

/-- The lines of a block of known indentation: the text so far, the break that
ended the last line, and the breaks of the empty lines after it. -/
def blockLines (literal : Bool) (indent : Nat) :
    Nat → List Char → List Char → List Char → Bool → Cursor →
      Option (List Char × List Char × List Char × Cursor)
  | 0, text, last, more, _, c => some (text, last, more, c)
  | n + 1, text, last, more, blankBefore, c =>
    if c.column == indent && !c.rest.isEmpty then
      let blankHere := c.rest.head?.any isBlank
      let fold := !literal && last.head? == some '\n' && !blankBefore && !blankHere
      let joint := if fold then (if more.isEmpty then [' '] else []) else last
      let (line, c) := c.takeWhile (fun d => !isBreak d)
      let (last, c) := c.takeBreak
      match blockBreaks (some indent) (c.rest.length + 1) 0 [] c with
      | none => none
      | some (_, breaks, c) =>
        blockLines literal indent n (text ++ joint ++ more ++ line) last breaks blankHere c
    else some (text, last, more, c)

/-- Reads a block, from its indicator on, inside a collection of a given
indentation. -/
def blockScalar (literal : Bool) (parent : Int) (c : Cursor) : Option (Token × Cursor) := do
  let (chomping, stated, c) ← blockHeader (c.skip 1)
  let c := c.skipWhile isBlank
  let c := if c.rest.head? == some '#' then c.skipWhile (fun d => !isBreak d) else c
  if !atLineEnd c.rest then none
  else
    let c := c.skipBreak
    let known := stated.map fun k => if 0 ≤ parent then parent.toNat + k else k
    let (deepest, breaks, c) ← blockBreaks known (c.rest.length + 1) 0 [] c
    let indent := known.getD (max deepest (max (parent + 1) 1).toNat)
    let (text, last, more, c) ←
      blockLines literal indent (c.rest.length + 1) [] [] breaks false c
    let ending := match chomping with
      | .strip => []
      | .clip => last
      | .keep => last ++ more
    some (.scalar (if literal then .literal else .folded) (String.ofList (text ++ ending)), c)

end SiteConfig.Yaml
