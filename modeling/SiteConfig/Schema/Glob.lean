/-!
# Patterns of names

A pattern stands for the names that it matches as a whole. A question mark stands
for any one byte of the name's UTF-8 form and an asterisk for any number of them;
square brackets hold a class of characters, negated by `!` or `^`; braces hold
alternatives, separated by commas; a backslash takes the next character for itself.
Two asterisks next to a slash stand for any number of directories.

`SiteConfig.Glob.parse` reads a pattern, `SiteConfig.Glob.matchesName` applies it. The
matcher computes for each piece which rests of the name can follow it, so that it
takes polynomial time.
-/

namespace SiteConfig

/-- A piece of a pattern. -/
inductive Glob.Piece where
  | literal (c : Char)
  | anyByte
  | anyBytes
  /-- Two asterisks and a slash at the front: nothing, or directories. -/
  | leadingDirs
  /-- Two asterisks between slashes. -/
  | innerDirs
  /-- A slash and two asterisks at the end. -/
  | trailingDirs
  | charClass (negated : Bool) (ranges : List (Char × Char))
  | oneOf (alternatives : List (List Glob.Piece))

/-- A pattern. -/
structure Glob where
  pieces : List Glob.Piece

namespace Glob

/-- Why a text is no pattern. -/
inductive Defect where
  | unclosedClass
  | invalidRange (low high : Char)
  | unopenedGroup
  | unclosedGroup
  | danglingEscape
  deriving DecidableEq, Repr

/-- The wording of a defect. -/
def Defect.reason : Defect → String
  | .unclosedClass => "unclosed character class; missing ']'"
  | .invalidRange low high => s!"invalid range; '{low}' > '{high}'"
  | .unopenedGroup =>
    "unopened alternate group; missing '\x7b' (maybe escape '\x7d' with '[\x7d]'?)"
  | .unclosedGroup =>
    "unclosed alternate group; missing '\x7d' (maybe escape '\x7b' with '[\x7b]'?)"
  | .danglingEscape => "dangling '\\'"

/-! ### Reading a pattern -/

/-- A group of alternatives that is being read: the pieces before it, and the
alternatives that are complete; both last first. -/
structure Group where
  before : List Piece
  alternatives : List (List Piece)

/-- What has been read: the pieces of the innermost list, last first, the groups
around it, innermost first, and the last character. -/
structure Progress where
  pieces : List Piece
  groups : List Group
  last : Option Char

namespace Progress

/-- Adds a piece. -/
def push (p : Progress) (piece : Piece) (last : Char) : Progress :=
  { p with pieces := piece :: p.pieces, last := some last }

/-- Adds two asterisks that mean no more than one. -/
def pushPlain (p : Progress) : Progress := (p.push .anyBytes '*').push .anyBytes '*'

/-- Begins a group. -/
def openGroup (p : Progress) : Progress :=
  { pieces := [], groups := ⟨p.pieces, []⟩ :: p.groups, last := some '\x7b' }

/-- Ends the innermost group. -/
def closeGroup (p : Progress) : Except Defect Progress :=
  match p.groups with
  | [] => .error .unopenedGroup
  | g :: gs =>
    let all := (p.pieces.reverse :: g.alternatives).reverse
    .ok { pieces := .oneOf all :: g.before, groups := gs, last := some '\x7d' }

/-- A comma begins the next alternative inside a group and is itself elsewhere. -/
def comma (p : Progress) : Progress :=
  match p.groups with
  | [] => p.push (.literal ',') ','
  | g :: gs =>
    { pieces := [], last := some ','
      groups := { g with alternatives := p.pieces.reverse :: g.alternatives } :: gs }

/-- Puts a piece for directories in place of the slash before it; one that already
stands for directories stays. -/
def replaceSlash (p : Progress) (piece : Piece) : List Piece :=
  match p.pieces with
  | .leadingDirs :: r => .leadingDirs :: r
  | .trailingDirs :: r => .trailingDirs :: r
  | _ :: r => piece :: r
  | [] => [piece]

/-- Takes two asterisks, given what follows them; gives what remains. -/
def doubleStar (p : Progress) (r : List Char) : Progress × List Char :=
  if p.pieces.isEmpty then
    match r with
    | [] => ({ p with pieces := [.leadingDirs], last := some '*' }, [])
    | '/' :: r => ({ p with pieces := [.leadingDirs], last := some '/' }, r)
    | r => (p.pushPlain, r)
  else if p.last ≠ some '/' then (p.pushPlain, r)
  else
    match r with
    | [] => ({ p with pieces := p.replaceSlash .trailingDirs, last := some '*' }, [])
    | '/' :: r => ({ p with pieces := p.replaceSlash .innerDirs, last := some '/' }, r)
    | c :: r =>
      if (c = ',' ∨ c = '\x7d') ∧ !p.groups.isEmpty then
        ({ p with pieces := p.replaceSlash .trailingDirs, last := some '*' }, c :: r)
      else (p.pushPlain, c :: r)

end Progress

/-- The ranges of a class, up to its bracket, and what follows. The flags say whether
this is the first character, and whether a range waits for its end; the ranges read
so far stand last first. -/
def readRanges (first open? : Bool) (ranges : List (Char × Char)) :
    List Char → Except Defect (List (Char × Char) × List Char)
  | [] => .error .unclosedClass
  | c :: r =>
    let extend : Except Defect (List (Char × Char)) :=
      match ranges with
      | (low, _) :: rest => if c < low then .error (.invalidRange low c) else .ok ((low, c) :: rest)
      | [] => .ok [(c, c)]
    if c = ']' ∧ !first then
      .ok ((if open? then ('-', '-') :: ranges else ranges).reverse, r)
    else if c = '-' ∧ !first ∧ !open? then readRanges false true ranges r
    else if open? ∧ c ≠ ']' then
      match extend with
      | .ok ranges => readRanges false false ranges r
      | .error e => .error e
    else readRanges false false ((c, c) :: ranges) r

theorem readRanges_length {first open? : Bool} {ranges : List (Char × Char)} {cs : List Char}
    {res : List (Char × Char) × List Char} (h : readRanges first open? ranges cs = .ok res) :
    res.2.length < cs.length := by
  induction cs generalizing first open? ranges with
  | nil => simp [readRanges] at h
  | cons c r ih =>
    simp only [readRanges] at h
    split at h
    · cases h; simp
    · split at h
      · have := ih h; simp; omega
      · split at h
        · split at h
          · have := ih h; simp; omega
          · cases h
        · have := ih h; simp; omega

theorem doubleStar_length (p : Progress) (r : List Char) :
    (p.doubleStar r).2.length ≤ r.length := by
  unfold Progress.doubleStar
  split
  · split <;> simp
  · split
    · simp
    · split
      · simp
      · simp
      · split <;> simp

/-- A character class after its bracket. -/
def readClass (r : List Char) : Except Defect (Piece × List Char) :=
  match r with
  | '!' :: r => (readRanges true false [] r).map fun (ranges, r) => (.charClass true ranges, r)
  | '^' :: r => (readRanges true false [] r).map fun (ranges, r) => (.charClass true ranges, r)
  | r => (readRanges true false [] r).map fun (ranges, r) => (.charClass false ranges, r)

theorem readClass_length {r : List Char} {res : Piece × List Char}
    (h : readClass r = .ok res) : res.2.length < r.length := by
  have key {cs : List Char} {b : Bool}
      (h : (readRanges true false [] cs).map (fun x => (Piece.charClass b x.1, x.2)) = .ok res) :
      res.2.length < cs.length := by
    cases hr : readRanges true false [] cs with
    | error e => rw [hr] at h; cases h
    | ok x =>
      rw [hr] at h
      cases h
      exact readRanges_length hr
  unfold readClass at h
  split at h
  · have := key h; simp only [List.length_cons]; omega
  · have := key h; simp only [List.length_cons]; omega
  · exact key h

/-- Reads the rest of a pattern. -/
def readPieces (p : Progress) (cs : List Char) : Except Defect Progress :=
  match cs with
  | [] => .ok p
  | '?' :: r => readPieces (p.push .anyByte '?') r
  | '*' :: '*' :: r =>
    have := doubleStar_length p r
    readPieces (p.doubleStar r).1 (p.doubleStar r).2
  | '*' :: r => readPieces (p.push .anyBytes '*') r
  | '[' :: r =>
    match h : readClass r with
    | .ok (piece, rest) =>
      have := readClass_length h
      readPieces (p.push piece ']') rest
    | .error e => .error e
  | '\x7b' :: r => readPieces p.openGroup r
  | '\x7d' :: r =>
    match p.closeGroup with
    | .ok p => readPieces p r
    | .error e => .error e
  | ',' :: r => readPieces p.comma r
  | '\\' :: r =>
    match r with
    | [] => .error .danglingEscape
    | c :: r => readPieces (p.push (.literal c) c) r
  | c :: r => readPieces (p.push (.literal c) c) r
termination_by cs.length
decreasing_by all_goals (simp only [List.length_cons] at *; omega)

/-- The pattern of a text. -/
def parse (text : String) : Except Defect Glob := do
  let p ← readPieces ⟨[], [], none⟩ text.toList
  if p.groups.isEmpty then return ⟨p.pieces.reverse⟩ else throw .unclosedGroup

/-- The number of bytes of a pattern before its first special character. -/
def literalPrefix (text : String) : Nat :=
  (String.ofList (text.toList.takeWhile fun c => c ∉ ['*', '?', '[', '\x7b'])).utf8ByteSize

/-! ### Matching -/

/-- The UTF-8 form of a character. -/
def bytesOf (c : Char) : List UInt8 := (String.ofList [c]).toUTF8.toList

/-- Whether a byte belongs to a range of characters. Beyond ASCII a character stands
for its bytes, and a range runs from the last byte of the one to the first of the other. -/
def inRange (b : UInt8) (r : Char × Char) : Bool :=
  let low := bytesOf r.1
  let high := bytesOf r.2
  if r.1 = r.2 then low.contains b
  else
    low.dropLast.contains b || (low.getLast?.getD 0 ≤ b && b ≤ high.headD 0) ||
      high.tail.contains b

/-- The rest after some bytes, if they stand at the front. -/
def dropBytes? : List UInt8 → List UInt8 → Option (List UInt8)
  | [], r => some r
  | a :: as, b :: bs => if a = b then dropBytes? as bs else none
  | _ :: _, [] => none

/-- The suffixes of a list, longest first. -/
def suffixes : List UInt8 → List (List UInt8)
  | [] => [[]]
  | b :: r => (b :: r) :: suffixes r

/-- Drops suffixes that occur again; they are told apart by their lengths. -/
def distinct (l : List (List UInt8)) : List (List UInt8) :=
  l.foldr (fun s acc => if acc.any (·.length == s.length) then acc else s :: acc) []

/-- The suffixes that begin after a slash. -/
def afterSlashes (s : List UInt8) : List (List UInt8) :=
  (suffixes s).filterMap fun
    | 0x2f :: r => some r
    | _ => none

mutual
/-- Whether a list of pieces stands for the empty name alone, by its form. -/
def isVoid : List Piece → Bool
  | [] => true
  | .oneOf alternatives :: r => allVoid alternatives && isVoid r
  | _ :: _ => false

def allVoid : List (List Piece) → Bool
  | [] => true
  | a :: r => isVoid a && allVoid r
end

mutual
/-- What can remain of a name after a piece. -/
def rests (s : List UInt8) : Piece → List (List UInt8)
  | .literal c => (dropBytes? (bytesOf c) s).toList
  | .anyByte => s.tail?.toList
  | .anyBytes => suffixes s
  | .leadingDirs =>
    s :: (match s with
      | 0x2f :: r => [r]
      | _ => []) ++ afterSlashes s
  | .innerDirs =>
    match s with
    | 0x2f :: r => r :: afterSlashes r
    | _ => []
  | .trailingDirs =>
    match s with
    | 0x2f :: r => suffixes r
    | _ => []
  | .charClass negated ranges =>
    match s with
    | b :: r => if ranges.any (inRange b) != negated then [r] else []
    | [] => []
  | .oneOf alternatives =>
    -- alternatives without pieces do not count
    if allVoid alternatives then [s] else restsOfAny s alternatives

/-- What can remain after a list of pieces. -/
def restsOfAll (starts : List (List UInt8)) : List Piece → List (List UInt8)
  | [] => starts
  | piece :: r => restsOfAll (distinct (starts.flatMap fun s => rests s piece)) r

/-- What can remain after one of some alternatives. -/
def restsOfAny (s : List UInt8) : List (List Piece) → List (List UInt8)
  | [] => []
  | a :: r => (if isVoid a then [] else restsOfAll [s] a) ++ restsOfAny s r
end

/-- **Whether a pattern matches a name.** -/
def matchesName (g : Glob) (name : String) : Bool :=
  match g.pieces with
  | [.leadingDirs] => true
  | pieces => (restsOfAll [name.toUTF8.toList] pieces).any (·.isEmpty)

end Glob

end SiteConfig
