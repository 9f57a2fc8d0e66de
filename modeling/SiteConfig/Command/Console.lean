import SiteConfig.Failure
import SiteConfig.World

/-!
# What a command shows

A command changes the world and writes to two places, one for results and one for
complaints. It ends with an exit code; when it fails, the failure is reported with
its causes, and the exit code is 1.
-/

namespace SiteConfig

/-- What has been written. -/
structure Screen where
  output : String
  complaints : String

/-- A command at work. -/
abbrev Action (α : Type) : Type := Attempt (World × Screen) Failure α

/-- How a command ended, and what it wrote. -/
structure Outcome where
  code : Nat
  output : String
  complaints : String
  deriving DecidableEq, Repr

namespace Failure

/-- A text with some indentation before every line but the first. -/
def indentLines (indentation text : String) : String :=
  String.ofList (text.toList.flatMap fun c => if c = '\n' then '\n' :: indentation.toList else [c])

/-- A cause; when there are several, with its number. -/
def causeText (several : Bool) (number : Nat) (cause : String) : String :=
  if several then
    let digits := toString number
    let blanks := String.ofList (List.replicate (5 - digits.length) ' ')
    blanks ++ digits ++ ": " ++ indentLines "       " cause
  else "    " ++ indentLines "    " cause

/-- **The report of a failure**: the statement, and below it its causes. -/
def report (f : Failure) : String :=
  match f.causes with
  | [] => f.statement
  | causes =>
    let several := decide (1 < causes.length)
    f.statement ++ "\n\nCaused by:" ++
      String.join ((causes.zipIdx).map fun (c, n) => "\n" ++ causeText several n c)

end Failure

namespace Action

/-! ### Writing -/

/-- Writes a text as it is. -/
def write (text : String) : Action Unit :=
  Cell.second.modify fun (s : Screen) => { s with output := s.output ++ text }

/-- Writes a line. -/
def line (text : String) : Action Unit := write (text ++ "\n")

/-- Writes a line of complaint. -/
def complain (text : String) : Action Unit :=
  Cell.second.modify fun (s : Screen) => { s with complaints := s.complaints ++ text ++ "\n" }

/-- Tells of a success. -/
def success (text : String) : Action Unit := line ("✓ " ++ text)

/-- Tells something. -/
def info (text : String) : Action Unit := line ("ℹ " ++ text)

/-- Tells of an error. -/
def error (text : String) : Action Unit := complain ("✗ " ++ text)

/-- Warns. -/
def warning (text : String) : Action Unit := complain ("⚠ " ++ text)

/-- Begins a part. -/
def header (text : String) : Action Unit := line ("\n" ++ text)

/-- Writes a value under its name. -/
def entry (name value : String) : Action Unit := line s!"  {name}: {value}"

/-- Writes a count under its name. -/
def count (name : String) (n : Nat) : Action Unit := entry name (toString n)

/-- Tells of an error and lists what it is made of. -/
def errorList (title : String) (items : List String) : Action Unit := do
  error title
  items.forM fun i => complain s!"  - {i}"

/-! ### Working -/

variable {α : Type}

/-- Works on the world. -/
def onWorld (x : Attempt World Failure α) : Action α := Cell.first.zoom x

/-- Asks whether to go on. There is nobody to ask, so this fails; a command that must
not ask has to be confirmed beforehand. -/
def confirm : Action Unit := Attempt.fail (.simple "IO error: not a terminal")

/-- The outcome of a command that ends with an exit code, and the world after it. -/
def outcome (x : Action Nat) (w : World) : Outcome × World :=
  match x (w, ⟨"", ""⟩) with
  | (.ok code, (w, s)) => (⟨code, s.output, s.complaints⟩, w)
  | (.error f, (w, s)) => (⟨1, s.output, s.complaints ++ "Error: " ++ f.report ++ "\n"⟩, w)

end Action

end SiteConfig
