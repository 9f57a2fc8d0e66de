import SiteConfig.Attempt
import SiteConfig.Failure
import SiteConfig.FileTree.Basic
import SiteConfig.Json.Reader
import SiteConfig.Ledger.Event
import SiteConfig.Text.Blank

/-!
# The ledger

The ledger is a file with one envelope to a line, oldest first. Blank lines do not
count. Reading it back gives the events, the last of them, or those of one run.
-/

namespace SiteConfig

/-- A ledger: the path of its file. -/
structure Ledger where
  path : String
  workingDir : Place

namespace Ledger

/-! ### Texts of envelopes -/

/-- The line of an envelope. -/
def line (e : Envelope) : String := e.toJson.compact ++ "\n"

/-- The lines of a text, without their ends; a carriage return before the end of a
line belongs to the end. -/
def lines (cs : List Char) : List (List Char) :=
  let rec go (line : List Char) : List Char → List (List Char)
    | [] => if line.isEmpty then [] else [line.reverse]
    | '\n' :: r =>
      let line := match line with
        | '\x0d' :: l => l
        | l => l
      line.reverse :: go [] r
    | c :: r => go (c :: line) r
  go [] cs

/-- The envelopes of a text; none when some line is not well formed. -/
def ofText? (text : String) : Option (List Envelope) :=
  ((lines text.toList).filter fun l => !l.all Text.isBlank).mapM fun l =>
    (Json.read? (String.ofList l)).bind Envelope.ofJson?

/-! ### The file -/

/-- A failure of the file system. -/
def osFailure (e : OsError) (statement : String) : Failure :=
  (Failure.simple e.message).within statement

/-- Adds an envelope at the end, making the file and its directory when they are
missing. -/
def append (l : Ledger) (e : Envelope) : Attempt FileTree Failure Unit := do
  match Path.parent? l.path with
  | some dir => fun t =>
    match t.makeDirectories l.workingDir dir with
    | .ok t => (.ok (), t)
    | .error e => (.error (osFailure e "Failed to create ledger parent directory"), t)
  | none => pure ()
  fun t =>
    let old := match t.content l.workingDir l.path with
      | .ok c => c.text?.getD ""
      | .error _ => ""
    match t.writeFile l.workingDir l.path (.text (old ++ line e)) with
    | .ok t => (.ok (), t)
    | .error e => (.error (osFailure e "Failed to open ledger file"), t)

/-- Every event, oldest first. -/
def events (l : Ledger) (t : FileTree) : Except Failure (List Envelope) :=
  if !t.exists? l.workingDir l.path then .ok []
  else
    match t.readText l.workingDir l.path with
    | .error e => .error (osFailure e "Failed to read line from ledger")
    | .ok text =>
      match ofText? text with
      | some es => .ok es
      | none => .error ((Failure.simple Yaml.Error.malformed.message).within
          "Failed to deserialize event from ledger")

/-- The last events, oldest first; all of them without a limit. -/
def lastOf (limit : Option Nat) (es : List Envelope) : List Envelope :=
  match limit with
  | some n => es.drop (es.length - n)
  | none => es

/-- The last events, oldest first. -/
def history (l : Ledger) (t : FileTree) (limit : Option Nat) : Except Failure (List Envelope) :=
  (l.events t).map (lastOf limit)

/-- The events of one run, oldest first. -/
def runEvents (l : Ledger) (t : FileTree) (run : String) : Except Failure (List Envelope) :=
  (l.events t).map fun es => es.filter (·.run == run)

end Ledger

end SiteConfig
