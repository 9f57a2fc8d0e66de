/-!
# The arguments of the command line

The program is called with some switches and a command, which may have switches and
arguments of its own. Some switches are understood on both sides of the command.

Long switches begin with two hyphens and may hold their value after an equals sign;
short ones begin with one and may be run together. Two hyphens alone end the
switches.
-/

namespace SiteConfig

/-- What the program is asked to do. -/
inductive Command where
  | preview (json : Bool)
  | validate
  | importAll (confirmed : Bool)
  /-- Imports one document from a file: to a name, or as an entity of a type. -/
  | importSingle (file : String) (name type id : Option String) (confirmed : Bool)
  | exportAll (confirmed : Bool)
  | showDocument (name : String) (proposed : Bool)
  | status
  | log (limit : Nat) (runs json : Bool)
  deriving DecidableEq, Repr

/-- A call of the program. -/
inductive Call where
  /-- A command, and the settings file that was asked for. -/
  | perform (command : Command) (settings : Option String)
  | version (program : String)
  | help
  deriving DecidableEq, Repr

namespace Arguments

/-! ### Switches -/

/-- How a switch is used. -/
inductive Shape where
  | flag
  | repeatable
  | value
  deriving DecidableEq, Repr

/-- A switch. -/
structure Switch where
  long : String
  short : Option Char
  shape : Shape

/-- The switches that every command understands. -/
def common : List Switch :=
  [⟨"verbose", some 'v', .repeatable⟩, ⟨"quiet", some 'q', .flag⟩, ⟨"config", some 'c', .value⟩,
   ⟨"help", some 'h', .flag⟩, ⟨"version", some 'V', .flag⟩]

/-- Skips the question whether to go on. -/
def confirmation : Switch := ⟨"yes", some 'y', .flag⟩

/-- The switches of a command, if there is such a command. -/
def switchesOf? (command : String) : Option (List Switch) :=
  match command with
  | "preview" => some [⟨"json", none, .flag⟩]
  | "validate" => some []
  | "import" => some [confirmation]
  | "import-single" =>
    some [⟨"file", some 'f', .value⟩, ⟨"name", none, .value⟩, ⟨"type", none, .value⟩,
      ⟨"id", none, .value⟩, confirmation]
  | "export" => some [confirmation]
  | "show" => some [⟨"sync", none, .flag⟩]
  | "status" => some []
  | "log" => some [⟨"limit", some 'n', .value⟩, ⟨"runs", none, .flag⟩, ⟨"json", none, .flag⟩]
  | _ => none

/-- Why reading the arguments ends early. -/
inductive Stop where
  | misuse
  | help
  | version
  deriving DecidableEq, Repr

/-- Switches that were given, with their values. -/
abbrev Given := List (String × String)

/-- Adds a switch; only a repeatable one may be given twice. -/
def give (given : Given) (s : Switch) (value : String) : Except Stop Given :=
  if s.long = "help" then .error .help
  else if s.long = "version" then .error .version
  else if s.shape ≠ .repeatable ∧ given.any (·.1 == s.long) then .error .misuse
  else .ok (given ++ [(s.long, value)])

/-- Whether an argument cannot be the value of a switch. -/
def looksLikeSwitch (s : String) : Bool := s.startsWith "-" && s != "-"

/-- What some argument needs besides itself. -/
inductive Wants where
  | nothing (given : Given)
  /-- The next argument is the value of a switch. -/
  | valueOf (given : Given) (s : Switch)

/-- Reads a long switch, without its hyphens. -/
def readLong (switches : List Switch) (given : Given) (text : List Char) : Except Stop Wants :=
  let name := String.ofList (text.takeWhile (· ≠ '='))
  let value := text.dropWhile (· ≠ '=')
  match switches.find? (·.long == name), value with
  | none, _ => .error .misuse
  | some s, [] =>
    if s.shape = .value then .ok (.valueOf given s) else (give given s "").map .nothing
  | some s, _ :: v =>
    if s.shape = .value then (give given s (String.ofList v)).map .nothing else .error .misuse

/-- Reads short switches, without their hyphen. What follows a switch with a value is
that value, after an equals sign if there is one. -/
def readShort (switches : List Switch) (given : Given) : List Char → Except Stop Wants
  | [] => .ok (.nothing given)
  | c :: rest =>
    match switches.find? (·.short == some c) with
    | none => .error .misuse
    | some s =>
      if s.shape = .value then
        match rest with
        | [] => .ok (.valueOf given s)
        | '=' :: v => (give given s (String.ofList v)).map .nothing
        | v => (give given s (String.ofList v)).map .nothing
      else do readShort switches (← give given s "") rest

/-- What was read of some arguments: the switches, the other arguments, and what is
left from the first of these on. -/
structure Scanned where
  given : Given
  plain : List String
  left : List String

/-- Reads arguments. With `stopping` the first that is no switch ends the reading. -/
def scan (switches : List Switch) (stopping : Bool) (given : Given) (plain : List String) :
    List String → Except Stop Scanned
  | [] => .ok ⟨given, plain, []⟩
  | a :: rest =>
    if a = "--" then .ok ⟨given, plain ++ rest, []⟩
    else if looksLikeSwitch a then
      let wants := match a.toList with
        | '-' :: '-' :: text => readLong switches given text
        | _ :: text => readShort switches given text
        | [] => .error .misuse
      match wants, rest with
      | .error e, _ => .error e
      | .ok (.nothing given), rest => scan switches stopping given plain rest
      | .ok (.valueOf _ _), [] => .error .misuse
      | .ok (.valueOf given s), v :: rest =>
        if looksLikeSwitch v then .error .misuse
        else
          match give given s v with
          | .ok given => scan switches stopping given plain rest
          | .error e => .error e
    else if stopping then .ok ⟨given, plain, a :: rest⟩
    else scan switches stopping given (plain ++ [a]) rest

/-! ### Commands -/

/-- Whether a switch was given. -/
def Scanned.has (s : Scanned) (name : String) : Bool := s.given.any (·.1 == name)

/-- The value of a switch. -/
def Scanned.value? (s : Scanned) (name : String) : Option String := s.given.lookup name

/-- The greatest limit of log entries. -/
def maxLimit : Nat := Nat.pow 2 64 - 1

/-- A natural number of at most 64 bits; a plus sign may stand before it. -/
def readLimit? (text : String) : Option Nat :=
  let digits := match text.toList with
    | '+' :: r => r
    | r => r
  if digits.isEmpty || !digits.all Char.isDigit then none
  else
    let n := digits.foldl (fun n c => 10 * n + (c.toNat - '0'.toNat)) 0
    if n ≤ maxLimit then some n else none

/-- The number of log entries shown unless another one is asked for. -/
def defaultLimit : Nat := 25

/-- The command of its name and arguments. A single document goes either to a name or
to a type; an identifier needs a type, but does not count beside a name. -/
def commandOf? (command : String) (s : Scanned) : Option Command :=
  match command, s.plain with
  | "preview", [] => some (.preview (s.has "json"))
  | "validate", [] => some .validate
  | "import", [] => some (.importAll (s.has "yes"))
  | "import-single", [] =>
    match s.value? "file", s.value? "name", s.value? "type" with
    | some file, some name, none =>
      some (.importSingle file (some name) none (s.value? "id") (s.has "yes"))
    | some file, none, some type =>
      some (.importSingle file none (some type) (s.value? "id") (s.has "yes"))
    | _, _, _ => none
  | "export", [] => some (.exportAll (s.has "yes"))
  | "show", [name] => some (.showDocument name (s.has "sync"))
  | "status", [] => some .status
  | "log", [] =>
    match s.value? "limit" with
    | none => some (.log defaultLimit (s.has "runs") (s.has "json"))
    | some text => (readLimit? text).map fun n => .log n (s.has "runs") (s.has "json")
  | _, _ => none

/-- The name of the program. -/
def programName : String := "cfgsync"

/-- The call that reading a command's arguments ended in. -/
def stopped (program : String) : Stop → Option Call
  | .misuse => none
  | .help => some .help
  | .version => some (.version program)

/-- The call for help, possibly with a command. -/
def helpFor? : List String → Option Call
  | [] => some .help
  | [command] => if command = "help" ∨ (switchesOf? command).isSome then some .help else none
  | _ => none

/-- **The call of some arguments**; none when they make no sense. -/
def read? (arguments : List String) : Option Call :=
  match scan common true [] [] arguments with
  | .error e => stopped programName e
  | .ok top =>
    match top.left with
    | [] => none
    | "help" :: rest => helpFor? rest
    | command :: rest =>
      match switchesOf? command with
      | none => none
      | some switches =>
        match scan (common ++ switches) false [] [] rest with
        | .error e => stopped s!"{programName}-{command}" e
        | .ok s =>
          let settings := match s.value? "config" with
            | some path => some path
            | none => top.value? "config"
          (commandOf? command s).map fun c => .perform c settings

end Arguments

end SiteConfig
