/-!
# Paths

A path is a text whose parts are separated by slashes. It is absolute when it
begins with a slash and otherwise relative to some directory.
-/

namespace SiteConfig.Path

/-- Whether a path does not begin with a slash. -/
def isRelative (p : String) : Bool := p.toList.head? != some '/'

/-- A path seen from a directory. An absolute path is itself; an empty one is the
directory with a slash at its end. -/
def join (dir p : String) : String :=
  if !isRelative p then p
  else if dir.isEmpty ∨ dir.toList.getLast? = some '/' then dir ++ p
  else dir ++ "/" ++ p

/-- The parts between the slashes; an absolute path has an empty first part. -/
def parts (p : String) : List (List Char) :=
  p.toList.foldr (fun c acc =>
    match c, acc with
    | '/', acc => [] :: acc
    | c, part :: r => (c :: part) :: r
    | c, [] => [[c]]) [[]]

/-- The parts that name something: neither empty nor, after the first, a single dot. -/
def names (p : String) : List (List Char) :=
  match parts p with
  | first :: r => first :: r.filter fun n => !n.isEmpty && n != ['.']
  | [] => []

/-- The path without its last part; none for the root and the empty path. Blank parts
and single dots do not count. -/
def parent? (p : String) : Option String :=
  match (names p).reverse with
  | [] => none
  | [[]] => none
  | [_] => some ""
  | _ :: r =>
    match r.reverse with
    | [[]] => some "/"
    | l => some ("/".intercalate (l.map String.ofList))

end SiteConfig.Path
