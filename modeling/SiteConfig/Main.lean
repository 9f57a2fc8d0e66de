import SiteConfig.Command.Run
import Std.Time.DateTime.Timestamp

/-!
# The program

The outer layer: it looks at the part of the disk that a call concerns, runs the call
on the file tree that it found, shows what comes out, and brings the disk up to date.
-/

namespace SiteConfig.Disk

/-- The path of a place. -/
def pathOf (p : Place) : String := "/" ++ "/".intercalate p

/-- An entry of a directory. -/
def entryAt (p : Place) : IO.FS.DirEntry := ⟨pathOf p.dropLast, p.getLast?.getD ""⟩

/-- What the file at a place holds. -/
def readContent (p : Place) : IO FileContent := do
  try return .text (← IO.FS.readFile (entryAt p).path)
  catch _ => return .binary

/-- Adds what stands at a place to a tree. -/
def addNode (t : FileTree) (p : Place) : IO FileTree := do
  let path := (entryAt p).path
  if p.isEmpty || !(← path.pathExists) then return t
  else if ← path.isDir then return t.put p .directory
  else return t.put p (.file (← readContent p))

/-- Adds what stands on the way to a place and there. -/
def addWay (t : FileTree) (p : Place) : IO FileTree :=
  (List.range p.length).foldlM (fun t n => addNode t (p.take (n + 1))) t

/-- Adds what stands on the way to a place, and what the directory there holds. -/
def addPlace (t : FileTree) (p : Place) : IO FileTree := do
  let mut t ← addWay t p
  if t.isDirectoryAt p then
    for e in ← (entryAt p).path.readDir do
      t ← addNode t (p ++ [e.fileName])
  return t

/-- The place of a path, as far as its text tells. -/
def placeOf (workingDir : Place) (path : String) : Place :=
  let start := if Path.isRelative path then workingDir else []
  ((Path.parts path).map String.ofList).foldl (fun p name =>
    if name.isEmpty || name = "." then p else if name = ".." then p.dropLast else p ++ [name]) start

/-- The paths that a call concerns before the settings are known. -/
def firstPaths (e : Environment) (call : Option Call) : List String :=
  let asked := match call with
    | some (.perform (.importSingle file ..) settings) => file :: settings.toList
    | some (.perform _ settings) => settings.toList
    | _ => []
  let user := (e.surroundings .empty).globalDir.map fun dir => Path.join dir "config.yaml"
  asked ++ user.toList ++
    Settings.Surroundings.projectFileNames.map (Path.join e.workingDir)

/-- The paths that some settings name. -/
def settingsPaths (s : Settings) : List String :=
  [s.activePath, s.syncPath, s.stateDir] ++ s.catalog.toList ++ s.schemaDir.toList

/-- The settings of a call, if they can be loaded. -/
def settingsOf? (e : Environment) (t : FileTree) (call : Option Call) : Option Settings :=
  match call with
  | some (.perform _ explicit) => (Settings.load (e.surroundings t) explicit).toOption
  | _ => none

/-- Brings the disk up to date: removes the files that are gone, and writes those that
are new or have changed. -/
def save (old new : FileTree) : IO Unit := do
  for (p, n) in old.nodes do
    match n, new.get? p with
    | .file _, none => IO.FS.removeFile (entryAt p).path
    | _, _ => pure ()
  for (p, n) in new.nodes do
    match n, old.get? p with
    | .directory, none => IO.FS.createDirAll (entryAt p).path
    | .file c, before =>
      let was := match before with
        | some (.file c) => c.text?
        | _ => none
      match c.text? with
      | some text => if was != some text then IO.FS.writeFile (entryAt p).path text
      | none => pure ()
    | _, _ => pure ()

/-- Holds a lock file until the end of the program, if there is one. Says whether
somebody else holds it. -/
def holdLock (p : Place) : IO (Bool × Option IO.FS.Handle) := do
  if ← (entryAt p).path.pathExists then
    let handle ← IO.FS.Handle.mk (entryAt p).path .readWrite
    if ← handle.tryLock then return (false, some handle)
    else return (true, none)
  else return (false, none)

/-- The variables that settings are read from. -/
def variableNames : List String :=
  ["CFGSYNC_ACTIVE_DIR", "CFGSYNC_ACTIVE_BACKEND", "CFGSYNC_SYNC_DIR", "CFGSYNC_STATE_DIR",
   "CFGSYNC_STRICT_SCHEMA"]

/-- Where the program runs. -/
def environment : IO Environment := do
  let mut overrides := []
  for name in variableNames do
    if let some value ← IO.getEnv name then overrides := (name, value) :: overrides
  return { workingDir := (← IO.currentDir).toString, home := ← IO.getEnv "HOME", overrides }

/-- The time. -/
def now : IO Timestamp := do
  let ns := (← Std.Time.Timestamp.now).toNanosecondsSinceUnixEpoch.toInt
  return ⟨ns.fdiv 1000000000, (ns.fmod 1000000000).toNat⟩

/-- Runs a call and says what its exit code is. -/
def run (arguments : List String) : IO Nat := do
  let e ← environment
  let call := Arguments.read? arguments
  let workingDir := (e.surroundings .empty).workingPlace
  let place := placeOf workingDir
  let mut files ← (e.workingDir :: firstPaths e call).foldlM (fun t p => addWay t (place p)) .empty
  let mut held := []
  let mut lock := none
  if let some s := settingsOf? e files call then
    files ← (settingsPaths s).foldlM (fun t p => addPlace t (place p)) files
    let d : LockTable.Directory := ⟨s.stateDir, workingDir⟩
    let (taken, handle) ← holdLock (place (d.filePath s.lockKey))
    if taken then held := [d.holdKey files s.lockKey]
    lock := handle
  let seed := (← IO.getRandomBytes 16).toList.foldl (fun n b => 256 * n + b.toNat) 0
  let world := { World.ofFiles files (← now) seed with held }
  let (outcome, world) := Command.run e arguments world
  IO.print outcome.output
  IO.eprint outcome.complaints
  save files world.files
  if let some handle := lock then handle.unlock
  return outcome.code

end SiteConfig.Disk

/-- Runs the program. -/
def main (arguments : List String) : IO UInt32 := do
  return (← SiteConfig.Disk.run arguments).toUInt32
