import Mathlib
import SiteConfig.Proofs.Keeping

/-!
# Names do not leave the directory

What a directory of documents does is a **program** of calls to the file system, each of which may
depend on the answers to those before it (`SiteConfig.FileProgram`). Running the programs is what
the storage does (`SiteConfig.Storage.Operation.on_directory`), so that the calls that a program can
ever make, whatever it is answered, tell which paths are opened, created, renamed or removed.

All of them are the path of the directory, or that path and one more part (`SiteConfig.Path.Child`),
which is the file of a document or the draft of it. In any tree the latter lead to entries of the
directory (`SiteConfig.Storage.Directory.exists_entry_of_child`), and a run changes nothing but the
directory and such entries (`SiteConfig.FileProgram.Calls.run_touches`). Names that could lead
elsewhere are refused before there is a call that has anything to do with them
(`SiteConfig.Storage.Operation.program_of_astray`).
-/

namespace SiteConfig

/-! ### Direct children -/

namespace Path

/-- **A direct child of a directory**: its path is that of the directory and one more part, which is
neither blank nor a step to the directory itself or out of it. -/
structure Child (dir x p : String) : Prop where
  slash : '/' ∉ x.toList
  nonempty : x ≠ ""
  dot : x ≠ "."
  dots : x ≠ ".."
  path_eq : p = join dir x

theorem child_join (dir : String) {x : String} (hslash : '/' ∉ x.toList)
    (hlen : 3 ≤ x.toList.length) : Child dir x (join dir x) := by
  have hne : ∀ y : String, y.toList.length < 3 → x ≠ y := by
    rintro y hy rfl
    omega
  exact ⟨hslash, hne "" (by decide), hne "." (by decide), hne ".." (by decide), rfl⟩

/-- A path that is joined ends as its last part does. -/
theorem getLast?_join (dir : String) {x : String} (hx : x.toList ≠ []) :
    (join dir x).toList.getLast? = x.toList.getLast? := by
  unfold join
  split
  · rfl
  · split <;> rw [String.toList_append, List.getLast?_append_of_ne_nil _ hx]

end Path

/-! ### Programs -/

/-- A call to the file system, by what it is answered. -/
inductive FileCall : Type → Type
  | isFile (path : String) : FileCall Bool
  | isDirectory (path : String) : FileCall Bool
  | content (path : String) : FileCall (Except OsError FileContent)
  | list (path : String) : FileCall (Except OsError (NameMap FileNode))
  | makeDirectories (path : String) : FileCall (Except OsError Unit)
  | writeFile (path : String) (c : FileContent) : FileCall (Except OsError Unit)
  | renameFile (source target : String) : FileCall (Except OsError Unit)
  | removeFile (path : String) : FileCall (Except OsError Unit)

/-- A change of a tree, which stays as it is when the change fails. -/
def FileTree.changed (t : FileTree) (f : FileTree → Except OsError FileTree) :
    Except OsError Unit × FileTree :=
  match f t with
  | .ok t' => (.ok (), t')
  | .error e => (.error e, t)

/-- A change that fails leaves the tree as it is. -/
theorem FileTree.changed_cases (t : FileTree) (f : FileTree → Except OsError FileTree) :
    (t.changed f).2 = t ∨ f t = .ok (t.changed f).2 := by
  unfold changed
  cases f t with
  | error e => exact .inl rfl
  | ok t' => exact .inr rfl

/-- A file that is written is put at the place of its path. -/
theorem FileTree.exists_put_of_writeFile {t t' : FileTree} {wd : Place} {path : String}
    {c : FileContent} (h : t.writeFile wd path c = .ok t') :
    ∃ p, t.resolve wd path = .ok p ∧ t' = t.put p (.file c) := by
  unfold writeFile at h
  rcases hp : t.resolve wd path with e | p <;> rw [hp] at h
  · cases h
  · refine ⟨p, rfl, ?_⟩
    simp only [bind, Except.bind] at h
    split at h
    · cases h
    · cases h
      rfl
    · split at h <;> cases h
      rfl

/-- The answer to a call, and the tree after it. -/
def FileCall.perform {β : Type} (wd : Place) (t : FileTree) : FileCall β → β × FileTree
  | .isFile path => (t.isFile wd path, t)
  | .isDirectory path => (t.isDirectory wd path, t)
  | .content path => (t.content wd path, t)
  | .list path => (t.list wd path, t)
  | .makeDirectories path => t.changed fun t => t.makeDirectories wd path
  | .writeFile path c => t.changed fun t => t.writeFile wd path c
  | .renameFile source target => t.changed fun t => t.renameFile wd source target
  | .removeFile path => t.changed fun t => t.removeFile wd path

/-- **A program**: an outcome, or a call and what to do on each answer. -/
inductive FileProgram (α : Type) : Type 1
  | done (r : Except ConfigError α)
  | call {β : Type} (c : FileCall β) (next : β → FileProgram α)

namespace FileProgram

variable {α β : Type} {wd : Place} {t : FileTree}

/-- Goes on with the value of a program, unless that failed. -/
def andThen : FileProgram α → (α → FileProgram β) → FileProgram β
  | done (.ok a), f => f a
  | done (.error e), _ => done (.error e)
  | call c next, f => call c fun b => (next b).andThen f

instance : Monad FileProgram where
  pure a := done (.ok a)
  bind := andThen

/-- A call that may fail. -/
def ask (c : FileCall (Except OsError β)) (seen : OsError → ConfigError) : FileProgram β :=
  call c fun r => done (r.mapError seen)

/-- What a program does to a tree of files. -/
def run (wd : Place) : FileProgram α → Attempt FileTree ConfigError α
  | done r => Attempt.ofExcept r
  | call c next => fun t => (next (c.perform wd t).1).run wd (c.perform wd t).2

theorem run_done (r : Except ConfigError α) : (done r).run wd = Attempt.ofExcept r := rfl

theorem run_bind (p : FileProgram α) (f : α → FileProgram β) :
    (p >>= f).run wd = p.run wd >>= fun a => (f a).run wd := by
  show (p.andThen f).run wd = _
  induction p with
  | done r => cases r <;> rfl
  | call c next ih =>
    funext t
    exact congrFun (ih (c.perform wd t).1) (c.perform wd t).2

/-- A call that looks at the tree leaves it as it is. -/
theorem run_query {c : FileCall (Except OsError β)} {f : FileTree → Except OsError β}
    (hc : ∀ t, c.perform wd t = (f t, t)) (seen : OsError → ConfigError) :
    (ask c seen).run wd t = ((f t).mapError seen, t) := by
  show ((c.perform wd t).1.mapError seen, (c.perform wd t).2) = _
  rw [hc]

/-- A call that changes the tree leaves it as it is when the change fails. -/
theorem run_change {c : FileCall (Except OsError Unit)} {f : FileTree → Except OsError FileTree}
    (hc : ∀ t, c.perform wd t = t.changed f) (seen : OsError → ConfigError) :
    (ask c seen).run wd = fun t =>
      match f t with
      | .ok t' => (.ok (), t')
      | .error e => (.error (seen e), t) := by
  funext t
  show ((c.perform wd t).1.mapError seen, (c.perform wd t).2) = _
  rw [hc, FileTree.changed]
  cases f t <;> rfl

/-- **Every call that a program can make**, whatever it is answered, has some property. -/
def Calls (P : ∀ {β : Type}, FileCall β → Prop) : FileProgram α → Prop
  | done _ => True
  | call c next => P c ∧ ∀ b, (next b).Calls P

variable {P : ∀ {β : Type}, FileCall β → Prop}

theorem Calls.bind {p : FileProgram α} {f : α → FileProgram β} (hp : p.Calls P)
    (hf : ∀ a, (f a).Calls P) : (p >>= f).Calls P := by
  show (p.andThen f).Calls P
  induction p with
  | done r =>
    cases r with
    | error e => trivial
    | ok a => exact hf a
  | call c next ih => exact ⟨hp.1, fun b => ih b (hp.2 b)⟩

theorem calls_ask {c : FileCall (Except OsError β)} {seen : OsError → ConfigError} (hc : P c) :
    (ask c seen).Calls P := ⟨hc, fun _ => trivial⟩

/-- What comes after something that fails is never called. -/
theorem calls_after {r : Except ConfigError α} {f : α → FileProgram β}
    (hf : ∀ a, r = .ok a → (f a).Calls P) : (done r >>= f).Calls P := by
  cases r with
  | error e => trivial
  | ok a => exact hf a rfl

end FileProgram

namespace Storage

namespace Directory

variable (d : Directory) (n : String)

/-! ### What a directory does -/

/-- Whether there is a file. -/
def hasProgram : FileProgram Bool := do
  .done (checkEntry n)
  .call (.isFile (d.filePath n)) pure

/-- Reads a file. -/
def readProgram : FileProgram Document := do
  .done (checkEntry n)
  let c ← FileProgram.ask (.content (d.filePath n)) fun e =>
    if e = .notFound then .notFound n else .os e
  .done (decode n c)

/-- Writes a draft and moves it to its place. -/
def writeProgram (m : Yaml.Mapping) : FileProgram Unit := do
  .done (validateName n)
  FileProgram.ask (.makeDirectories d.path) .os
  let text ← FileProgram.done ((Yaml.write m).mapError .yaml)
  FileProgram.ask (.writeFile (d.draftPath n) (.text text)) fun e => .write n e.message
  FileProgram.ask (.renameFile (d.draftPath n) (d.filePath n)) fun e => .write n e.message

/-- Removes a file. -/
def deleteProgram : FileProgram Unit := do
  .done (checkEntry n)
  FileProgram.ask (.removeFile (d.filePath n)) fun e =>
    if e = .notFound then .notFound n else .write n e.message

/-- Lists the directory. -/
def listProgram (start : String) : FileProgram (List String) := do
  if ← FileProgram.call (.isDirectory d.path) pure then
    let children ← FileProgram.ask (.list d.path) .os
    return ((documentNames children).filter (beginsWith start)).mergeSort fun a b => !(b < a : Bool)
  else return []

/-- Removes some files one by one. -/
def deleteEachProgram : List String → FileProgram Unit
  | [] => return
  | n :: names => do
    d.deleteProgram n
    deleteEachProgram names

theorem has_directory : (directory d treeCell).has n = (d.hasProgram n).run d.workingDir := by
  funext t
  show (d.has t n, t) = _
  unfold has hasProgram
  cases checkEntry n <;> rfl

theorem read_directory : (directory d treeCell).read n = (d.readProgram n).run d.workingDir := by
  funext t
  show (d.read t n, t) = _
  unfold read readProgram
  rw [FileProgram.run_bind, FileProgram.run_done]
  cases checkEntry n with
  | error e => rfl
  | ok u =>
    show _ = FileProgram.run d.workingDir _ t
    rw [FileProgram.run_bind, Attempt.bind_apply, FileProgram.run_query fun _ => rfl]
    rcases t.content d.workingDir (d.filePath n) with e | c
    · cases e <;> rfl
    · rfl

theorem write_directory (m : Yaml.Mapping) :
    (directory d treeCell).write n m = (d.writeProgram n m).run d.workingDir := by
  show d.write n m = _
  unfold write writeProgram
  simp only [FileProgram.run_bind, FileProgram.run_done]
  refine congrArg (Attempt.ofExcept (validateName n) >>= ·) (funext fun _ => ?_)
  rw [FileProgram.run_change fun _ => rfl]
  refine congrArg (_ >>= ·) (funext fun _ => congrArg (_ >>= ·) (funext fun text => ?_))
  refine congrArg₂ (fun (x : Attempt FileTree ConfigError Unit) f => x >>= f) ?_
    (funext fun _ => ?_)
  · exact (FileProgram.run_change (fun _ => rfl) _).symm
  · exact (FileProgram.run_change (fun _ => rfl) _).symm

theorem delete_directory :
    (directory d treeCell).delete n = (d.deleteProgram n).run d.workingDir := by
  show d.delete n = _
  unfold delete deleteProgram
  rw [FileProgram.run_bind, FileProgram.run_change fun _ => rfl]
  refine congrArg (Attempt.ofExcept (checkEntry n) >>= ·) (funext fun _ => funext fun t => ?_)
  rcases t.removeFile d.workingDir (d.filePath n) with e | t'
  · cases e <;> rfl
  · rfl

theorem list_directory (start : String) :
    (directory d treeCell).list start = (d.listProgram start).run d.workingDir := by
  funext t
  show (d.list t start, t) = _
  unfold list listProgram
  rw [FileProgram.run_bind]
  show _ = FileProgram.run d.workingDir
    (if t.isDirectory d.workingDir d.path = true then _ else _) t
  cases t.isDirectory d.workingDir d.path with
  | false => rfl
  | true =>
    rw [if_neg (by decide), if_pos rfl, FileProgram.run_bind, Attempt.bind_apply,
      FileProgram.run_query fun _ => rfl]
    cases t.list d.workingDir d.path <;> rfl

theorem deleteEach_directory (names : List String) :
    deleteEach (directory d treeCell).delete names
      = (d.deleteEachProgram names).run d.workingDir := by
  induction names with
  | nil => rfl
  | cons n names ih =>
    rw [deleteEach, deleteEachProgram, FileProgram.run_bind, delete_directory, ih]

end Directory

/-! ### Operations -/

/-- What can be done with the documents of a storage, by what it gives. -/
inductive Operation : Type → Type
  | has (n : String) : Operation Bool
  | read (n : String) : Operation Document
  | write (n : String) (m : Yaml.Mapping) : Operation Unit
  | delete (n : String) : Operation Unit
  | rename (source target : String) : Operation Unit
  | deleteAll (start : String) : Operation Nat

namespace Operation

variable {σ α : Type}

/-- What a storage does. -/
def on (st : Storage σ) : Operation α → Attempt σ ConfigError α
  | has n => st.has n
  | read n => st.read n
  | write n m => st.write n m
  | delete n => st.delete n
  | rename n k => st.rename n k
  | deleteAll start => st.deleteAll start

/-- What a directory does. -/
def program (d : Directory) : Operation α → FileProgram α
  | has n => d.hasProgram n
  | read n => d.readProgram n
  | write n m => d.writeProgram n m
  | delete n => d.deleteProgram n
  | rename n k => do
    let e ← d.readProgram n
    d.writeProgram k e.data
    d.deleteProgram n
  | deleteAll start => do
    let names ← d.listProgram start
    d.deleteEachProgram names
    return names.length

/-- The names that an operation is about. -/
def Names : Operation α → String → Prop
  | has n | read n | write n _ | delete n => (· = n)
  | rename n k => fun x => x = n ∨ x = k
  | deleteAll start => (beginsWith start · = true)

/-- The name that an operation begins with, if it is about one. -/
def first? : Operation α → Option String
  | has n | read n | write n _ | delete n | rename n _ => some n
  | deleteAll _ => none

/-- **What a directory does is to run a program.** -/
theorem on_directory (d : Directory) (o : Operation α) :
    o.on (directory d Directory.treeCell) = (o.program d).run d.workingDir := by
  cases o with
  | has n => exact d.has_directory n
  | read n => exact d.read_directory n
  | write n m => exact d.write_directory n m
  | delete n => exact d.delete_directory n
  | rename n k =>
    show (directory d _).read n >>= _ = _
    simp only [program, FileProgram.run_bind, ← d.read_directory, ← d.write_directory,
      ← d.delete_directory]
    rfl
  | deleteAll start =>
    show (directory d _).list start >>= _ = _
    simp only [program, FileProgram.run_bind, ← d.list_directory, ← d.deleteEach_directory]
    rfl

end Operation

/-! ### The paths of names -/

namespace Directory

variable (d : Directory) (N : String → Prop)

/-- The entry of a directory that some name stands for: the file of the document, or the draft of
it. -/
def Stands (x : String) : Prop := ∃ n, N n ∧ (x = fileName n ∨ x = draftName n)

/-- **A path that is opened because of some name** is that of a direct child. -/
def Opens (p : String) : Prop := ∃ x, Stands N x ∧ Path.Child d.path x p

/-- **A call within a directory** is about the directory, or about a child because of some name. -/
def Within {β : Type} : FileCall β → Prop
  | .isFile p => d.Opens N p
  | .isDirectory p => p = d.path
  | .content p => d.Opens N p
  | .list p => p = d.path
  | .makeDirectories p => p = d.path
  | .writeFile p _ => d.Opens N p
  | .renameFile p q => d.Opens N p ∧ d.Opens N q
  | .removeFile p => d.Opens N p

variable {d N} {n : String}

theorem length_of_stands {x : String} (h : Stands N x) : 3 ≤ x.toList.length := by
  obtain ⟨n, -, rfl | rfl⟩ := h
  · exact length_fileName
  · exact length_draftName

theorem child_filePath (d : Directory) (h : checkEntry n = .ok ()) :
    Path.Child d.path (fileName n) (d.filePath n) :=
  Path.child_join d.path (slash_notMem_fileName (slash_notMem_of_checkEntry h)) length_fileName

theorem child_draftPath (d : Directory) (h : checkEntry n = .ok ()) :
    Path.Child d.path (draftName n) (d.draftPath n) :=
  Path.child_join d.path (slash_notMem_draftName (slash_notMem_of_checkEntry h)) length_draftName

theorem opens_filePath (hn : N n) (h : checkEntry n = .ok ()) : d.Opens N (d.filePath n) :=
  ⟨_, ⟨n, hn, .inl rfl⟩, d.child_filePath h⟩

theorem opens_draftPath (hn : N n) (h : checkEntry n = .ok ()) : d.Opens N (d.draftPath n) :=
  ⟨_, ⟨n, hn, .inr rfl⟩, d.child_draftPath h⟩

theorem calls_hasProgram (hn : N n) : (d.hasProgram n).Calls (d.Within N) :=
  FileProgram.calls_after fun _ h => ⟨opens_filePath hn h, fun _ => trivial⟩

theorem calls_readProgram (hn : N n) : (d.readProgram n).Calls (d.Within N) :=
  FileProgram.calls_after fun _ h =>
    (FileProgram.calls_ask (opens_filePath hn h)).bind fun _ => trivial

theorem calls_writeProgram (hn : N n) (m : Yaml.Mapping) :
    (d.writeProgram n m).Calls (d.Within N) := by
  refine FileProgram.calls_after fun _ h => ?_
  have hcheck := checkEntry_of_validateName h
  refine (FileProgram.calls_ask rfl).bind fun _ => FileProgram.calls_after fun text _ => ?_
  refine (FileProgram.calls_ask (opens_draftPath hn hcheck)).bind fun _ => ?_
  exact FileProgram.calls_ask ⟨opens_draftPath hn hcheck, opens_filePath hn hcheck⟩

theorem calls_deleteProgram (hn : N n) : (d.deleteProgram n).Calls (d.Within N) :=
  FileProgram.calls_after fun _ h => FileProgram.calls_ask (opens_filePath hn h)

theorem calls_deleteEachProgram {names : List String} (h : ∀ n ∈ names, N n) :
    (d.deleteEachProgram names).Calls (d.Within N) := by
  induction names with
  | nil => trivial
  | cons n names ih =>
    have hrest := ih fun k hk => h k (List.mem_cons_of_mem n hk)
    exact (calls_deleteProgram (h n List.mem_cons_self)).bind fun _ => hrest

end Directory

/-- **All calls are within the directory.** -/
theorem Operation.calls_program {α : Type} (d : Directory) (o : Operation α) :
    (o.program d).Calls (d.Within o.Names) := by
  cases o with
  | has n => exact Directory.calls_hasProgram rfl
  | read n => exact Directory.calls_readProgram rfl
  | write n m => exact Directory.calls_writeProgram (N := (· = n)) rfl m
  | delete n => exact Directory.calls_deleteProgram rfl
  | rename n k =>
    refine (Directory.calls_readProgram (.inl rfl)).bind fun e => ?_
    refine (Directory.calls_writeProgram (.inr rfl) e.data).bind fun _ => ?_
    exact Directory.calls_deleteProgram (.inl rfl)
  | deleteAll start =>
    refine ⟨rfl, fun there => ?_⟩
    cases there with
    | false => trivial
    | true =>
      -- the names are those that begin with the text, whatever the directory is said to hold
      refine ⟨rfl, fun children => ?_⟩
      cases children with
      | error e => trivial
      | ok children =>
        refine (Directory.calls_deleteEachProgram fun n hn => ?_).bind fun _ => trivial
        exact (List.mem_filter.1 (List.mem_mergeSort.1 hn)).2

/-! ### The places of paths -/

namespace Directory

variable {d : Directory} {N : String → Prop} {t t' : FileTree} {q : Place} {p : String}

/-- The path that leads to the directory, also when its own path is empty. -/
def root (d : Directory) : String := if d.path = "" then "." else d.path

/-- A name that is a path of its own is looked for in the working directory. -/
theorem step_of_resolve {wd : Place} {x : String} (hslash : '/' ∉ x.toList)
    (h : t.resolve wd x = .ok q) : t.step wd x = .ok q := by
  have hrel : Path.isRelative x = true := by
    rw [Path.isRelative, bne_iff_ne]
    exact fun hhead => hslash (List.mem_of_mem_head? hhead)
  unfold FileTree.resolve at h
  split at h
  · cases h
  · split at h
    · cases h
    · simp only [Path.parts_eq, Path.split_of_notMem hslash, List.map_singleton,
        String.ofList_toList, List.foldlM_cons, List.foldlM_nil, bind_pure] at h
      exact h

/-- **The path of a child** leads to an entry of the directory. -/
theorem exists_entry_of_child {x : String} (hx : Path.Child d.path x p)
    (hlen : 3 ≤ x.toList.length) (hq : t.resolve d.workingDir p = .ok q) :
    ∃ b, t.Leads d.workingDir d.root b ∧ q = b ++ [x] := by
  rw [hx.path_eq] at hq
  unfold root
  by_cases hd : d.path = ""
  · have hjoin : Path.join "" x = x := by
      have hhead : x.toList.head? ≠ some '/' := fun h => hx.slash (List.mem_of_mem_head? h)
      simp [Path.join, Path.isRelative, hhead]
    rw [hd, hjoin] at hq
    have hstep := step_of_resolve hx.slash hq
    have hdir := FileTree.directory_of_step hstep
    refine ⟨d.workingDir, ⟨?_, hdir⟩, ?_⟩
    · have hdot : t.step d.workingDir "." = .ok d.workingDir := by
        rw [FileTree.step, hdir]
        rfl
      rw [if_pos hd]
      show t.step d.workingDir "." >>= pure = _
      rw [bind_pure, hdot]
    · simp only [FileTree.step, hdir, String.isEmpty_iff, hx.nonempty, hx.dot, or_self,
        if_false, hx.dots] at hstep
      split at hstep <;> cases hstep
      rfl
  · rw [if_neg hd]
    obtain ⟨b, hb, rfl, -⟩ := FileTree.exists_leads_of_entry hd hx.slash hlen hq
    exact ⟨b, hb, rfl⟩

theorem exists_entry_of_opens (h : d.Opens N p) (hq : t.resolve d.workingDir p = .ok q) :
    ∃ b x, t.Leads d.workingDir d.root b ∧ Stands N x ∧ q = b ++ [x] := by
  obtain ⟨x, hx, hchild⟩ := h
  obtain ⟨b, hb, rfl⟩ := exists_entry_of_child hchild (length_of_stands hx) hq
  exact ⟨b, x, hb, hx, rfl⟩

/-- **A change within a directory**: the directory itself is made, or only what stands in it because
of some names is changed. -/
def Touches (d : Directory) (N : String → Prop) (t t' : FileTree) : Prop :=
  t.makeDirectories d.workingDir d.path = .ok t' ∨
    ∃ b, t.Leads d.workingDir d.root b ∧
      ∀ r, t'.get? r ≠ t.get? r → ∃ x, Stands N x ∧ r = b ++ [x]

theorem touches_writeFile {c : FileContent} (hp : d.Opens N p)
    (h : t.writeFile d.workingDir p c = .ok t') : d.Touches N t t' := by
  obtain ⟨q, hq, rfl⟩ := FileTree.exists_put_of_writeFile h
  obtain ⟨b, x, hb, hx, rfl⟩ := exists_entry_of_opens hp hq
  refine .inr ⟨b, hb, fun r hr => ⟨x, hx, ?_⟩⟩
  by_contra hne
  rw [FileTree.get?_put t (by simp), if_neg hne] at hr
  exact hr rfl

theorem touches_removeFile (hp : d.Opens N p) (h : t.removeFile d.workingDir p = .ok t') :
    d.Touches N t t' := by
  obtain ⟨q, c, hq, -, rfl⟩ := FileTree.exists_of_removeFile h
  obtain ⟨b, x, hb, hx, rfl⟩ := exists_entry_of_opens hp hq
  refine .inr ⟨b, hb, fun r hr => ⟨x, hx, ?_⟩⟩
  by_contra hne
  rw [FileTree.get?_erase t (by simp), if_neg hne] at hr
  exact hr rfl

theorem touches_renameFile {p' : String} (hp : d.Opens N p) (hp' : d.Opens N p')
    (h : t.renameFile d.workingDir p p' = .ok t') : d.Touches N t t' := by
  obtain ⟨q, q', n, hq, hq', -, -, rfl⟩ := FileTree.exists_of_renameFile h
  obtain ⟨b, x, hb, hx, rfl⟩ := exists_entry_of_opens hp hq
  obtain ⟨b', y, hb', hy, rfl⟩ := exists_entry_of_opens hp' hq'
  obtain rfl := hb.unique hb'
  refine .inr ⟨b, hb, fun r hr => ?_⟩
  by_cases hrx : r = b ++ [x]
  · exact ⟨x, hx, hrx⟩
  by_cases hry : r = b ++ [y]
  · exact ⟨y, hy, hry⟩
  split at hr
  · exact absurd rfl hr
  · rw [FileTree.get?_put _ (by simp), if_neg hry, FileTree.get?_erase t (by simp),
      if_neg hrx] at hr
    exact absurd rfl hr

end Directory

end Storage

open Relation in
/-- **A call within a directory** changes nothing else. -/
theorem FileCall.perform_touches {β : Type} {d : Storage.Directory} {N : String → Prop}
    {c : FileCall β} (hc : d.Within N c) (t : FileTree) :
    ReflTransGen (d.Touches N) t (c.perform d.workingDir t).2 := by
  have hchange : ∀ f : FileTree → Except OsError FileTree,
      (∀ t', f t = .ok t' → d.Touches N t t') →
      ReflTransGen (d.Touches N) t (t.changed f).2 := by
    intro f hf
    obtain h | h := t.changed_cases f
    · rw [h]
    · exact .single (hf _ h)
  cases c with
  | isFile p => exact .refl
  | isDirectory p => exact .refl
  | content p => exact .refl
  | list p => exact .refl
  | makeDirectories p =>
    obtain rfl : p = d.path := hc
    exact hchange _ fun t' h => .inl h
  | writeFile p c => exact hchange _ fun t' h => Storage.Directory.touches_writeFile hc h
  | renameFile p p' => exact hchange _ fun t' h => Storage.Directory.touches_renameFile hc.1 hc.2 h
  | removeFile p => exact hchange _ fun t' h => Storage.Directory.touches_removeFile hc h

/-- **A run of calls within a directory** changes nothing else. -/
theorem FileProgram.Calls.run_touches {α : Type} {d : Storage.Directory} {N : String → Prop}
    {p : FileProgram α} (hp : p.Calls (d.Within N)) (t : FileTree) :
    Relation.ReflTransGen (d.Touches N) t (p.run d.workingDir t).2 := by
  induction p generalizing t with
  | done r => exact .refl
  | call c next ih => exact (FileCall.perform_touches hp.1 t).trans (ih _ (hp.2 _) _)

namespace Storage

/-! ### Names that are refused -/

/-- **A name that could lead out of a directory**, which a name that holds no slash cannot. -/
def Astray (n : String) : Prop := n = "" ∨ '/' ∈ n.toList ∨ '\\' ∈ n.toList

namespace Directory

variable {d : Directory} {n k : String} {t : FileTree}

theorem checkEntry_of_astray (h : Astray n) :
    ∃ reason, checkEntry n = .error (.invalidName n reason) := by
  unfold checkEntry
  split
  · exact ⟨_, rfl⟩
  · rename_i hne
    split
    · exact ⟨_, rfl⟩
    · rename_i hfind
      obtain rfl | h | h := h
      · exact absurd rfl hne
      · simpa using List.find?_eq_none.1 hfind _ h
      · simpa using List.find?_eq_none.1 hfind _ h

/-- **The guard is exact**: it refuses no other names. -/
theorem checkEntry_of_not_astray (h : ¬Astray n) : checkEntry n = .ok () := by
  obtain ⟨hne, h⟩ := not_or.1 h
  obtain ⟨hslash, hback⟩ := not_or.1 h
  have hfind : n.toList.find? (fun c => c = '/' || c = '\\') = none := by
    refine List.find?_eq_none.2 fun c hc hbad => ?_
    obtain hbad | hbad := Bool.or_eq_true_iff.1 hbad <;> obtain rfl := of_decide_eq_true hbad
    · exact hslash hc
    · exact hback hc
  rw [checkEntry, if_neg (by simpa using hne), hfind]

theorem validateName_of_astray (h : Astray n) :
    ∃ reason, validateName n = .error (.invalidName n reason) := by
  unfold validateName
  rcases hcheck : checkName n with e | u
  · exact ⟨_, rfl⟩
  · obtain ⟨reason, hrefused⟩ := checkEntry_of_astray h
    have hname : validateName n = .ok () := by rw [validateName, hcheck]; rfl
    rw [checkEntry_of_validateName hname] at hrefused
    cases hrefused

end Directory

namespace Operation

variable {α : Type} {d : Directory} {n k : String}

/-- **An operation that begins with a name that leads astray** fails without a call. -/
theorem program_of_astray {o : Operation α} (hn : o.first? = some n) (h : Astray n) :
    ∃ reason, o.program d = .done (.error (.invalidName n reason)) := by
  obtain ⟨reason, hcheck⟩ := Directory.checkEntry_of_astray h
  cases o with
  | has n =>
    cases hn
    refine ⟨reason, ?_⟩
    rw [program, Directory.hasProgram, hcheck]
    rfl
  | read n =>
    cases hn
    refine ⟨reason, ?_⟩
    rw [program, Directory.readProgram, hcheck]
    rfl
  | write n m =>
    -- writing has a guard of its own, which refuses more
    cases hn
    obtain ⟨reason, hvalid⟩ := Directory.validateName_of_astray h
    refine ⟨reason, ?_⟩
    rw [program, Directory.writeProgram, hvalid]
    rfl
  | delete n =>
    cases hn
    refine ⟨reason, ?_⟩
    rw [program, Directory.deleteProgram, hcheck]
    rfl
  | rename n k =>
    cases hn
    refine ⟨reason, ?_⟩
    rw [program, Directory.readProgram, hcheck]
    rfl
  | deleteAll start => cases hn

/-- **A document that would be moved astray** is read, and stays where it is. -/
theorem rename_astray (d : Directory) (n : String) (h : Astray k) :
    ∃ reason, (rename n k).program d
        = d.readProgram n >>= fun _ => .done (.error (.invalidName k reason)) := by
  obtain ⟨reason, hvalid⟩ := Directory.validateName_of_astray h
  refine ⟨reason, ?_⟩
  simp only [program, Directory.writeProgram, hvalid]
  rfl

end Operation

/-! ### Drafts -/

namespace Directory

variable {d : Directory} {t : FileTree} {b : Place} {n k : String}

/-- **A draft is no document**, as its name ends otherwise. -/
theorem documentOf?_draftName (n : String) : documentOf? (draftName n) = none := by
  rw [Option.eq_none_iff_forall_ne_some]
  intro k hk
  exact fileName_ne_draftName (documentOf?_eq_some_iff.1 hk).2.symm

theorem filePath_ne_draftPath (d : Directory) (k n : String) : d.filePath k ≠ d.draftPath n := by
  intro h
  have hlast := congrArg (fun p => p.toList.getLast?) h
  have hfile : (d.filePath k).toList.getLast? = (fileName k).toList.getLast? :=
    Path.getLast?_join d.path (List.ne_nil_of_length_pos (length_fileName.trans' (by decide)))
  have hdraft : (d.draftPath n).toList.getLast? = (draftName n).toList.getLast? :=
    Path.getLast?_join d.path (List.ne_nil_of_length_pos (length_draftName.trans' (by decide)))
  simp only [hfile, hdraft, toList_fileName, toList_draftName, List.getLast?_append] at hlast
  cases hlast

section Draft

variable (ht : t.WellFormed) (hb : t.Leads d.workingDir d.root b)
  (hfree : t.get? (b ++ [draftName n]) ≠ some .directory) (c : FileContent)

theorem get?_put_draft (t : FileTree) (b p : Place) (n k : String) (c : FileContent) :
    (t.put (b ++ [draftName n]) (.file c)).get? (p ++ [fileName k])
      = t.get? (p ++ [fileName k]) := by
  have hne : p ++ [fileName k] ≠ b ++ [draftName n] := fun h =>
    fileName_ne_draftName (List.singleton_inj.1 (List.append_inj_right' h rfl))
  rw [FileTree.get?_put t (by simp), if_neg hne]

include hfree

theorem resolve_put_draft {path : String} {q : Place} :
    (t.put (b ++ [draftName n]) (.file c)).resolve d.workingDir path = .ok q
      ↔ t.resolve d.workingDir path = .ok q :=
  ⟨FileTree.resolve_of_keeps (FileTree.keeps_of_put (by simp)),
    FileTree.resolve_of_keeps (FileTree.keeps_put hfree _)⟩

/-- **A draft holds no other document**: it can be put without a change of what is read. -/
theorem content_put_draft (hk : checkEntry k = .ok ()) (e : FileContent) :
    (t.put (b ++ [draftName n]) (.file c)).content d.workingDir (d.filePath k) = .ok e
      ↔ t.content d.workingDir (d.filePath k) = .ok e := by
  rw [FileTree.content_eq_ok_iff, FileTree.content_eq_ok_iff]
  refine exists_congr fun q => ?_
  rw [resolve_put_draft hfree]
  refine and_congr_right fun hq => ?_
  obtain ⟨p, -, rfl⟩ := exists_entry_of_child (d.child_filePath hk) length_fileName hq
  rw [get?_put_draft]

theorem read_put_draft (e : Document) :
    d.read (t.put (b ++ [draftName n]) (.file c)) k = .ok e ↔ d.read t k = .ok e := by
  rw [read_eq_ok_iff_content, read_eq_ok_iff_content]
  refine and_congr_right fun hk => exists_congr fun x => ?_
  rw [content_put_draft hfree c hk]

theorem has_put_draft : d.has (t.put (b ++ [draftName n]) (.file c)) k = d.has t k := by
  unfold has
  rcases hk : checkEntry k with e | u
  · rfl
  · have hfile : (t.put (b ++ [draftName n]) (.file c)).isFile d.workingDir (d.filePath k)
        = t.isFile d.workingDir (d.filePath k) := by
      rw [Bool.eq_iff_iff, FileTree.isFile_iff, FileTree.isFile_iff, exists_comm,
        exists_comm (α := Place)]
      refine exists_congr fun x => ?_
      rw [← FileTree.content_eq_ok_iff, ← FileTree.content_eq_ok_iff, content_put_draft hfree c hk]
    rw [hfile]

include ht hb

theorem list_put_draft (start : String) :
    d.list (t.put (b ++ [draftName n]) (.file c)) start = d.list t start := by
  have ht' : (t.put (b ++ [draftName n]) (.file c)).WellFormed :=
    ht.put (by simp) (by rw [List.dropLast_concat]; exact hb.directory) fun h => absurd h hfree
  have hholds : ∀ k e, d.Holds (t.put (b ++ [draftName n]) (.file c)) k e ↔ d.Holds t k e := by
    intro k e
    refine exists_congr fun p => ?_
    rw [get?_put_draft]
    refine and_congr_left fun _ => ⟨fun h => ?_, fun h => ?_⟩
    · exact h.of_keeps (FileTree.keeps_of_put (by simp))
    · exact h.of_keeps (FileTree.keeps_put hfree _)
  obtain ⟨l, hl, hsorted, hmem⟩ := exists_list_from ht d start
  obtain ⟨l', hl', hsorted', hmem'⟩ := exists_list_from ht' d start
  rw [hl, hl', NameMap.eq_of_mem_iff hsorted' hsorted fun k => ?_]
  simp only [hmem, hmem', hholds]

end Draft

/-- **A draft is apart from the documents.** It is never one of them, and while it stands in the
directory the same documents are there, are read and are listed as without it. -/
structure Apart (d : Directory) (n : String) : Prop where
  unlisted : documentOf? (draftName n) = none
  path_ne : ∀ k, d.filePath k ≠ d.draftPath n
  has_eq : ∀ (t : FileTree) (b : Place) (c : FileContent) (k : String),
    t.get? (b ++ [draftName n]) ≠ some .directory →
    d.has (t.put (b ++ [draftName n]) (.file c)) k = d.has t k
  read_iff : ∀ (t : FileTree) (b : Place) (c : FileContent) (k : String) (e : Document),
    t.get? (b ++ [draftName n]) ≠ some .directory →
    (d.read (t.put (b ++ [draftName n]) (.file c)) k = .ok e ↔ d.read t k = .ok e)
  list_eq : ∀ (t : FileTree) (b : Place) (c : FileContent) (start : String), t.WellFormed →
    t.Leads d.workingDir d.root b → t.get? (b ++ [draftName n]) ≠ some .directory →
    d.list (t.put (b ++ [draftName n]) (.file c)) start = d.list t start

theorem apart (d : Directory) (n : String) : d.Apart n where
  unlisted := documentOf?_draftName n
  path_ne k := d.filePath_ne_draftPath k n
  has_eq _ _ c _ hfree := has_put_draft hfree c
  read_iff _ _ c _ e hfree := read_put_draft hfree c e
  list_eq _ _ c start ht hb hfree := list_put_draft ht hb hfree c start

end Directory

/-! ### No name leaves the directory -/

namespace Operation

variable {α : Type}

/-- **An operation stays in a directory.** What it does is a run of a program that makes only calls
within the directory, whatever they are answered, so that it changes nothing else; and if it begins
with a name that could lead out of the directory, it fails before the first call. -/
structure StaysIn (o : Operation α) (d : Directory) : Prop where
  runs : o.on (directory d Directory.treeCell) = (o.program d).run d.workingDir
  calls : (o.program d).Calls (d.Within o.Names)
  touches : ∀ t, Relation.ReflTransGen (d.Touches o.Names) t
    (o.on (directory d Directory.treeCell) t).2
  refuses : ∀ n, o.first? = some n → Astray n →
    ∃ reason, o.program d = .done (.error (.invalidName n reason))

theorem staysIn (o : Operation α) (d : Directory) : o.StaysIn d where
  runs := on_directory d o
  calls := calls_program d o
  touches t := by
    rw [on_directory]
    exact (calls_program d o).run_touches t
  refuses _ hn h := program_of_astray hn h

/-- **A document that would be moved astray** is read, if it can be, and nothing is changed. -/
theorem rename_directory_astray (d : Directory) (n : String) {k : String} (h : Astray k) :
    ∃ reason, (rename n k).program d
          = d.readProgram n >>= (fun _ => .done (.error (.invalidName k reason))) ∧
      ∀ t, (directory d Directory.treeCell).rename n k t
        = (d.read t n >>= fun _ => .error (.invalidName k reason), t) := by
  obtain ⟨reason, hprogram⟩ := rename_astray d n h
  refine ⟨reason, hprogram, fun t => ?_⟩
  have hrun := congrFun (on_directory d (rename n k)) t
  have hread : (directory d Directory.treeCell).read n t = (d.read t n, t) := rfl
  rw [hprogram, FileProgram.run_bind, ← d.read_directory, Attempt.bind_apply, hread] at hrun
  refine hrun.trans ?_
  cases d.read t n <;> rfl

/-- **No name leaves a directory.** Every path that an operation opens, creates, renames or removes
because of a name is that of a direct child of the directory, and leads to an entry of it; names for
which it would not be are refused before anything is changed, and drafts are apart from the
documents. -/
theorem stays_in_directory (d : Directory) :
    (∀ {α : Type} (o : Operation α), o.StaysIn d) ∧
    (∀ n k, Astray k → ∃ reason, (rename n k).program d
          = d.readProgram n >>= (fun _ => .done (.error (.invalidName k reason))) ∧
      ∀ t, (directory d Directory.treeCell).rename n k t
        = (d.read t n >>= fun _ => .error (.invalidName k reason), t)) ∧
    (∀ n, ¬Astray n → Path.Child d.path (Directory.fileName n) (d.filePath n) ∧
      Path.Child d.path (Directory.draftName n) (d.draftPath n)) ∧
    (∀ (N : String → Prop) (t : FileTree) (p : String) (q : Place), d.Opens N p →
      t.resolve d.workingDir p = .ok q →
      ∃ b x, t.Leads d.workingDir d.root b ∧ Directory.Stands N x ∧ q = b ++ [x]) ∧
    ∀ n, d.Apart n := by
  refine ⟨fun o => o.staysIn d, fun n k => rename_directory_astray d n, fun n hn => ?_,
    fun N t p q => Directory.exists_entry_of_opens, d.apart⟩
  have hcheck := Directory.checkEntry_of_not_astray hn
  exact ⟨d.child_filePath hcheck, d.child_draftPath hcheck⟩

open Directory in
/-- A directory where a page is written next to it, or moved there, and a draft is put into it. -/
theorem stays_in_config :
    ((write "../blog" []).first? = some "../blog" ∧ Astray "../blog" ∧ ¬Astray "blog.home" ∧
      config.Opens (· = "blog.home") (config.filePath "blog.home") ∧
      bare.resolve config.workingDir (config.filePath "blog.home")
        = .ok ["config", "blog.home.yml"] ∧
      bare.WellFormed ∧ bare.Leads config.workingDir config.root ["config"] ∧
      bare.get? (["config"] ++ [draftName "blog.home"]) ≠ some .directory) ∧
    (∃ reason, (write "../blog" []).program config
      = .done (.error (.invalidName "../blog" reason))) ∧
    (∃ reason, ∀ t, (directory config treeCell).rename "blog.home" "../blog" t
      = (config.read t "blog.home" >>= fun _ => .error (.invalidName "../blog" reason), t)) ∧
    Path.Child "config" "blog.home.yml" "config/blog.home.yml" ∧
    (∃ b x, bare.Leads config.workingDir config.root b ∧ Stands (· = "blog.home") x ∧
      ["config", "blog.home.yml"] = b ++ [x]) ∧
    config.list (bare.put (["config"] ++ [draftName "blog.home"]) (.file .binary)) "" = .ok [] := by
  obtain ⟨hstays, hmoved, hchild, hentry, hapart⟩ := stays_in_directory config
  have hfirst : (write "../blog" []).first? = some "../blog" := rfl
  have hastray : Astray "../blog" := .inr (.inl (by decide))
  have hhome : ¬Astray "blog.home" := by
    rintro (h | h | h)
    · exact absurd h (by decide)
    · exact absurd h (by decide)
    · exact absurd h (by decide)
  have hfree : bare.get? (["config"] ++ [draftName "blog.home"]) ≠ some .directory := by
    rw [get?_bare]
    exact nofun
  have hopens : config.Opens (· = "blog.home") (config.filePath "blog.home") :=
    ⟨_, ⟨_, rfl, .inl rfl⟩, (hchild _ hhome).1⟩
  have hresolve : bare.resolve config.workingDir (config.filePath "blog.home")
      = .ok ["config", "blog.home.yml"] := eq_ok_of_toOption (by decide +kernel)
  obtain ⟨reason, -, hrename⟩ := hmoved "blog.home" _ hastray
  have hlist : config.list bare "" = .ok [] := eq_ok_of_toOption (by decide +kernel)
  exact ⟨⟨hfirst, hastray, hhome, hopens, hresolve, wellFormed_bare, leads_bare, hfree⟩,
    (hstays _).refuses _ hfirst hastray, ⟨reason, hrename⟩, (hchild _ hhome).1,
    hentry _ _ _ _ hopens hresolve,
    ((hapart _).list_eq _ _ _ _ wellFormed_bare leads_bare hfree).trans hlist⟩

end Operation

end Storage

end SiteConfig
