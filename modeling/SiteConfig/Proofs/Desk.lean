import Mathlib
import SiteConfig.Check.Standard
import SiteConfig.Lifecycle.Scripted
import SiteConfig.Proofs.Scene

/-!
# An import on a desk

Everything that an import works with can be kept on a **desk** (`SiteConfig.Desk`): two
storages in memory, a scripted lifecycle that never fails, and locks in memory. What an
importer relies on its surroundings for then holds (`SiteConfig.Desk.sees`), whatever the
transforms, the schemas and the known extensions are.
-/

namespace SiteConfig

/-! ### Storages in memory -/

namespace Storage

theorem namesFrom_empty {α : Type} (docs : NameMap α) : namesFrom docs "" = docs.keys :=
  List.filter_eq_self.2 fun _ _ => rfl

variable {σ : Type} {cell : Cell σ Documents} {s : σ}

/-- Reading documents of a map one by one gives those that there are. -/
theorem readEach_memory (cell : Cell σ Documents) (names : List String) (s : σ) :
    readEach (memory cell).read names s = (.ok (documentsOf (cell.get s) names), s) := by
  induction names with
  | nil => rfl
  | cons n names ih =>
    have hread : (memory cell).read n s = (readFrom (cell.get s) n, s) := rfl
    rw [readEach, Attempt.bind_apply, Attempt.recover, Attempt.bind_apply, hread, readFrom]
    -- a document that is missing is skipped
    rcases hn : (cell.get s).get? n with _ | m
    · have hnone : documentsOf (cell.get s) (n :: names) = documentsOf (cell.get s) names := by
        simp [documentsOf, hn]
      rw [hnone]
      show (readEach (memory cell).read names >>= fun ds => _) s = _
      rw [Attempt.bind_apply, ih]
      rfl
    · have hsome : documentsOf (cell.get s) (n :: names)
          = ⟨n, m⟩ :: documentsOf (cell.get s) names := by
        simp [documentsOf, hn]
      rw [hsome]
      show (readEach (memory cell).read names >>= fun ds => _) s = _
      rw [Attempt.bind_apply, ih]
      rfl

theorem write_memory {n : String} (hn : validateName n = .ok ()) (m : Yaml.Mapping) :
    (memory cell).write n m s = (.ok (), cell.set ((cell.get s).insert n m) s) := by
  show (Attempt.ofExcept (validateName n) >>= fun _ => cell.modify (·.insert n m)) s = _
  rw [hn]
  rfl

/-- A document whose name is not proper is not written. -/
theorem write_memory_error {n : String} {e : ConfigError} (hn : validateName n = .error e)
    (m : Yaml.Mapping) : (memory cell).write n m s = (.error e, s) := by
  show (Attempt.ofExcept (validateName n) >>= fun _ => cell.modify (·.insert n m)) s = _
  rw [hn]
  rfl

/-- A document that is not there is not deleted. -/
theorem delete_memory_error {n : String} (hn : (cell.get s).contains n = false) :
    (memory cell).delete n s = (.error (.notFound n), s) := by
  show (if (cell.get s).contains n then cell.modify (·.erase n)
    else Attempt.fail (.notFound n) : Attempt σ ConfigError Unit) s = _
  rw [if_neg (by rw [hn]; exact Bool.false_ne_true)]
  rfl

theorem delete_memory {n : String} (hn : (cell.get s).contains n = true) :
    (memory cell).delete n s = (.ok (), cell.set ((cell.get s).erase n) s) := by
  show (if (cell.get s).contains n then cell.modify (·.erase n)
    else Attempt.fail (.notFound n) : Attempt σ ConfigError Unit) s = _
  rw [if_pos hn]
  rfl

section Stable

open Attempt

variable {I : σ → Prop}

theorem stable_readMany_memory (names : List String) : Stable I ((memory cell).readMany names) := by
  intro s hs
  rw [show (memory cell).readMany names s = _ from readEach_memory cell names s]
  exact hs

variable (hcell : ∀ docs s, I s → I (cell.set docs s))

include hcell in
theorem stable_write_memory (n : String) (m : Yaml.Mapping) : Stable I ((memory cell).write n m) :=
  (stable_ofExcept _).bind fun _ s hs => hcell _ s hs

include hcell in
theorem stable_delete_memory (n : String) : Stable I ((memory cell).delete n) := by
  refine Stable.bind (fun _ hs => hs) fun docs => ?_
  split
  · exact fun s hs => hcell _ s hs
  · exact stable_fail _

end Stable

end Storage

namespace LockTable

variable {σ : Type} {held : Cell σ Held} {s : σ} {key : String}

/-- A lock that is held cannot be taken. -/
theorem take_of_held (h : (held.get s).contains key = true) : take held key s = (.ok false, s) := by
  show (if (held.get s).contains key then pure false
    else held.modify (key :: ·) >>= fun _ => pure true : Attempt σ ImportError Bool) s = _
  rw [if_pos h]
  rfl

/-- A lock that is free is held once it has been taken. -/
theorem take_of_free (h : (held.get s).contains key = false) :
    take held key s = (.ok true, held.set (key :: held.get s) s) := by
  show (if (held.get s).contains key then pure false
    else held.modify (key :: ·) >>= fun _ => pure true : Attempt σ ImportError Bool) s = _
  rw [if_neg (by rw [h]; exact Bool.false_ne_true)]
  rfl

theorem stable_take {I : σ → Prop} (hheld : ∀ l s, I s → I (held.set l s)) (key : String) :
    Attempt.Stable I (take held key) := by
  unfold take
  refine Attempt.Stable.bind (fun _ hs => hs) fun keys => ?_
  split
  · exact Attempt.stable_pure _
  · exact Attempt.Stable.bind (fun s hs => hheld _ s hs) fun _ => Attempt.stable_pure _

end LockTable

/-! ### The desk -/

/-- Two storages, a lifecycle and the held locks. -/
structure Desk where
  source : Storage.Documents
  target : Storage.Documents
  extensions : Lifecycle.ScriptState
  held : LockTable.Held

namespace Desk

/-- What an import on a desk may choose. -/
structure Options where
  transforms : List Transform
  schemas : Option SchemaCatalog
  /-- The known extensions; without a list every extension is known. -/
  known : Option (List Lifecycle.ScriptEntry)
  key : String

/-- The script of a lifecycle that never fails. -/
def Options.script (o : Options) : Lifecycle.Script := ⟨o.known, none, none, 0, false⟩

/-- **An importer that works on a desk.** -/
def importer (o : Options) : Importer Desk :=
  { comparer :=
      { source := Storage.memory ⟨source, fun a d => { d with source := a }⟩
        target := Storage.memory ⟨target, fun a d => { d with target := a }⟩
        transforms := o.transforms }
    lock := LockTable.memory ⟨held, fun a d => { d with held := a }⟩
    lockKey := o.key
    schemas := o.schemas
    lifecycle := some
      (Lifecycle.scripted o.script ⟨extensions, fun a d => { d with extensions := a }⟩)
    checks := Check.standard
    journal := none
    clock := fun _ => default }

/-- What is to be seen on a desk. -/
def scene (o : Options) (d : Desk) : Scene :=
  ⟨d.source, d.target, d.extensions.installed, d.held.contains o.key⟩

/-- **On a desk the surroundings of an import behave.** -/
theorem sees (o : Options) : (importer o).Sees (scene o) o.script.info? where
  listSource d := ⟨d, congrArg (fun names => (Except.ok names, d)) (Storage.namesFrom_empty _), rfl⟩
  readSource d names := ⟨d, Storage.readEach_memory _ names d, rfl⟩
  listTarget d := ⟨d, congrArg (fun names => (Except.ok names, d)) (Storage.namesFrom_empty _), rfl⟩
  readTarget d names := ⟨d, Storage.readEach_memory _ names d, rfl⟩
  write d n m hn := ⟨_, Storage.write_memory hn m, rfl⟩
  delete d n hn := ⟨_, Storage.delete_memory hn, rfl⟩
  installed l hl d := by
    cases hl
    exact ⟨d, rfl, rfl⟩
  info l hl d e := by
    cases hl
    exact ⟨d, rfl, rfl⟩
  install l hl d e _ := by
    cases hl
    exact ⟨_, rfl, rfl⟩
  uninstall l hl d e _ := by
    cases hl
    exact ⟨_, rfl, rfl⟩
  acquire d := by
    rcases hheld : d.held.contains o.key with _ | _
    · refine ⟨{ d with held := o.key :: d.held }, ?_, by simp [scene]⟩
      rw [scene, hheld]
      exact LockTable.take_of_free hheld
    · refine ⟨d, ?_, by rw [scene, hheld]⟩
      rw [scene, hheld]
      exact LockTable.take_of_held hheld
  release d := by
    have hfree : (d.held.filter (· != o.key)).contains o.key = false := by simp
    show Scene.mk _ _ _ ((d.held.filter (· != o.key)).contains o.key) = _
    rw [hfree]
    rfl
  journal _ hj := by cases hj

/-! ### A desk with everything to do -/

/-- Two modules are known; the key `_core` is not imported. -/
def plain : Options where
  transforms := [.stripKeys ["_core"]]
  schemas := none
  known := some [⟨.module "blog", [], false⟩, ⟨.module "shop", [], false⟩]
  key := "import"

/-- A desk where a document has another name in the source, one has another content, one is
missing and one is left over, and where a module has to give way to another one. -/
def moving : Desk where
  source := .ofList [("blog.home", [(.string "uuid", .string "u1")]),
    ("blog.news", [(.string "dependencies", .mapping [(.string "module",
      .sequence [.string "blog"])])]),
    ("blog.style", [(.string "color", .string "red")]),
    ("core.extension", [(.string "module", .mapping [(.string "blog", .number (.int 0))])])]
  target := .ofList [("blog.start", [(.string "uuid", .string "u1")]),
    ("blog.style", [(.string "color", .string "blue")]), ("shop.cart", [])]
  extensions := .start [.module "shop"]
  held := []

end Desk

end SiteConfig
