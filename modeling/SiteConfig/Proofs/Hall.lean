import Mathlib
import SiteConfig.Check.Standard
import SiteConfig.Lifecycle.Recorded
import SiteConfig.Proofs.Sharing

/-!
# Importers in a hall

Any number of importers can work in a **hall** (`SiteConfig.Hall`): each has a source of its
own, and they share a target in memory, a manifest of the installed extensions with its
file, and locks in memory. Each of them is an importer among others
(`SiteConfig.Hall.shares`), with the standard checks: these ask the lifecycle, but of that
nothing is seen of the target or of the lock.
-/

namespace SiteConfig

open Attempt

/-! ### The hall -/

/-- A target, a manifest with the files that it is saved to, and the held locks. -/
structure Hall where
  target : Storage.Documents
  manifest : Manifest
  files : FileTree
  held : LockTable.Held

namespace Hall

/-- The documents of the target of a hall. -/
def documents : Cell Hall Storage.Documents := ⟨target, fun a h => { h with target := a }⟩

/-- The held locks of a hall. -/
def locks : Cell Hall LockTable.Held := ⟨held, fun l h => { h with held := l }⟩

/-- What an importer in a hall may choose. -/
structure Options where
  source : Storage.Documents
  transforms : List Transform
  schemas : Option SchemaCatalog
  registry : Lifecycle.Registry

/-- **An importer that works in a hall**, with a source that nobody changes. -/
def importer (key : String) (o : Options) : Importer Hall :=
  { comparer :=
      { source := Storage.memory (.constant o.source)
        target := Storage.memory documents
        transforms := o.transforms }
    lock := LockTable.memory locks
    lockKey := key
    schemas := o.schemas
    lifecycle := some (Lifecycle.recorded o.registry
      ⟨manifest, fun a h => { h with manifest := a }⟩ ⟨files, fun a h => { h with files := a }⟩)
    checks := Check.standard
    journal := none
    clock := fun _ => default }

/-- What is saved is the manifest, in its file. -/
theorem quiet_changing (key : String) (r : Lifecycle.Registry) (x : Attempt Manifest Failure Unit) :
    Quiet (Common.of target locks key) (r.changing
      ⟨manifest, fun a (h : Hall) => { h with manifest := a }⟩
      ⟨files, fun a (h : Hall) => { h with files := a }⟩ x) := by
  refine (quiet_zoom (fun _ _ => rfl) x).bind fun _ => ?_
  refine Quiet.bind (fun _ => rfl) fun m => ?_
  exact quiet_zoom (fun _ _ => rfl) _

/-- **Each importer in a hall is one among others.** -/
theorem shares (key : String) (o : Options) (ho : Storage.Proper o.source) :
    (importer key o).Shares target locks key where
  lock := rfl
  lockKey := rfl
  held_set _ _ := rfl
  target_set _ _ := rfl
  listTarget h := by
    refine ⟨rfl, fun names hnames => ?_⟩
    cases hnames
    exact Storage.namesFrom_empty _
  readTarget h names := by
    refine ⟨congrArg (fun p => Common.of target locks key p.2) (Storage.readEach_memory documents names h), fun docs hdocs => ?_⟩
    have := (congrArg Prod.fst (Storage.readEach_memory documents names h)).symm.trans hdocs
    cases this
    rfl
  write h n m := by
    unfold Attempt.Ends
    rcases hn : validateName n with e | ⟨⟩
    · rw [show (importer key o).comparer.target.write n m h = _ from Storage.write_memory_error hn m]
      refine ⟨rfl, fun hok => ?_, fun hp _ => hp⟩
      cases hok
    · rw [show (importer key o).comparer.target.write n m h = _ from Storage.write_memory hn m]
      exact ⟨rfl, fun _ => rfl, fun hp hm => hp.insert hm⟩
  delete h n := by
    unfold Attempt.Ends
    rcases hn : h.target.contains n with _ | _
    · rw [show (importer key o).comparer.target.delete n h = _ from Storage.delete_memory_error hn]
      refine ⟨rfl, fun hok => ?_, fun hp => hp⟩
      cases hok
    · rw [show (importer key o).comparer.target.delete n h = _ from Storage.delete_memory hn]
      exact ⟨rfl, fun _ => rfl, fun hp => hp.erase n⟩
  listSource _ := rfl
  readSource names h := congrArg (fun p => Common.of target locks key p.2)
    (Storage.readEach_memory (.constant o.source) names h)
  properSource h names docs hdocs := by
    have hread := Storage.readEach_memory (.constant o.source) names h
    have := (congrArg Prod.fst hread).symm.trans hdocs
    cases this
    exact fun d hd => ho d.name d.data (Storage.mem_documentsOf_iff.1 hd).2
  -- extensions are kept in a manifest of their own
  install l hl kind names := by
    cases hl
    exact quiet_changing key o.registry _
  uninstall l hl kind names := by
    cases hl
    exact quiet_changing key o.registry _
  installed l hl := by
    cases hl
    exact fun _ => rfl
  sorted l hl h es hes := by
    cases hl
    cases hes
    exact Manifest.extensions_sorted _
  info l hl e := by
    cases hl
    exact fun _ => rfl
  checks c hc rv hrv := by
    refine quiet_iff_stable.2 fun v =>
      Check.stable_standard (fun l hl e => ?_) (fun l hl => ?_) hc <;> rw [hrv] at hl <;>
      cases hl <;> exact fun _ hs => hs
  journal _ hj := by cases hj

/-! ### A hall with two importers -/

/-- The sources of two importers, one page each, that agree on nothing. -/
def pages (first : Bool) : Storage.Documents :=
  .ofList [(if first then "blog.home" else "blog.news", [(.string "title", .string "welcome")])]

theorem proper_pages (first : Bool) : Storage.Proper (pages first) := by
  refine Storage.proper_ofList fun e he => ?_
  obtain rfl := List.mem_singleton.1 he
  rw [Yaml.Value.proper_mapping_iff]
  simp [Yaml.Value.Proper]

/-- Two importers in one hall. -/
def pair (first : Bool) : Importer Hall :=
  importer "import"
    { source := pages first
      transforms := []
      schemas := none
      registry := ⟨"manifest.yml", [], none⟩ }

theorem shares_pair (first : Bool) : (pair first).Shares target locks "import" :=
  shares "import" _ (proper_pages first)

/-- A hall with a page that neither importer has. -/
def early : Hall where
  target := .ofList [("blog.old", [])]
  manifest := .empty
  files := .empty
  held := []

end Hall

end SiteConfig
