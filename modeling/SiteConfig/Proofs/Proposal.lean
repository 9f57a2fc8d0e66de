import Mathlib
import SiteConfig.Check.Standard
import SiteConfig.Proofs.Installed

/-!
# What is proposed

All that an import depends on is a source, a target, the installed extensions, and what is
known about extensions and schemas: a **proposal**. Its changelist, its changes of
extensions and its plan are functions of it, with no storage left to ask.

A proposal is **accepted** when none of the standard checks finds a problem
(`SiteConfig.Proposal.Accepted`). A step that has been carried out makes another proposal
of it (`SiteConfig.Proposal.Advance`).
-/

namespace SiteConfig

/-- A pending import as data. The source has passed through its transforms; without a
lifecycle nothing is known about extensions. -/
structure Proposal where
  source : Snapshot
  target : Snapshot
  installed : List Extension
  catalog : Option (Extension → Option ExtensionInfo)
  schemas : Option SchemaCatalog

namespace Proposal

variable (p : Proposal)

/-- The changes of documents. -/
def changelist : Changelist := .between p.source p.target

/-- What the source states about extensions. -/
def listed : Except ConfigError (Option CoreExtension) := Comparison.extensionsIn p.source

/-- The changes of extensions: none without a lifecycle, or without a list. -/
def extensionChanges : ExtensionChanges :=
  match p.catalog, p.listed with
  | some _, .ok (some wanted) => .between wanted.extensions p.installed
  | _, _ => .empty

/-- What is known about an extension. -/
def known (e : Extension) : Option ExtensionInfo := p.catalog.bind (· e)

/-- The requirements with those of an extension, as far as it is known. -/
def withKnown (r : Requirements) (e : Extension) : Requirements :=
  match p.known e with
  | some i => r.withExtension e i.dependencies
  | none => r

/-- What the pending items depend on. -/
def requirements : Requirements :=
  (p.extensionChanges.install ++ p.extensionChanges.uninstall).foldl p.withKnown
    ⟨Requirements.ofNames p.source p.changelist.writtenNames,
      Requirements.ofNames p.target p.changelist.delete, []⟩

/-- The pending steps, in no particular order. -/
def pending : List Step := Requirements.pendingSteps p.changelist p.extensionChanges

/-- The plan. -/
def plan : Except (List (List String)) (List Step) :=
  p.requirements.plan p.changelist p.extensionChanges

/-- The extensions that will be installed afterwards, as far as that is known. -/
def extensionsAfter : Option (List Extension) :=
  match p.listed with
  | .ok (some wanted) => some wanted.extensions
  | _ => p.catalog.map fun _ => p.installed

/-! ### Accepted proposals -/

/-- What a proposal is made of is in order: documents are filed under their names, and
extensions are listed in order. -/
structure WellFormed : Prop where
  source : p.source.Named
  target : p.target.Named
  installed : Extension.Sorted p.installed

/-- A document needs nothing that will not be there. That its owner is there is asked only
where the source lists extensions. -/
def Provides (d : Document) : Prop :=
  (∀ wanted, p.listed = .ok (some wanted) →
      Check.ownerInstalled wanted.extensions (ownerOf d.name) = true) ∧
    ∃ needs, d.dependencies = .ok needs ∧
      (∀ after, p.extensionsAfter = some after →
        (∀ m ∈ needs.module, .module m ∈ after) ∧ ∀ t ∈ needs.theme, .theme t ∈ after) ∧
      ∀ n ∈ needs.config, ∃ e, p.source.get? n = some e

/-- Two documents have no identifiers, or the same. -/
def AgreeOnUuid (d e : Option Document) : Prop :=
  ∀ u v, d.bind (·.uuid?) = some u → e.bind (·.uuid?) = some v → u = v

/-- The target has no installation profile, or that of a list of extensions. -/
def KeepsProfile (wanted : CoreExtension) : Prop :=
  ∃ current, Comparison.extensionsIn p.target = .ok current ∧
    ∀ c, current = some c → ∀ q, c.profile = some q → wanted.profile = some q

/-- **No standard check finds a problem.** -/
structure Accepted : Prop where
  listed : ∃ wanted, p.listed = .ok wanted
  names : ∀ n ∈ p.changelist.writtenNames, validateName n = .ok ()
  site : AgreeOnUuid (p.source.get? siteName) (p.target.get? siteName)
  uuids : ∀ n ∈ p.changelist.update, n ≠ siteName → AgreeOnUuid (p.source.get? n) (p.target.get? n)
  distinct : p.source.Distinct
  schemas : ∀ catalog, p.schemas = some catalog → ∀ n ∈ p.changelist.writtenNames,
    ∀ d, p.source.get? n = some d → catalog.problems d = []
  profile : ∀ wanted, p.listed = .ok (some wanted) → p.KeepsProfile wanted
  installs : ∀ wanted, p.listed = .ok (some wanted) → ∀ e ∈ p.extensionChanges.install,
    ∃ i, p.known e = some i ∧ ∀ f ∈ i.dependencies, f ∈ wanted.extensions
  uninstalls : ∀ wanted, p.listed = .ok (some wanted) → ∀ e ∈ p.extensionChanges.uninstall,
    (∀ i, p.known e = some i → i.required = false) ∧
      ∀ f ∈ wanted.extensions, ∀ i, p.known f = some i → e ∉ i.dependencies
  needs : ∀ n ∈ p.changelist.writtenNames, ∀ d, p.source.get? n = some d → p.Provides d
  ordered : ∃ steps, p.plan = .ok steps

/-- **A step has been carried out**: the target agrees with the source on the names that it
touches, and its extension is installed or no longer so. -/
structure Advance (p p' : Proposal) (s : Step) : Prop where
  source : p'.source = p.source
  catalog : p'.catalog = p.catalog
  schemas : p'.schemas = p.schemas
  target : Changelist.Adopts p.source p.target p'.target s.names
  installed : p'.installed = s.installedAfter p.installed

variable {p p' : Proposal}

/-! ### Changes that do not interfere -/

theorem WellFormed.disjoint_changelist (hp : p.WellFormed) : p.changelist.Disjoint :=
  Changelist.disjoint_between hp.source hp.target

theorem WellFormed.disjoint_extensionChanges (hp : p.WellFormed) : p.extensionChanges.Disjoint := by
  unfold extensionChanges
  split
  · exact ExtensionChanges.disjoint_between (CoreExtension.extensions_sorted _).nodup
      hp.installed.nodup
  · exact ExtensionChanges.disjoint_empty

theorem extensionChanges_of_listed {wanted : CoreExtension} {k : Extension → Option ExtensionInfo}
    (hk : p.catalog = some k) (hw : p.listed = .ok (some wanted)) :
    p.extensionChanges = .between wanted.extensions p.installed := by
  rw [extensionChanges, hk, hw]

/-- Whoever changes extensions has a lifecycle and a list. -/
theorem exists_listed_of_mem {e : Extension}
    (h : e ∈ p.extensionChanges.install ++ p.extensionChanges.uninstall) :
    ∃ k wanted, p.catalog = some k ∧ p.listed = .ok (some wanted) := by
  unfold extensionChanges at h
  split at h
  · rename_i k wanted hk hw
    exact ⟨k, wanted, hk, hw⟩
  · cases h

/-! ### What the pending steps depend on -/

theorem needs_withExtension (r : Requirements) (e f : Extension) (ds : List Extension) :
    (r.withExtension e ds).needs f = if f = e then ds else r.needs f := by
  unfold Requirements.withExtension Requirements.needs
  by_cases h : f = e
  · simp [h]
  · have hlookup : (r.extensions.filter (·.1 != e)).lookup f = r.extensions.lookup f := by
      induction r.extensions with
      | nil => rfl
      | cons g l ih =>
        obtain ⟨g, gs⟩ := g
        by_cases hg : g = e
        · subst hg
          have hfg : (f == g) = false := by simpa using h
          simp [List.lookup_cons, hfg, ih]
        · simp [hg, List.lookup_cons, ih]
    have hne : (f == e) = false := by simpa using h
    simp [List.lookup_cons, hne, hlookup, h]

theorem needs_withKnown (r : Requirements) (e f : Extension) :
    (p.withKnown r e).needs f
      = if f = e then ((p.known e).map (·.dependencies)).getD (r.needs f) else r.needs f := by
  unfold withKnown
  rcases p.known e with _ | i
  · simp
  · rw [needs_withExtension]
    rfl

/-- What the extensions of a list need is what is known about them. -/
theorem needs_foldl_withKnown (l : List Extension) (r : Requirements) (e : Extension) :
    (l.foldl p.withKnown r).needs e
      = if e ∈ l then ((p.known e).map (·.dependencies)).getD (r.needs e) else r.needs e := by
  induction l generalizing r with
  | nil => simp
  | cons f l ih =>
    rw [List.foldl_cons, ih, needs_withKnown]
    by_cases hf : e = f
    · subst hf
      rcases p.known e <;> simp
    · simp [hf]

theorem written_withKnown (r : Requirements) (e : Extension) :
    (p.withKnown r e).written = r.written ∧ (p.withKnown r e).deleted = r.deleted := by
  unfold withKnown
  split <;> exact ⟨rfl, rfl⟩

theorem written_foldl_withKnown (l : List Extension) (r : Requirements) :
    (l.foldl p.withKnown r).written = r.written ∧ (l.foldl p.withKnown r).deleted = r.deleted := by
  induction l generalizing r with
  | nil => exact ⟨rfl, rfl⟩
  | cons e l ih =>
    obtain ⟨hw, hd⟩ := written_withKnown (p := p) r e
    rw [List.foldl_cons, (ih _).1, (ih _).2]
    exact ⟨hw, hd⟩

theorem get?_ofNames (s : Snapshot) (names : List String) {n : String} (hn : n ∈ names) :
    (Requirements.ofNames s names).get? n = (s.get? n).map Requirements.dependenciesOf := by
  have hmem : ∀ {k v}, (k, v) ∈ names.filterMap (fun n => (s.get? n).map fun d =>
        (n, Requirements.dependenciesOf d))
      ↔ k ∈ names ∧ (s.get? k).map Requirements.dependenciesOf = some v := by
    intro k v
    simp only [List.mem_filterMap, Option.map_eq_some_iff, Prod.mk.injEq]
    constructor
    · rintro ⟨m, hm, d, hd, rfl, rfl⟩
      exact ⟨hm, d, hd, rfl⟩
    · rintro ⟨hk, d, hd, rfl⟩
      exact ⟨k, hk, d, hd, rfl, rfl⟩
  ext v
  rw [Requirements.ofNames, NameMap.get?_ofList_eq_some_iff, hmem]
  · exact ⟨fun h => h.2, fun h => ⟨hn, h⟩⟩
  · intro k v w hv hw
    have := (hmem.1 hv).2.symm.trans (hmem.1 hw).2
    exact Option.some.inj this

/-- What a pending step declares to depend on: a deletion by the document of the target, a
write by that of the source, a change of extensions by what is known. -/
def declares (p : Proposal) : Step → List Item
  | .delete n => Requirements.items ((p.target.get? n).map Requirements.dependenciesOf)
  | .create n => Requirements.items ((p.source.get? n).map Requirements.dependenciesOf)
  | .update n => Requirements.items ((p.source.get? n).map Requirements.dependenciesOf)
  | .rename _ n => Requirements.items ((p.source.get? n).map Requirements.dependenciesOf)
  | .install e => (((p.known e).map (·.dependencies)).getD []).map .extension
  | .uninstall e => (((p.known e).map (·.dependencies)).getD []).map .extension

theorem neededByWritten_requirements {n : String} (hn : n ∈ p.changelist.writtenNames) :
    p.requirements.neededByWritten n
      = Requirements.items ((p.source.get? n).map Requirements.dependenciesOf) := by
  rw [Requirements.neededByWritten, requirements, (written_foldl_withKnown _ _).1,
    get?_ofNames _ _ hn]

theorem neededByDeleted_requirements {n : String} (hn : n ∈ p.changelist.delete) :
    p.requirements.neededByDeleted n
      = Requirements.items ((p.target.get? n).map Requirements.dependenciesOf) := by
  rw [Requirements.neededByDeleted, requirements, (written_foldl_withKnown _ _).2,
    get?_ofNames _ _ hn]

theorem neededByExtension_requirements {e : Extension}
    (he : e ∈ p.extensionChanges.install ++ p.extensionChanges.uninstall) :
    p.requirements.neededByExtension e
      = (((p.known e).map (·.dependencies)).getD []).map .extension := by
  rw [Requirements.neededByExtension, requirements, needs_foldl_withKnown, if_pos he]
  rfl

/-- **What the requirements say** about the pending steps. -/
theorem declared_requirements {s : Step} (hs : s ∈ p.pending) :
    p.requirements.declared s = p.declares s := by
  have hwr : ∀ {n}, n ∈ p.changelist.writtenNames ↔ n ∈ p.changelist.create ∨
      n ∈ p.changelist.update ∨ ∃ m ∈ p.changelist.rename, m.target = n := by
    simp [Changelist.writtenNames]
  simp only [pending, Requirements.pendingSteps, Requirements.removalSteps,
    Requirements.additionSteps, Changelist.deletions, Changelist.writes,
    ExtensionChanges.installations, ExtensionChanges.uninstallations, List.mem_append,
    List.mem_map] at hs
  rcases hs with (⟨n, hn, rfl⟩ | ⟨e, he, rfl⟩) |
    (⟨e, he, rfl⟩ | (⟨n, hn, rfl⟩ | ⟨m, hm, rfl⟩) | ⟨n, hn, rfl⟩)
  · exact neededByDeleted_requirements hn
  · exact neededByExtension_requirements (List.mem_append_right _ he)
  · exact neededByExtension_requirements (List.mem_append_left _ he)
  · exact neededByWritten_requirements (hwr.2 (.inl hn))
  · exact neededByWritten_requirements (hwr.2 (.inr (.inr ⟨m, hm, rfl⟩)))
  · exact neededByWritten_requirements (hwr.2 (.inr (.inl hn)))

end Proposal

end SiteConfig
