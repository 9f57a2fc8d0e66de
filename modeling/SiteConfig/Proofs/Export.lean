import Mathlib
import SiteConfig.Proofs.Backends
import SiteConfig.Proofs.Difference
import SiteConfig.Proofs.Reordering
import SiteConfig.Site

/-!
# Previewing what has been exported

An export copies the active documents into the directory of the proposed ones as they are, but some
keys are removed from what is proposed before it is compared. So a document that has one of these
keys is to be updated right after it has been exported; and this is the only kind of change that is
left then (`SiteConfig.Site.updatesOnly_of_export`), whatever the backend is, wherever the directory
is, and whatever was in it.

Three things can be in the way (`SiteConfig.Site.exists_changes_after_export`): a key that is
removed, a name that begins with a dot, and a path that leads nowhere until the directory is made.
For the rest the texts of the documents are relied on: that they are read back as what they were
written for (`SiteConfig.Yaml.ReadsBack`), which not every text is (`SiteConfig.Yaml.not_readsBack_tag`).
-/

namespace SiteConfig

/-! ### Removing keys -/

namespace Document

/-- **Removing keys shows** just when the document has one of them. -/
theorem sameContent_removeAll_iff {d : Document} {keys : List String} :
    (d.removeAll keys).sameContent d = true ↔ ∀ key ∈ keys, d.get? key = none := by
  have hget : ∀ {key}, d.get? key = none ↔ ∀ e ∈ d.data, Yaml.Mapping.hasKey key e = false := by
    intro key
    rw [get?, Yaml.Mapping.get?, Option.map_eq_none_iff, List.find?_eq_none]
    simp only [Bool.not_eq_true]
  have hall : (∀ e ∈ d.data, (keys.all fun key => !Yaml.Mapping.hasKey key e) = true) ↔
      ∀ key ∈ keys, d.get? key = none := by
    simp only [hget, List.all_eq_true, Bool.not_eq_true']
    exact ⟨fun h key hk e he => h e he key hk, fun h e he key hk => h key hk e he⟩
  rw [← hall]
  constructor
  · intro h
    -- an entry that is removed is missed, since nothing takes its place
    have hlen : (d.removeAll keys).data.length = d.data.length := by
      unfold sameContent Yaml.Mapping.same at h
      exact beq_iff_eq.1 (Bool.and_eq_true_iff.1 h).1
    rw [removeAll_eq] at hlen
    exact List.length_filter_eq_length_iff.1 hlen
  · intro h
    have hdata : (d.removeAll keys).data = d.data := by
      rw [removeAll_eq, List.filter_eq_self.2 h]
    rw [sameContent, hdata]
    exact d.sameContent_self

end Document

namespace Storage

/-- The documents that have one of some keys. -/
def Stripped (keys : List String) (docs : Documents) (n : String) : Prop :=
  ∃ m, docs.get? n = some m ∧ ∃ key ∈ keys, Yaml.Mapping.get? m key ≠ none

/-- **The same documents on both sides**: those that have keys which are removed on one side are to
be updated, and that is all. -/
theorem between_snapshot {ts : List Transform} {keys : List String}
    (hts : ∀ d, Transform.applyAll ts d = some (d.removeAll keys)) (docs : Documents) :
    let c := Changelist.between (snapshot ts docs) (snapshot [] docs)
    c.create = [] ∧ c.delete = [] ∧ c.rename = [] ∧ ∀ n, n ∈ c.update ↔ Stripped keys docs n := by
  have hsource : ∀ n, (snapshot ts docs).get? n
      = (docs.get? n).map fun m => Document.removeAll ⟨n, m⟩ keys := fun n => by
    rw [get?_snapshot]
    rcases docs.get? n with _ | m
    · rfl
    · exact hts ⟨n, m⟩
  have hsome : ∀ n, (∃ d, (snapshot ts docs).get? n = some d) ↔
      ∃ e, (snapshot [] docs).get? n = some e := fun n => by
    rw [hsource, get?_snapshot_nil]
    rcases docs.get? n with _ | m <;> simp
  have hs := named_snapshot ts docs
  have ht := named_snapshot [] docs
  refine ⟨Changelist.create_eq_nil hs fun n => (hsome n).1,
    Changelist.delete_eq_nil ht fun n => (hsome n).2,
    Changelist.rename_eq_nil ht fun n => (hsome n).2, fun n => ?_⟩
  rw [Changelist.mem_update_iff ht, hsource, get?_snapshot_nil, Stripped]
  rcases docs.get? n with _ | m
  · simp
  · have hdiffer : (Document.removeAll ⟨n, m⟩ keys).sameContent ⟨n, m⟩ = false ↔
        ∃ key ∈ keys, Yaml.Mapping.get? m key ≠ none := by
      rw [← Bool.not_eq_true, Document.sameContent_removeAll_iff]
      push Not
      rfl
    constructor
    · rintro ⟨d, e, hd, he, hsame⟩
      cases hd
      cases he
      exact ⟨m, rfl, hdiffer.1 hsame⟩
    · rintro ⟨m', hm', hsome⟩
      cases hm'
      exact ⟨_, _, rfl, rfl, hdiffer.2 hsome⟩

end Storage

/-! ### Opening a site -/

namespace Path

/-- A path that is seen from a directory is not blank. -/
theorem join_ne_empty {dir : String} (hdir : dir ≠ "") (p : String) : join dir p ≠ "" := by
  intro h
  unfold join at h
  split at h
  · rename_i habsolute
    subst h
    exact absurd habsolute (by decide)
  · split at h
    · exact hdir (String.append_eq_empty_iff.1 h).1
    · exact hdir (String.append_eq_empty_iff.1 (String.append_eq_empty_iff.1 h).1).1

end Path

/-- **Settings never name a blank path.** -/
theorem Settings.paths_ne_empty {around : Surroundings} {explicit : Option String} {s : Settings}
    (hdir : around.workingDir ≠ "") (h : Settings.load around explicit = .ok s) :
    s.activePath ≠ "" ∧ s.syncPath ≠ "" := by
  have hbase : ∀ file, around.baseDir file ≠ "" := by
    intro file
    unfold Surroundings.baseDir
    split
    · split
      · exact hdir
      · rename_i hne
        simpa using hne
    · exact hdir
  have hbind : ∀ {α β : Type} {x : Except ConfigError α} {f : α → Except ConfigError β} {b : β},
      (x >>= f) = .ok b → ∃ a, f a = .ok b := by
    intro α β x f b h
    rcases x with e | a
    · cases h
    · exact ⟨a, h⟩
  obtain ⟨user, h⟩ := hbind h
  obtain ⟨file, h⟩ := hbind h
  have hlast : ∃ applied : Settings, s = applied.resolvePaths (around.baseDir file) := by
    rcases file with _ | path <;>
    · obtain ⟨project, h⟩ := hbind h
      obtain ⟨stated, h⟩ := hbind h
      obtain ⟨applied, h⟩ := hbind h
      cases h
      exact ⟨applied, rfl⟩
  obtain ⟨applied, rfl⟩ := hlast
  exact ⟨Path.join_ne_empty (hbase file) _, Path.join_ne_empty (hbase file) _⟩

namespace Site

open Storage

variable {e : Environment} {explicit : Option String} {site : Site} {s : Settings}
  {workingDir : Place} {a : Storage World} {w₀ w w' w₁ w₂ : World} {docs : Documents}

/-- The active storage of a site. -/
def activeOf (s : Settings) (workingDir : Place) : Backend → Storage World
  | .file => World.directory ⟨s.activePath, workingDir⟩
  | .database =>
    .cached (World.database s.activePath ⟨s.activePath, workingDir⟩) (World.cacheCell s.activePath)

/-- The documents of the active storage can be copied. -/
def sourceOf (s : Settings) (workingDir : Place) (hpath : s.activePath ≠ "") (d : Directory) :
    (b : Backend) → Source (activeOf s workingDir b) d
  | .file => Directory.source ⟨s.activePath, workingDir⟩ d hpath
  | .database => Records.source ⟨s.activePath, workingDir⟩ s.activePath s.activePath d hpath

theorem openActive_eq_ok (h : openActive s workingDir w = (.ok a, w')) :
    a = activeOf s workingDir s.backend ∧
      match s.backend with
      | .file => w' = w
      | .database =>
        World.fileCell.zoom (Records.prepare ⟨s.activePath, workingDir⟩) w = (.ok (), w') := by
  unfold openActive at h
  rcases hb : s.backend <;> rw [hb] at h
  · cases h
    exact ⟨rfl, rfl⟩
  · obtain ⟨u, w₁, hprepare, hdone⟩ := Attempt.bind_eq_ok_iff.1 h
    cases hdone
    exact ⟨rfl, hprepare⟩

/-- **A site that has been opened** by a program that remembers nothing yet. -/
theorem ready_of_openActive (hw : w.files.WellFormed) (hcold : w.caches = .empty)
    (hpath : s.activePath ≠ "") (d : Directory)
    (h : openActive s workingDir w = (.ok a, w')) :
    (sourceOf s workingDir hpath d s.backend).Ready w' := by
  obtain ⟨-, hopen⟩ := openActive_eq_ok h
  rcases hb : s.backend <;> rw [hb] at hopen
  · subst hopen
    exact hw
  · refine Records.opened_of_prepare hw hpath ?_ hopen
    show (w.caches.get? s.activePath).getD .empty = _
    rw [hcold]
    rfl

/-- **A site that is opened again** holds what it held, and so does every directory. -/
theorem reopened_of_openActive {hpath : s.activePath ≠ ""} {d : Directory}
    (hw : (sourceOf s workingDir hpath d s.backend).Holds w docs) (hfiles : w₁.files = w.files)
    (hcold : w₁.caches = .empty) (h : openActive s workingDir w₁ = (.ok a, w₂)) :
    (sourceOf s workingDir hpath d s.backend).Holds w₂ docs ∧
      ∀ (b : Directory) k c, b.Holds w₂.files k c ↔ b.Holds w.files k c := by
  have hready := ready_of_openActive (hfiles ▸ (sourceOf s workingDir hpath d s.backend).wellFormed
    hw.ready) hcold hpath d h
  obtain ⟨-, hopen⟩ := openActive_eq_ok h
  rcases hb : s.backend <;> rw [hb] at hopen hw hready
  · subst hopen
    exact ⟨⟨hready, by rw [hfiles]; exact hw.listed, by rw [hfiles]; exact hw.doc⟩, by simp [hfiles]⟩
  · obtain ⟨hload, hholds⟩ := Records.reopened_of_prepare hw.ready hpath hfiles hopen
    refine ⟨⟨hready, ?_, fun n m hm => ?_⟩, hholds⟩
    · exact (congrArg NameMap.keys hload).trans hw.listed
    · exact (Records.doc?_of_load hload n).trans (hw.doc n m hm)

/-- **A site is opened**: its active storage is, and its paths are not blank. -/
structure Opens (site : Site) (w w' : World) : Prop where
  activePath : site.settings.activePath ≠ ""
  syncPath : site.settings.syncPath ≠ ""
  proposed : site.proposed = openProposed site.settings site.workingDir
  active : openActive site.settings site.workingDir w = (.ok site.active, w')

/-- **A site that is loaded** is opened. -/
theorem opens_of_load (hdir : e.workingDir ≠ "") (h : Site.load e explicit w = (.ok site, w')) :
    site.Opens w w' := by
  obtain ⟨files, w₁, hfiles, h⟩ := Attempt.bind_eq_ok_iff.1 h
  cases hfiles
  obtain ⟨settings, w₁, hstated, h⟩ := Attempt.bind_eq_ok_iff.1 h
  obtain ⟨hsettings, rfl⟩ := Attempt.ofExcept_eq_ok_iff.1 hstated
  obtain ⟨active, w₁, hactive, h⟩ := Attempt.bind_eq_ok_iff.1 h
  cases h
  obtain ⟨hactivePath, hsyncPath⟩ := Settings.paths_ne_empty hdir (eq_ok_of_mapError hsettings)
  exact ⟨hactivePath, hsyncPath, rfl, Attempt.mapError_eq_ok_iff.1 hactive⟩

/-! ### What a preview shows -/

/-- **An import of the site would update some documents and change nothing else**, whatever was
compared before. -/
def UpdatesOnly (site : Site) (w : World) (names : String → Prop) : Prop :=
  ∀ k, ∃ c w', site.comparer.refresh (k, w) = (.ok (), (c, w')) ∧ c.changelist.create = [] ∧
    c.changelist.delete = [] ∧ c.changelist.rename = [] ∧
    ∀ n, n ∈ c.changelist.update ↔ names n

theorem applyAll_comparer (site : Site) (d : Document) :
    Transform.applyAll site.comparer.transforms d = some (d.removeAll site.settings.stripKeys) := by
  unfold comparer
  split
  · rename_i hnone
    rw [List.isEmpty_iff.1 hnone]
    rfl
  · rfl

/-- **Where both sides hold the same documents**, an import would update those that have keys which
are removed from what is proposed. -/
theorem updatesOnly_of_holds {d : Directory} {S : Source site.active d}
    (hproposed : site.proposed = World.directory d) (h : S.Holds w docs)
    (hoffers : d.Offers w.files docs) :
    site.UpdatesOnly w (Stripped site.settings.stripKeys docs) := by
  intro k
  let i : Importer World :=
    { comparer := site.comparer, lock := site.lock, lockKey := site.settings.lockKey
      schemas := none, lifecycle := none, checks := [], journal := none, clock := World.now }
  have hholds : i.Holds S.seen (S.seen w) docs docs := h.holds hoffers hproposed rfl
  obtain ⟨⟨c, w'⟩, hrefresh, hseen⟩ := hholds.refresh rfl k
  obtain ⟨rfl, -⟩ := Attempt.beside_eq_iff.1 hseen
  exact ⟨_, w', hrefresh, between_snapshot (applyAll_comparer site) docs⟩

/-- **A preview after an export.** When everything has been exported, an import would update the
documents that have keys which are removed from what is proposed, and change nothing else; also
once the site has been opened again. For this the names of documents must not begin with a dot,
which hides their files; the texts that are written for the documents must say what they are; and
the directory has to be there already or have a path that does not step back, which leads nowhere
before the directory is made. -/
theorem updatesOnly_of_export {count : Nat} (hfiles : w₀.files.WellFormed)
    (hcold : w₀.caches = .empty) (hopen : site.Opens w₀ w)
    (hnames : ∀ names, (site.active.list "" w).1 = .ok names →
      ∀ n ∈ names, n.toList.head? ≠ some '.')
    (hback : ∀ names, (site.active.list "" w).1 = .ok names →
      ∀ n ∈ names, ∀ m, (site.active.read n w).1 = .ok ⟨n, m⟩ → Yaml.ReadsBack m)
    (hsync : (∃ p, w.files.Leads site.workingDir site.settings.syncPath p) ∨
      FileTree.Straight site.settings.syncPath)
    (hexport : site.active.copyAll site.proposed w = (.ok count, w')) :
    ∃ docs : Documents, (site.active.list "" w).1 = .ok docs.keys ∧
      (∀ n m, docs.get? n = some m → (site.active.read n w).1 = .ok ⟨n, m⟩) ∧
      site.UpdatesOnly w' (Stripped site.settings.stripKeys docs) ∧
      ∀ (again : Site) w₁ w₂, w₁.files = w'.files → w₁.caches = .empty → again.Opens w₁ w₂ →
        again.settings = site.settings → again.workingDir = site.workingDir →
        again.UpdatesOnly w₂ (Stripped site.settings.stripKeys docs) := by
  obtain ⟨s, workingDir, active, proposed⟩ := site
  obtain ⟨hactivePath, hsyncPath, hproposed, hopen⟩ := hopen
  obtain ⟨hactive, -⟩ := openActive_eq_ok hopen
  simp only at hactivePath hsyncPath hproposed hopen hactive hnames hback hsync hexport ⊢
  subst hactive hproposed
  let d : Directory := ⟨s.syncPath, workingDir⟩
  let S := sourceOf s workingDir hactivePath d s.backend
  have hready : S.Ready w := ready_of_openActive hfiles hcold hactivePath d hopen
  have hlist : ((activeOf s workingDir s.backend).list "" w).1 = .ok (S.listed w.files) :=
    congrArg Prod.fst (S.list hready)
  obtain ⟨docs, hbefore, hafter, hoffers⟩ := Source.exists_documents hready hsyncPath hsync
    (hnames _ hlist) (fun n hn m hm => hback _ hlist n hn m
      ((S.read_eq_ok_iff n hready _).2 ⟨m, hm, rfl⟩)) hexport
  refine ⟨docs, ?_, fun n m hm => ?_, updatesOnly_of_holds rfl hafter hoffers, ?_⟩
  · rw [hlist, hbefore.listed]
  · exact (S.read_eq_ok_iff n hready _).2 ⟨m, hbefore.doc n m hm, rfl⟩
  · rintro ⟨s', workingDir', active', proposed'⟩ w₁ w₂ hfiles' hcold' ⟨-, -, hproposed', hopen'⟩ rfl rfl
    obtain ⟨hactive', -⟩ := openActive_eq_ok hopen'
    simp only at hproposed' hopen' hactive'
    subst hactive' hproposed'
    obtain ⟨hagain, hsame⟩ := reopened_of_openActive hafter hfiles' hcold' hopen'
    exact updatesOnly_of_holds rfl hagain
      (hoffers.congr (S.wellFormed hafter.ready) (S.wellFormed hagain.ready) hsyncPath (hsame d))

/-- Settings of a site with a database, and with a key that is removed from what is proposed. -/
def sealing : Settings :=
  { Settings.default with
    backend := .database, activePath := "/active", syncPath := "/sync", stripKeys := ["_core"] }

/-- A world with a database of the documents of some texts, and with a proposed document that it
does not have. -/
def worldOf (texts : List (String × String)) : World :=
  .ofFiles ⟨[(["active"], .directory), (["active", "db"], .file (.records (.ofList texts))),
    (["sync"], .directory), (["sync", "old.page.yml"], .file (.text "name: Old\n"))]⟩ ⟨0, 0⟩ 0

/-- A document with the key and one without. -/
def sealedWorld : World :=
  worldOf [("system.menu", "name: Main\n"), ("system.site", "_core: seal\n")]

/-- The world once the database has been opened. -/
def openedWorld : World := (openActive sealing [] sealedWorld).2

/-- A site with these documents. -/
def sealedSite : Site := ⟨sealing, [], activeOf sealing [] .database, openProposed sealing []⟩

theorem opens_sealedSite : sealedSite.Opens sealedWorld openedWorld where
  activePath := by decide
  syncPath := by decide
  proposed := rfl
  active := Prod.ext rfl rfl

theorem updatesOnly_of_export_sealed : ∃ (w' : World) (docs : Documents),
    sealedWorld.files.WellFormed ∧ sealedWorld.caches = .empty ∧
      sealedSite.Opens sealedWorld openedWorld ∧
      (∀ names, (sealedSite.active.list "" openedWorld).1 = .ok names →
        ∀ n ∈ names, n.toList.head? ≠ some '.') ∧
      (∀ names, (sealedSite.active.list "" openedWorld).1 = .ok names → ∀ n ∈ names,
        ∀ m, (sealedSite.active.read n openedWorld).1 = .ok ⟨n, m⟩ → Yaml.ReadsBack m) ∧
      FileTree.Straight sealedSite.settings.syncPath ∧
      sealedSite.active.copyAll sealedSite.proposed openedWorld = (.ok 2, w') ∧
      docs.keys = ["system.menu", "system.site"] ∧
      sealedSite.UpdatesOnly w' (Stripped ["_core"] docs) := by
  have hfiles : sealedWorld.files.WellFormed := by decide +kernel
  have hlist : (sealedSite.active.list "" openedWorld).1 = .ok ["system.menu", "system.site"] :=
    eq_ok_of_toOption (by decide +kernel)
  have hnames : ∀ names, (sealedSite.active.list "" openedWorld).1 = .ok names →
      ∀ n ∈ names, n.toList.head? ≠ some '.' := fun names h => by
    rw [hlist] at h
    cases h
    decide
  have hsays : ["system.menu", "system.site"].all (fun n =>
      (sealedSite.active.read n openedWorld).1.toOption.all fun d =>
        decide (Yaml.ReadsBack d.data)) = true := by decide +kernel
  have hback : ∀ names, (sealedSite.active.list "" openedWorld).1 = .ok names → ∀ n ∈ names,
      ∀ m, (sealedSite.active.read n openedWorld).1 = .ok ⟨n, m⟩ → Yaml.ReadsBack m := by
    intro names h n hn m hm
    rw [hlist] at h
    cases h
    have hone := List.all_eq_true.1 hsays n hn
    rw [hm] at hone
    exact of_decide_eq_true hone
  have hsync : FileTree.Straight sealedSite.settings.syncPath := by decide +kernel
  have hexport : sealedSite.active.copyAll sealedSite.proposed openedWorld
      = (.ok 2, (sealedSite.active.copyAll sealedSite.proposed openedWorld).2) :=
    Prod.ext (eq_ok_of_toOption (by decide +kernel)) rfl
  obtain ⟨docs, hkeys, -, hupdates, -⟩ := updatesOnly_of_export hfiles rfl opens_sealedSite hnames
    hback (.inr hsync) hexport
  rw [hlist] at hkeys
  exact ⟨_, docs, hfiles, rfl, opens_sealedSite, hnames, hback, hsync, hexport,
    (Except.ok.inj hkeys).symm, hupdates⟩

/-- **What an import would change when everything has just been exported**; there is no telling when
the comparison fails. -/
def changesAfterExport (s : Settings) (workingDir : Place) :
    Attempt World ConfigError (Option Changelist) := do
  let active ← openActive s workingDir
  let site : Site := ⟨s, workingDir, active, openProposed s workingDir⟩
  let _ ← active.copyAll site.proposed
  fun w =>
    match site.comparer.refresh (.initial, w) with
    | (.ok (), (c, w)) => (.ok (some c.changelist), w)
    | (.error _, (_, w)) => (.ok none, w)

/-- Something may be left to change: an update of a document with a key that is removed from what is
proposed, a deletion of a document whose file is hidden, and the creation of a document that was
proposed before, when the path of the directory led nowhere yet. -/
theorem exists_changes_after_export :
    (changesAfterExport sealing [] (worldOf [("system.site", "_core: null\n")])).1.toOption
        = some (some ⟨[], ["system.site"], [], []⟩) ∧
      (changesAfterExport { sealing with stripKeys := [] } []
        (worldOf [(".page", "name: New\n")])).1.toOption = some (some ⟨[], [], [".page"], []⟩) ∧
      (changesAfterExport { sealing with stripKeys := [], syncPath := "/missing/../sync" } []
        (worldOf [(".page", "name: New\n")])).1.toOption
          = some (some ⟨["old.page"], [], [".page"], []⟩) := by
  decide +kernel

end Site

end SiteConfig
