import Mathlib
import SiteConfig.Proofs.Copying
import SiteConfig.Proofs.Course
import SiteConfig.Proofs.Halfway
import SiteConfig.Proofs.Maps
import SiteConfig.Proofs.Planned
import SiteConfig.SingleImport

/-!
# A single document

A single document is imported as a whole site would be: what is proposed is the active storage
itself, seen with that document in its place. All that a storage has to be for this is a map
(`SiteConfig.Storage.Maps`). The proposal then lists what the storage lists, and one name more at
most, so that nothing can be deleted, and nothing is left that the document could be taken for a new
name of, whatever identifier it carries. The changelist has a single entry
(`SiteConfig.Changelist.between_of_same_elsewhere`).

An import that starts with this comparison plans to write the document, and nothing else but what
the document says of extensions. When it completes, the storage is the old one with the document
put in (`SiteConfig.Storage.Maps.puts_single_document`).
-/

namespace SiteConfig

open Attempt

namespace NameMap

variable {α : Type} {m : NameMap α} {k : String} {v : α}

/-- Binding a name to what it is bound to changes nothing. -/
theorem insert_of_get? (h : m.get? k = some v) : m.insert k v = m := by
  refine ext_get? fun k' => ?_
  rw [get?_insert]
  split
  · rename_i hk
    rw [hk, h]
  · rfl

end NameMap

/-! ### One document that differs -/

namespace Changelist

variable {s t : Snapshot} {n : String} {d : Document}

section Elsewhere

variable (hs : s.Named) (ht : t.Named) (hn : s.get? n = some d)
  (helse : ∀ k, k ≠ n → s.get? k = t.get? k)

include hs hn helse in
/-- Nothing but the one document can be created, and it is when the target does not have it. -/
theorem mem_create_of_same_elsewhere (hrename : (between s t).rename = []) (k : String) :
    k ∈ (between s t).create ↔ k = n ∧ t.get? n = none := by
  rw [mem_create_iff hs, hrename]
  constructor
  · rintro ⟨⟨hd, hnone⟩, -⟩
    by_cases hk : k = n
    · exact ⟨hk, hk ▸ hnone⟩
    · rw [helse k hk] at hd
      exact (Snapshot.false_of_missing hd hnone).elim
  · rintro ⟨rfl, hnone⟩
    exact ⟨⟨⟨d, hn⟩, hnone⟩, nofun⟩

include ht helse in
/-- Nothing but the one document can be updated, and that only if the target has it. -/
theorem of_mem_update_of_same_elsewhere (k : String) (hk : k ∈ (between s t).update) :
    k = n ∧ t.get? n ≠ none := by
  obtain ⟨d', e, hd, he, hdiff⟩ := (mem_update_iff ht).1 hk
  by_cases hkn : k = n
  · subst hkn
    exact ⟨rfl, by rw [he]; nofun⟩
  · rw [helse k hkn, he] at hd
    rw [Option.some.inj hd, Document.sameContent_self] at hdiff
    cases hdiff

include hs ht hn helse in
/-- **If two snapshots are the same but for one document** that the source has, and anything is to
be changed, then the document is created, or it is updated if the target has it already. -/
theorem between_of_same_elsewhere (hchanges : (between s t).hasChanges = true) :
    between s t = if t.contains n then ⟨[], [n], [], []⟩ else ⟨[n], [], [], []⟩ := by
  -- the source has whatever the target has, and so nothing is deleted or renamed
  have hthere : ∀ k, (∃ e, t.get? k = some e) → ∃ d, s.get? k = some d := by
    rintro k ⟨e, he⟩
    by_cases hk : k = n
    · exact ⟨d, hk ▸ hn⟩
    · exact ⟨e, (helse k hk).trans he⟩
  have hrename := rename_eq_nil ht hthere
  have hcreate := mem_create_of_same_elsewhere hs hn helse hrename
  have hupdate := of_mem_update_of_same_elsewhere ht helse
  have heq : between s t = ⟨(between s t).create, (between s t).update, [], []⟩ := by
    rw [← delete_eq_nil ht hthere, ← hrename]
  rcases hcontains : t.contains n with _ | _
  · have hnone := NameMap.contains_eq_false_iff.1 hcontains
    have hc : (between s t).create = [n] :=
      NameMap.eq_of_mem_iff (create_sorted hs) (List.pairwise_singleton _ _) fun k => by
        rw [hcreate, List.mem_singleton, and_iff_left hnone]
    have hu : (between s t).update = [] :=
      List.eq_nil_iff_forall_not_mem.2 fun k hk => (hupdate k hk).2 hnone
    rw [heq, hc, hu]
    rfl
  · obtain ⟨e, he⟩ := NameMap.contains_iff.1 hcontains
    have hc : (between s t).create = [] := by
      refine List.eq_nil_iff_forall_not_mem.2 fun k hk => ?_
      have hnone := ((hcreate k).1 hk).2
      rw [he] at hnone
      cases hnone
    rw [heq, hc] at hchanges
    obtain ⟨k, hk⟩ : ∃ k, k ∈ (between s t).update := by
      refine List.exists_mem_of_ne_nil _ fun hnil => ?_
      rw [hnil] at hchanges
      cases hchanges
    obtain rfl := (hupdate k hk).1
    have hu : (between s t).update = [k] :=
      NameMap.eq_of_mem_iff (update_sorted ht) (List.pairwise_singleton _ _) fun k' => by
        rw [List.mem_singleton]
        exact ⟨fun h => (hupdate k' h).1, fun h => h ▸ hk⟩
    rw [heq, hc, hu]
    rfl

end Elsewhere

end Changelist

/-! ### Storages that are maps -/

namespace Storage

variable {σ : Type} {active : Storage σ} {docs : Documents} {n : String} {m : Yaml.Mapping}

/-- A name that is put into a list of names is bound. -/
theorem insertName_keys (n : String) (m : Yaml.Mapping) (docs : Documents) :
    insertName n docs.keys = (docs.insert n m).keys := by
  refine NameMap.eq_of_mem_iff (sorted_insertName docs.keys_sorted) (docs.insert n m).keys_sorted
    fun k => ?_
  rw [mem_insertName_iff, NameMap.mem_keys_iff, NameMap.mem_keys_iff, NameMap.get?_insert]
  split
  · rename_i hk
    exact iff_of_true (.inl hk) ⟨m, rfl⟩
  · rename_i hk
    exact or_iff_right hk

theorem read_overlay_self (n : String) (m : Yaml.Mapping) (s : σ) :
    (overlay active (.constant (NameMap.empty.insert n m))).read n s = (.ok ⟨n, m⟩, s) := by
  simp only [overlay, ofBasics, bind_apply, Cell.read, Cell.constant, NameMap.get?_insert, if_true]
  rfl

theorem read_overlay_of_ne {k : String} (hk : k ≠ n) (m : Yaml.Mapping) (s : σ) :
    (overlay active (.constant (NameMap.empty.insert n m))).read k s = active.read k s := by
  simp only [overlay, ofBasics, bind_apply, Cell.read, Cell.constant, NameMap.get?_insert, if_neg hk]
  rfl

section Maps

variable {I : σ → Documents → Prop} {takes : String → Yaml.Mapping → Prop}
  (h : active.Maps I takes)

include h in
/-- With a document replaced a map lists its names, and the name of that document. -/
theorem Maps.list_overlay (docs : Documents) (n : String) (m : Yaml.Mapping) :
    ((overlay active (.constant (NameMap.empty.insert n m))).list "").Gives (I · docs)
      (· = (docs.insert n m).keys) := by
  rw [← insertName_keys]
  refine (h.list docs).bind fun names hnames => (gives_constant _).bind fun replaced hreplaced => ?_
  rw [hnames, hreplaced]
  exact gives_pure rfl

include h in
/-- What is read of a map with a document replaced is that document, or what the map has. -/
theorem Maps.read_overlay (docs : Documents) (n : String) (m : Yaml.Mapping) (k : String) :
    ((overlay active (.constant (NameMap.empty.insert n m))).read k).Gives (I · docs)
      fun d => ∀ m', (docs.insert n m).get? k = some m' → d = ⟨k, m'⟩ := by
  intro s hs
  rw [NameMap.get?_insert]
  by_cases hk : k = n
  · subst hk
    rw [read_overlay_self, if_pos rfl]
    exact ⟨hs, fun d hd m' hm' => by cases hd; cases hm'; rfl⟩
  · rw [read_overlay_of_ne hk, if_neg hk]
    exact h.read docs k s hs

include h in
theorem Maps.found_overlay {s : σ} {e : ConfigError} (hs : I s docs) (m : Yaml.Mapping)
    {k : String} (hk : (docs.insert n m).contains k = true)
    (he : ((overlay active (.constant (NameMap.empty.insert n m))).read k s).1 = .error e) :
    e.isNotFound = false := by
  by_cases hkn : k = n
  · subst hkn
    rw [read_overlay_self] at he
    cases he
  · rw [NameMap.contains, NameMap.get?_insert, if_neg hkn] at hk
    rw [read_overlay_of_ne hkn] at he
    exact h.found hs hk he

include h in
/-- With a document replaced a map can be read as if the document had been written. -/
theorem Maps.readMany_overlay (docs : Documents) (n : String) (m : Yaml.Mapping) :
    ∀ names, ((overlay active (.constant (NameMap.empty.insert n m))).readMany names).Gives
      (I · docs) fun ds => (∀ k ∈ names, (docs.insert n m).contains k = true) →
        ds = documentsOf (docs.insert n m) names :=
  gives_readEach (h.read_overlay docs n m) fun _ _ _ hs => h.found_overlay hs m

end Maps

end Storage

/-! ### Preparing -/

/-- **The data of a document that is pasted** for some target: an identifier that is chosen takes
the place of its own, unless it is empty. -/
def SingleTarget.pasted : SingleTarget → Yaml.Mapping → Yaml.Mapping
  | .document _, m => m
  | .entity _ none, m => m
  | .entity t (some id), m => if id = "" then m else Yaml.Mapping.set m t.idKey (.string id)

namespace SingleImport

open Storage Yaml

variable {σ : Type} {active : Storage σ} {docs : Documents} {m : Mapping}

theorem readData_eq_ok_iff {text : String} :
    readData text = .ok m ↔
      Yaml.read text = .ok (.mapping m) ∨ Yaml.read text = .ok .null ∧ m = [] := by
  unfold readData
  rcases Yaml.read text with e | v
  · simp
  · cases v <;> simp [eq_comm]

theorem withChosenId_eq (t : EntityType) (chosen : Option String) (m : Mapping) :
    withChosenId t chosen m = (SingleTarget.entity t chosen).pasted m := by
  unfold withChosenId SingleTarget.pasted
  rcases chosen with _ | id
  · rfl
  · simp only [String.isEmpty_iff]

/-- **A single document that is prepared**: what is compared is the storage with some documents,
and the same storage with one of them replaced. -/
structure Prepared (active : Storage σ) (docs : Documents) (data : Mapping) (p : SingleImport σ) :
    Prop where
  replaces : p.replaces = docs.contains p.name
  comparer : p.comparer = compareWith active p.name data
  comparison : p.comparison
    = .between (snapshot [] (docs.insert p.name data)) (snapshot [] docs)
  changes : p.comparison.changelist.hasChanges = true

section Maps

variable {I : σ → Documents → Prop} {takes : String → Mapping → Prop} (h : active.Maps I takes)

include h in
theorem gives_checkUnused (docs : Documents) (uuid : String) (names : List String) :
    (checkUnused active uuid names).Gives (I · docs) fun _ => True := by
  induction names with
  | nil => exact gives_pure trivial
  | cons n names ih =>
    refine (h.read docs n).mapError.bind fun d _ => ?_
    split
    · exact gives_fail _
    · exact ih

include h in
/-- A document of an entity type is known to replace another one or not. -/
theorem gives_checkEntity (docs : Documents) (t : EntityType) (data : Mapping) :
    (checkEntity active t data).Gives (I · docs) fun x => x.2 = docs.contains x.1 := by
  unfold checkEntity
  rcases textOf? data t.idKey with _ | id
  · exact gives_fail _
  · refine (h.has docs _).mapError.bind fun there hthere => ?_
    rcases there with _ | _
    · simp only [Bool.false_eq_true, if_false]
      rcases textOf? data Document.uuidKey with _ | uuid
      · exact gives_pure hthere
      · refine (h.stable_list docs _).gives_true.mapError.bind fun others _ => ?_
        exact (gives_checkUnused h docs uuid others).bind fun _ _ => gives_pure hthere
    · simp only [if_true]
      refine (h.read docs _).mapError.bind fun existing _ => ?_
      exact (gives_ofExcept fun _ _ => trivial).bind fun _ _ => gives_pure hthere

include h in
theorem gives_locate (docs : Documents) (target : SingleTarget) (m : Mapping) :
    (locate active target m).Gives (I · docs) fun x =>
      x.2.1 = target.pasted m ∧ x.2.2 = docs.contains x.1 := by
  unfold locate
  rcases target with name | ⟨t, chosen⟩
  · exact (h.has docs name).mapError.bind fun there hthere => gives_pure ⟨rfl, hthere⟩
  · refine (gives_checkEntity h docs t _).bind fun x hx => ?_
    exact gives_pure ⟨withChosenId_eq t chosen m, hx⟩

include h in
/-- A map is compared with itself, with one document replaced. -/
theorem refresh_compareWith (n : String) (data : Mapping) {s : σ} (hs : I s docs) :
    I ((compareWith active n data).refresh (.initial, s)).2.2 docs ∧
      (((compareWith active n data).refresh (.initial, s)).1 = .ok () →
        ((compareWith active n data).refresh (.initial, s)).2.1
          = .between (snapshot [] (docs.insert n data)) (snapshot [] docs)) := by
  have hsource : (compareWith active n data).loadSource.Gives (I · docs)
      (· = snapshot [] (docs.insert n data)) :=
    Snapshot.gives_load [] (h.list_overlay docs n data)
      ((h.readMany_overlay docs n data _).imp fun _ hds => hds fun _ => NameMap.contains_of_mem_keys)
  have htarget : (compareWith active n data).loadTarget.Gives (I · docs) (· = snapshot [] docs) :=
    Snapshot.gives_load [] (h.list docs)
      ((h.readMany docs _).imp fun _ hds => hds fun _ => NameMap.contains_of_mem_keys)
  exact Comparer.refresh_gives hsource htarget .initial hs

include h in
/-- **Preparing** leaves the documents as they are. -/
theorem gives_prepare (docs : Documents) (target : SingleTarget) (text : String) :
    (prepare active target text).Gives (I · docs) fun p =>
      ∃ m, readData text = .ok m ∧ Prepared active docs (target.pasted m) p := by
  unfold prepare
  refine (gives_ofExcept (P := fun m => readData text = .ok m) fun m hm => hm).bind fun m hm => ?_
  refine (gives_locate h docs target m).bind fun x hx => ?_
  obtain ⟨name, data, replaces⟩ := x
  obtain ⟨rfl, hreplaces⟩ := hx
  refine (gives_ofExcept (P := fun _ => True) fun _ _ => trivial).bind fun _ _ => ?_
  refine Gives.bind (P := fun c => c = .between
    (snapshot [] (docs.insert name (target.pasted m))) (snapshot [] docs)) ?_ fun c hc => ?_
  · intro s hs
    obtain ⟨hleft, hcompared⟩ := refresh_compareWith h name (target.pasted m) hs
    rcases hrefresh : (compareWith active name (target.pasted m)).refresh (.initial, s)
      with ⟨e | ⟨⟩, c, s₁⟩ <;> rw [hrefresh] at hleft hcompared <;> simp only [hrefresh]
    · exact ⟨hleft, nofun⟩
    · exact ⟨hleft, fun c' hc' => by cases hc'; exact hcompared rfl⟩
  · by_cases hchanges : c.changelist.hasChanges = true
    · rw [if_pos hchanges]
      exact gives_pure ⟨m, hm, hreplaces, rfl, hc, hchanges⟩
    · rw [if_neg hchanges]
      exact gives_fail _

end Maps

/-- **A single document is the only thing to change.** -/
theorem Prepared.changelist_eq {p : SingleImport σ} {data : Mapping}
    (h : Prepared active docs data p) :
    p.comparison.changelist
      = if p.replaces then ⟨[], [p.name], [], []⟩ else ⟨[p.name], [], [], []⟩ := by
  have hcontains : (snapshot [] docs).contains p.name = p.replaces := by
    rw [h.replaces, NameMap.contains, get?_snapshot_nil, Option.isSome_map, NameMap.contains]
  have hchanges := h.changes
  rw [h.comparison] at hchanges ⊢
  rw [← hcontains]
  refine Changelist.between_of_same_elsewhere (named_snapshot _ _) (named_snapshot _ _)
    (d := ⟨p.name, data⟩) ?_ (fun k hk => ?_) hchanges
  · rw [get?_snapshot_nil, NameMap.get?_insert, if_pos rfl]
    rfl
  · rw [get?_snapshot_nil, get?_snapshot_nil, NameMap.get?_insert, if_neg hk]

end SingleImport

/-! ### Carrying out -/

namespace Storage

variable {source : Snapshot} {docs : Documents} {n : String} {d : Document} {st : Step}
  {steps : List Step}

/-- A step that writes a document of some name, and does nothing else. -/
def Writes (n : String) (st : Step) : Prop := st = .create n ∨ st = .update n

theorem after_of_writes (hd : source.get? n = some d) (h : Writes n st) :
    after source docs st = docs.insert n d.data := by
  obtain rfl | rfl := h <;> rw [after, adopt, hd]

/-- A step about extensions changes no documents. -/
theorem after_of_names_eq_nil (h : st.names = []) : after source docs st = docs := by
  cases st with
  | install e => rfl
  | uninstall e => rfl
  | _ => cases h

/-- A document that is there already is not changed by being written again. -/
theorem afterAll_of_get? (hd : source.get? n = some d) (hget : docs.get? n = some d.data)
    (honly : ∀ st ∈ steps, st.names = [] ∨ Writes n st) : afterAll source docs steps = docs := by
  induction steps with
  | nil => rfl
  | cons st steps ih =>
    have hsame : after source docs st = docs := by
      obtain hnil | hwrites := honly st List.mem_cons_self
      · exact after_of_names_eq_nil hnil
      · rw [after_of_writes hd hwrites, NameMap.insert_of_get? hget]
    rw [afterAll, List.foldl_cons, hsame]
    exact ih fun st' hst' => honly st' (List.mem_cons_of_mem st hst')

/-- **Steps that write a single document** leave the others as they are. -/
theorem afterAll_of_writes (hd : source.get? n = some d)
    (honly : ∀ st ∈ steps, st.names = [] ∨ Writes n st) (hsome : ∃ st ∈ steps, Writes n st) :
    afterAll source docs steps = docs.insert n d.data := by
  induction steps with
  | nil =>
    obtain ⟨st, hst, -⟩ := hsome
    cases hst
  | cons st steps ih =>
    have hrest := fun st' hst' => honly st' (List.mem_cons_of_mem st hst')
    rw [afterAll, List.foldl_cons]
    by_cases hwrites : Writes n st
    · rw [after_of_writes hd hwrites]
      exact afterAll_of_get? hd (by rw [NameMap.get?_insert, if_pos rfl]) hrest
    · rw [after_of_names_eq_nil ((honly st List.mem_cons_self).resolve_right hwrites)]
      obtain ⟨st', hst', hwrites'⟩ := hsome
      obtain rfl | hst' := List.mem_cons.1 hst'
      · exact absurd hwrites' hwrites
      · exact ih hrest ⟨st', hst', hwrites'⟩

end Storage

namespace Requirements

open Storage

variable {q : Requirements} {c : Changelist} {x : ExtensionChanges} {n : String} {steps : List Step}

/-- A single document is planned to be written, whatever else is planned about extensions. -/
theorem writes_of_plan (h : q.plan c x = .ok steps)
    (hc : c = ⟨[], [n], [], []⟩ ∨ c = ⟨[n], [], [], []⟩) :
    (∀ st ∈ steps, st.names = [] ∨ Writes n st) ∧ ∃ st ∈ steps, Writes n st := by
  have honly : ∀ st ∈ pendingSteps c x,
      st.names = [] ∧ (∀ k, st.item ≠ .document k) ∨ Writes n st := by
    intro st hst
    obtain rfl | rfl := hc <;>
      simp only [pendingSteps, removalSteps, additionSteps, Changelist.deletions, Changelist.writes,
        ExtensionChanges.installations, ExtensionChanges.uninstallations, List.map_nil,
        List.map_cons, List.nil_append, List.append_nil, List.mem_append, List.mem_map,
        List.mem_singleton] at hst
    all_goals
      obtain ⟨e, -, rfl⟩ | ⟨e, -, rfl⟩ | rfl := hst
      · exact .inl ⟨rfl, fun _ hk => by cases hk⟩
      · exact .inl ⟨rfl, fun _ hk => by cases hk⟩
    · exact .inr (.inr rfl)
    · exact .inr (.inl rfl)
  refine ⟨fun st hst => (honly st (mem_pendingSteps_of_plan h hst)).imp_left And.left, ?_⟩
  obtain ⟨st, hst, hitem⟩ : ∃ st ∈ pendingSteps c x, st.item = .document n := by
    obtain rfl | rfl := hc
    · exact ⟨.update n, by simp [pendingSteps, additionSteps, Changelist.writes], rfl⟩
    · exact ⟨.create n, by simp [pendingSteps, additionSteps, Changelist.writes], rfl⟩
  obtain ⟨st', hst', hitem'⟩ := exists_mem_plan h hst
  refine ⟨st', hst', (honly st' (mem_pendingSteps_of_plan h hst')).resolve_left fun hno => ?_⟩
  exact hno.2 n (hitem'.trans hitem)

end Requirements

namespace Importer

open ImportOperation ImportRun Storage SingleImport

variable {σ : Type} {i : Importer σ} {active : Storage σ} {I : σ → Documents → Prop}
  {takes : String → Yaml.Mapping → Prop} {docs : Documents} {data : Yaml.Mapping} {n : String}

section Apart

variable (h : i.Apart I)

/-- What nothing is seen of keeps the documents that a state is said to hold. -/
theorem stable_of_quiet {α : Type} {x : σ → α × σ} (hx : Quiet I x) (docs : Documents) :
    Stable (I · docs) x := fun s hs => (congrFun (hx s) docs).mpr hs

include h in
/-- A map is only looked at when it is compared with itself with a single document replaced. -/
theorem Apart.looks (hmaps : active.Maps I takes) (hcomparer : i.comparer = compareWith active n data)
    (docs : Documents) : i.Looks (I · docs) where
  listSource := by
    rw [hcomparer]
    exact fun s hs => (hmaps.list_overlay docs n data s hs).1
  readSource names := by
    rw [hcomparer]
    exact fun s hs => (hmaps.readMany_overlay docs n data names s hs).1
  listTarget := by
    rw [hcomparer]
    exact hmaps.stable_list docs ""
  readTarget names := by
    rw [hcomparer]
    exact fun s hs => (hmaps.readMany docs names s hs).1
  installed l hl := stable_of_quiet (h.installed l hl) docs
  info l hl e := stable_of_quiet (h.info l hl e) docs
  checks c hc review hr := stable_of_quiet (h.checks c hc review hr) docs

variable {r : ImportRun} {s s' : σ} {p' : ImportRun × σ} {source : Snapshot} {d : Document}
  {st : Step} {steps : List Step} (hmaps : i.comparer.target.Maps I takes)
  (hd : source.get? n = some d) (htakes : takes n d.data)

include h hmaps hd htakes in
/-- **A step that writes a document** which a map takes binds it when it succeeds; one about
extensions changes no documents. -/
theorem Apart.execute_ok (honly : st.names = [] ∨ Writes n st) (hs : I s docs)
    (hx : i.execute source st s = (.ok (), s')) : I s' (after source docs st) := by
  obtain hnil | hwrites := honly
  · have hquiet : I (i.execute source st s).2 = I s := by
      cases st with
      | install e => exact quiet_lifecycleFor (fun l hl => h.install l hl e.kind [e.name]) s
      | uninstall e => exact quiet_lifecycleFor (fun l hl => h.uninstall l hl e.kind [e.name]) s
      | _ => cases hnil
    rw [hx] at hquiet
    rw [after_of_names_eq_nil hnil]
    exact (congrFun hquiet docs).mpr hs
  · have hwrite : i.execute source st s
        = (i.comparer.target.write n d.data).mapError (·.message) s := by
      have hfrom := writeFrom_apply i source n s
      rw [hd] at hfrom
      obtain rfl | rfl := hwrites <;> exact hfrom
    rw [hwrite] at hx
    rw [after_of_writes hd hwrites]
    exact hmaps.written hs htakes (mapError_eq_ok_iff.1 hx)

include h hmaps in
/-- Such a step leaves the next one to be carried out. -/
theorem Apart.processStep_ok (hd : r.comparison.source.get? n = some d) (htakes : takes n d.data)
    (hnext : r.nextStep? = some st) (honly : st.names = [] ∨ Writes n st) (hs : I s docs)
    (hdone : i.processStep st (r, s) = (.ok (), p')) :
    p'.1 = r.stepped ∧ I p'.2 (after r.comparison.source docs st) := by
  have hreports : i.Reports I id := ⟨h.journal, h.release⟩
  rcases hx : i.execute r.comparison.source st s with ⟨reason | ⟨⟩, s₁⟩
  · obtain ⟨q, heq, -⟩ := hreports.yields_processStep_error hnext ⟨s₁, hx, rfl⟩
    cases heq.symm.trans hdone
  · obtain ⟨⟨r', s'⟩, heq, hview⟩ := hreports.yields_processStep hnext ⟨s₁, hx, rfl⟩
    obtain ⟨rfl, hsame⟩ := beside_eq_iff.1 hview
    cases heq.symm.trans hdone
    rw [id, ite_self] at hsame
    exact ⟨rfl, (congrFun hsame _).mpr (h.execute_ok hmaps hd htakes honly hs hx)⟩

include h hmaps in
/-- **Steps that write a document** bind it, once all of them have succeeded. -/
theorem Apart.forM_processStep (hd : r.comparison.source.get? n = some d)
    (htakes : takes n d.data) (hr : r.Awaits steps)
    (honly : ∀ st ∈ steps, st.names = [] ∨ Writes n st) (hs : I s docs)
    (hdone : steps.forM i.processStep (r, s) = (.ok (), p')) :
    I p'.2 (afterAll r.comparison.source docs steps) := by
  induction steps generalizing r s docs with
  | nil =>
    cases hdone
    exact hs
  | cons st steps ih =>
    obtain ⟨⟨⟩, ⟨r₁, s₁⟩, hstep, hrest⟩ := bind_eq_ok_iff.1 hdone
    obtain ⟨hrun, hs₁⟩ := h.processStep_ok hmaps hd htakes hr.nextStep?
      (honly st List.mem_cons_self) hs hstep
    obtain rfl : r₁ = r.stepped := hrun
    have hsource : r.stepped.comparison = r.comparison := by
      unfold ImportRun.stepped
      split <;> rfl
    have hall := ih (by rwa [hsource]) hr.stepped
      (fun st' hst' => honly st' (List.mem_cons_of_mem st hst')) hs₁ hrest
    rwa [hsource] at hall

include h in
/-- **A run that completes binds the document**, if it begins with what has been compared already
and that asks for nothing else. -/
theorem Apart.run_completed (hmaps : active.Maps I takes)
    (hcomparer : i.comparer = compareWith active n data) {c : Comparison}
    (hc : c.calculated = true)
    (hone : c.changelist = ⟨[], [n], [], []⟩ ∨ c.changelist = ⟨[n], [], [], []⟩)
    (hd : c.source.get? n = some d) (htakes : takes n d.data) (hs : I s docs) {k : Nat}
    {progress : List Progress} {q : ImportRun × σ}
    (hrun : i.run (.ofComparison c, s) = (.ok (.completed k, progress), q)) :
    I q.2 (docs.insert n d.data) := by
  obtain ⟨steps, p, ⟨⟨r₁, s₁⟩, ⟨r₂, s₂⟩, hvalid, hstart, hnone⟩, hends⟩ :=
    exists_course_of_run rfl hrun nofun
  cases hnone
  obtain ⟨hstatus, hdone⟩ | ⟨⟨_, _, _, _, hmidway⟩, -⟩ := hends
  · have hlooks := h.looks hmaps hcomparer docs
    have hcomparison : r₁.comparison = c := by
      have heq := validate_comparison i (.inl rfl : MayValidate (ofComparison c))
        (review_comparison_of_calculated i hc s)
      rwa [hvalid] at heq
    have hs₁ : I s₁ docs := hlooks.validate_of_ok hvalid hs
    have hs₂ : I s₂ docs := by
      have hkept := hlooks.stable_start
        (fun journal hj e => stable_of_quiet (h.journal journal hj e) docs)
        (stable_of_quiet h.acquire docs) (stable_of_quiet h.release docs) (r₁, s₁) hs₁
      rwa [hstart] at hkept
    obtain ⟨needs, hplan⟩ := exists_plan_of_start hstart
    replace hplan : needs.plan c.changelist r₁.extensionChanges = .ok steps := by
      rw [← hcomparison]
      exact hplan
    obtain ⟨honly, hsome⟩ := Requirements.writes_of_plan hplan hone
    have hsteps : steps ≠ [] := by
      rintro rfl
      cases hstatus
    obtain ⟨-, t, hr₂⟩ := (start_ends i r₁ s₁).apply hstart
    obtain rfl : r₂ = r₁.planned steps t := hr₂
    have hsource : (r₁.planned steps t).comparison = c := by
      unfold ImportRun.planned
      split <;> exact hcomparison
    have hafter := h.forM_processStep (by rwa [hcomparer]) (by rwa [hsource]) htakes
      (awaits_planned r₁ t hsteps) honly hs₂ hdone
    rwa [hsource, afterAll_of_writes hd honly hsome] at hafter
  · cases hmidway

end Apart

end Importer

/-! ### Pages on a bench -/

namespace Bench

open Importer Storage

/-- Pages are known by their identifiers. -/
def page : EntityType := ⟨"page", "Page", "blog", "id"⟩

/-- A bench whose target has a page. -/
def started : Bench where
  source := .empty
  target := .ofList [("blog.start", [(.string "uuid", .string "u1")])]
  held := []
  changes := 0

/-- What comes of a single document on this bench, if all goes well: its name, and the documents of
the target in the end. -/
def outcome (target : SingleTarget) (text : String) : Option (String × Documents) :=
  match SingleImport.prepare (memory documents) target text started with
  | (.ok p, s) =>
    match (importerOf p.comparer).run (.ofComparison p.comparison, s) with
    | (.ok (.completed _, _), q) => some (p.name, q.2.target)
    | _ => none
  | _ => none

theorem exists_run {target : SingleTarget} {text name : String} {docs : Documents}
    (h : outcome target text = some (name, docs)) :
    ∃ p s k progress q,
      SingleImport.prepare (memory documents) target text started = (.ok p, s) ∧
      (importerOf p.comparer).run (.ofComparison p.comparison, s)
        = (.ok (.completed k, progress), q) ∧ p.name = name ∧ q.2.target = docs := by
  unfold outcome at h
  rcases hprepare : SingleImport.prepare (memory documents) target text started with ⟨e | p, s⟩ <;>
    rw [hprepare] at h
  · cases h
  · simp only at h
    split at h
    · rename_i hrun
      cases h
      exact ⟨p, s, _, _, _, rfl, hrun, rfl, rfl⟩
    · cases h

end Bench

/-! ### The import of a single document -/

namespace Storage

/-- **A single document is put into the active storage.** Once it is prepared there is one change to
be made: it is updated if it replaces another document, and it is created otherwise. If the run of
the prepared import completes then the storage holds what it held before, with the document under
its name, provided that the storage takes it; a chosen identifier takes the place of its own, unless
it is empty. -/
theorem Maps.puts_single_document {σ : Type} {active : Storage σ} {I : σ → Documents → Prop}
    {takes : String → Yaml.Mapping → Prop} (h : active.Maps I takes) {target : SingleTarget}
    {text : String} {s s' : σ} {docs : Documents} {p : SingleImport σ} (hs : I s docs)
    (hprepare : SingleImport.prepare active target text s = (.ok p, s')) :
    I s' docs ∧ p.replaces = docs.contains p.name ∧
    p.comparison.changelist
      = (if p.replaces then ⟨[], [p.name], [], []⟩ else ⟨[p.name], [], [], []⟩) ∧
    ∃ m, (Yaml.read text = .ok (.mapping m) ∨ Yaml.read text = .ok .null ∧ m = []) ∧
      (takes p.name (target.pasted m) →
        ∀ i : Importer σ, i.comparer = p.comparer → i.Apart I → ∀ s₁ docs₁ k progress q,
          I s₁ docs₁ →
          i.run (.ofComparison p.comparison, s₁) = (.ok (.completed k, progress), q) →
            I q.2 (docs₁.insert p.name (target.pasted m))) := by
  obtain ⟨hview, hgives⟩ := SingleImport.gives_prepare h docs target text s hs
  rw [hprepare] at hview hgives
  obtain ⟨m, hm, hp⟩ := hgives p rfl
  refine ⟨hview, hp.replaces, hp.changelist_eq, m, SingleImport.readData_eq_ok_iff.1 hm,
    fun htakes i hcomparer hapart s₁ docs₁ k progress q hs₁ hrun => ?_⟩
  have hcalc : p.comparison.calculated = true := by
    rw [hp.comparison]
    rfl
  have hone : p.comparison.changelist = ⟨[], [p.name], [], []⟩ ∨
      p.comparison.changelist = ⟨[p.name], [], [], []⟩ := by
    rw [hp.changelist_eq]
    cases p.replaces
    · exact .inr rfl
    · exact .inl rfl
  have hsource : p.comparison.source.get? p.name = some ⟨p.name, target.pasted m⟩ := by
    rw [hp.comparison]
    show (Storage.snapshot [] _).get? _ = _
    rw [Storage.get?_snapshot_nil, NameMap.get?_insert, if_pos rfl]
    rfl
  exact hapart.run_completed h (hcomparer.trans hp.comparer) hcalc hone hsource htakes hs₁ hrun

/-- A page that is pasted with an identifier of its own choosing is put under that name. -/
theorem puts_single_document_news :
    ∃ p s k progress q,
      SingleImport.prepare (memory Bench.documents) (.entity Bench.page (some "news")) "uuid: u2\n"
        Bench.started = (.ok p, s) ∧
      (Bench.importerOf p.comparer).run (.ofComparison p.comparison, s)
        = (.ok (.completed k, progress), q) ∧
      p.comparison.changelist = ⟨["blog.news"], [], [], []⟩ ∧
      q.2.target = Bench.started.target.insert "blog.news"
        (Yaml.Mapping.set [(.string "uuid", .string "u2")] "id" (.string "news")) := by
  have hname : (Bench.outcome (.entity Bench.page (some "news")) "uuid: u2\n").map (·.1)
      = some "blog.news" := by decide +kernel
  have hnew : (SingleImport.prepare (memory Bench.documents) (.entity Bench.page (some "news"))
      "uuid: u2\n" Bench.started).1.toOption.map (·.replaces) = some false := by decide +kernel
  have hread : Yaml.read "uuid: u2\n" = .ok (.mapping [(.string "uuid", .string "u2")]) :=
    eq_ok_of_toOption (by decide +kernel)
  obtain ⟨⟨_, docs⟩, houtcome, rfl⟩ := Option.map_eq_some_iff.1 hname
  obtain ⟨p, s, k, progress, q, hprepare, hrun, hp, -⟩ := Bench.exists_run houtcome
  rw [hprepare] at hnew
  obtain ⟨hview, -, hchange, m, hm, hput⟩ :=
    (maps_memory Bench.documents fun _ _ => rfl).puts_single_document rfl hprepare
  rw [hread] at hm
  obtain hm | ⟨hm, -⟩ := hm <;> cases hm
  replace hput := hput trivial _ rfl ((Bench.apart p.comparer).comp fun held docs => held = docs) s _
    k progress q hview hrun
  rw [hp] at hput
  rw [show p.replaces = false from Option.some.inj hnew, hp] at hchange
  exact ⟨p, s, k, progress, q, hprepare, hrun, hchange, hput⟩

/-- An identifier that is chosen is not always that of the document: an empty one does not count. -/
theorem not_always_chosen :
    ¬∀ (t : EntityType) (id text : String) (s s' : Bench) (p : SingleImport Bench)
      (m : Yaml.Mapping) (k : Nat) (progress : List Importer.Progress)
      (q : ImportRun × Bench),
      SingleImport.prepare (memory Bench.documents) (.entity t (some id)) text s = (.ok p, s') →
      Yaml.read text = .ok (.mapping m) →
      (Bench.importerOf p.comparer).run (.ofComparison p.comparison, s')
        = (.ok (.completed k, progress), q) →
      q.2.target = s.target.insert p.name (Yaml.Mapping.set m t.idKey (.string id)) := by
  intro h
  have hkept : (Bench.outcome (.entity Bench.page (some "")) "id: home\n").map
      (fun x => (x.1, x.2.get? "blog.home"))
        = some ("blog.home", some [(.string "id", .string "home")]) := by decide +kernel
  have hread : Yaml.read "id: home\n" = .ok (.mapping [(.string "id", .string "home")]) :=
    eq_ok_of_toOption (by decide +kernel)
  obtain ⟨⟨name, docs⟩, houtcome, heq⟩ := Option.map_eq_some_iff.1 hkept
  obtain ⟨hname, hget⟩ := Prod.mk.inj heq
  obtain ⟨p, s, k, progress, q, hprepare, hrun, hp, hq⟩ := Bench.exists_run houtcome
  have hchosen := h Bench.page "" "id: home\n" Bench.started s p _ k progress q hprepare hread hrun
  rw [hp, hq, show name = "blog.home" from hname] at hchosen
  rw [hchosen, NameMap.get?_insert, if_pos rfl] at hget
  exact absurd hget (by decide +kernel)

end Storage

end SiteConfig
