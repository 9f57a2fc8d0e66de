import Mathlib
import SiteConfig.Proofs.Cycles
import SiteConfig.Proofs.Scene

/-!
# What the standard checks find

Each standard check looks for one kind of problem. What it finds is stated as a condition on
the proposal under review: the check leaves the scene as it is, and its list of problems is
empty just when the condition holds (`SiteConfig.Check.Finds`). All conditions together are
those of an accepted proposal (`SiteConfig.Check.finds_standard`).
-/

namespace SiteConfig

namespace Check

variable {σ : Type} {view : σ → Scene} {v : Scene} {rv : Review σ} {P Q : Prop}

/-- **What a check finds out**: it changes nothing that can be seen, and it finds no problem
just when a condition holds. -/
def Finds (c : Check σ) (rv : Review σ) (view : σ → Scene) (v : Scene) (P : Prop) : Prop :=
  ∀ s, view s = v → ∃ ps s', c.run rv s = (ps, s') ∧ view s' = v ∧ (ps = [] ↔ P)

theorem finds_silent {name : String} {problems : Review σ → List Problem}
    (h : problems rv = [] ↔ P) : Finds (silent name problems) rv view v P :=
  fun s hs => ⟨problems rv, s, rfl, hs, h⟩

/-- The conditions of some checks, all together. -/
theorem runAll_finds {cs : List (Check σ)} {Ps : List Prop}
    (h : List.Forall₂ (fun c P => Finds c rv view v P) cs Ps) :
    ∀ s, view s = v → ∃ ps s', runAll cs rv s = (ps, s') ∧ view s' = v ∧
      (ps = [] ↔ ∀ P ∈ Ps, P) := by
  induction h with
  | nil => exact fun s hs => ⟨[], s, rfl, hs, by simp⟩
  | cons hc _ ih =>
    intro s hs
    obtain ⟨ps, s₁, hrun, hv₁, hiff⟩ := hc s hs
    obtain ⟨qs, s₂, hrest, hv₂, hiff'⟩ := ih s₁ hv₁
    refine ⟨ps ++ qs, s₂, ?_, hv₂, ?_⟩
    · simp only [runAll, hrun, hrest]
    · rw [List.append_eq_nil_iff, hiff, hiff', List.forall_mem_cons]

/-! ### Reviews of proposals -/

variable {p : Proposal}

/-- What is under review is a proposal. -/
structure Reviews (rv : Review σ) (p : Proposal) : Prop where
  comparison : rv.comparison = .between p.source p.target
  extensionChanges : rv.extensionChanges = p.extensionChanges
  schemas : rv.schemas = p.schemas
  requirements : rv.requirements = p.requirements

namespace Reviews

variable (hr : Reviews rv p)

include hr

theorem changelist : rv.changelist = p.changelist := by rw [Review.changelist, hr.comparison]; rfl

theorem sourceDocument? (n : String) : rv.sourceDocument? n = p.source.get? n := by
  rw [Review.sourceDocument?, hr.comparison]; rfl

theorem targetDocument? (n : String) : rv.targetDocument? n = p.target.get? n := by
  rw [Review.targetDocument?, hr.comparison]; rfl

theorem sourceExtensions : rv.comparison.sourceExtensions = p.listed := by
  rw [hr.comparison]; rfl

theorem targetExtensions : rv.comparison.targetExtensions = Comparison.extensionsIn p.target := by
  rw [hr.comparison]; rfl

end Reviews

/-! ### Names and identifiers -/

variable (hr : Reviews rv p)

include hr in
theorem finds_names :
    Finds names rv view v (∀ n ∈ p.changelist.writtenNames, validateName n = .ok ()) := by
  refine finds_silent ?_
  rw [hr.changelist, List.filterMap_eq_nil_iff]
  refine forall₂_congr fun n _ => ?_
  rcases validateName n with e | ⟨⟩ <;> simp

include hr in
theorem finds_siteIdentity : Finds siteIdentity rv view v
    (Proposal.AgreeOnUuid (p.source.get? siteName) (p.target.get? siteName)) := by
  refine finds_silent ?_
  rw [hr.sourceDocument?, hr.targetDocument?, Proposal.AgreeOnUuid]
  rcases (p.source.get? siteName).bind (·.uuid?) with _ | u <;>
    rcases (p.target.get? siteName).bind (·.uuid?) with _ | w <;> simp

include hr in
theorem changedUuids_eq_nil_iff : changedUuids rv = [] ↔
    ∀ n ∈ p.changelist.update, n ≠ siteName →
      Proposal.AgreeOnUuid (p.source.get? n) (p.target.get? n) := by
  rw [changedUuids, hr.changelist, List.filterMap_eq_nil_iff]
  simp only [List.mem_filter, hr.sourceDocument?, hr.targetDocument?, bne_iff_ne, and_imp]
  refine forall₃_congr fun n _ _ => ?_
  rw [Proposal.AgreeOnUuid]
  rcases (p.source.get? n).bind (·.uuid?) with _ | u <;>
    rcases (p.target.get? n).bind (·.uuid?) with _ | w <;> simp

/-- The documents of an identifier. -/
def ofUuid (u : String) (docs : List Document) : List Document :=
  docs.filter fun d => d.uuid? = some u

/-- The names that are collected for an identifier. -/
theorem get?_namesByUuid (s : Snapshot) (u : String) :
    (namesByUuid s).get? u
      = if ofUuid u s.values = [] then none else some ((ofUuid u s.values).map (·.name)) := by
  -- from the last document on, as the names are collected in the order of the documents
  rw [namesByUuid]
  induction s.values using List.reverseRecOn with
  | nil => rfl
  | append_singleton docs d ih =>
    rw [List.foldl_append, List.foldl_cons, List.foldl_nil, ofUuid, List.filter_append]
    rw [ofUuid] at ih
    by_cases hd : d.uuid? = some u
    · simp only [hd, NameMap.get?_insert, if_true, ih]
      by_cases hnil : docs.filter (fun d => d.uuid? = some u) = []
      · simp [hnil, hd]
      · simp [hnil, hd]
    · have hone : [d].filter (fun d => d.uuid? = some u) = [] := by simp [hd]
      rw [hone, List.append_nil, ← ih]
      rcases hw : d.uuid? with _ | w
      · rfl
      · have hne : u ≠ w := fun h => hd (h ▸ hw)
        simp [NameMap.get?_insert, hne]

/-- Documents with distinct names are at most one when any two of them have the same name. -/
theorem length_le_one_iff {l : List Document} (hl : (l.map (·.name)).Pairwise (· < ·)) :
    l.length ≤ 1 ↔ ∀ d ∈ l, ∀ e ∈ l, d.name = e.name := by
  constructor
  · intro h d hd e he
    match l, h with
    | [a], _ => rw [List.mem_singleton.1 hd, List.mem_singleton.1 he]
  · intro h
    match l with
    | [] => simp
    | [a] => simp
    | a :: b :: l =>
      exfalso
      have hlt := (List.pairwise_cons.1 hl).1 b.name (by simp)
      exact (ne_of_lt hlt) (h a (by simp) b (by simp))

include hr in
theorem sharedUuids_eq_nil_iff (hp : p.source.Named) :
    sharedUuids rv = [] ↔ p.source.Distinct := by
  have hsource : rv.comparison.source = p.source := by rw [hr.comparison]; rfl
  have hsorted : ∀ u, ((ofUuid u p.source.values).map (·.name)).Pairwise (· < ·) :=
    fun u => hp.names_sorted List.filter_sublist
  have hmem : ∀ {u d}, d ∈ ofUuid u p.source.values ↔
      p.source.get? d.name = some d ∧ d.uuid? = some u := fun {u d} => by
    rw [ofUuid, List.mem_filter, hp.mem_values_iff]
    simp
  have hshort : sharedUuids rv = [] ↔ ∀ u, (ofUuid u p.source.values).length ≤ 1 := by
    rw [sharedUuids, hsource, List.filterMap_eq_nil_iff]
    constructor
    · intro h u
      by_cases hnil : ofUuid u p.source.values = []
      · simp [hnil]
      · have := h (u, (ofUuid u p.source.values).map (·.name))
          (NameMap.mem_entries_iff.2 (by rw [get?_namesByUuid, if_neg hnil]))
        simpa using this
    · rintro h ⟨u, ns⟩ he
      have hget := NameMap.mem_entries_iff.1 he
      rw [get?_namesByUuid] at hget
      split at hget
      · cases hget
      · cases hget
        simpa using h u
  -- names are unique, so that two documents are two names
  rw [hshort]
  simp only [length_le_one_iff (hsorted _), hmem]
  constructor
  · intro h m n d e u hd he hdu heu
    obtain rfl := hp m d hd
    obtain rfl := hp n e he
    exact h u d ⟨hd, hdu⟩ e ⟨he, heu⟩
  · exact fun h u d hd e he => h _ _ d e u hd.1 he.1 hd.2 he.2

include hr in
theorem finds_uuids (hp : p.source.Named) : Finds uuids rv view v
    ((∀ n ∈ p.changelist.update, n ≠ siteName →
      Proposal.AgreeOnUuid (p.source.get? n) (p.target.get? n)) ∧ p.source.Distinct) := by
  refine finds_silent ?_
  rw [List.append_eq_nil_iff, changedUuids_eq_nil_iff hr, sharedUuids_eq_nil_iff hr hp]

/-! ### Schemas -/

include hr in
theorem mem_written_iff {d : Document} :
    d ∈ rv.changelist.writtenNames.filterMap rv.sourceDocument? ↔
      ∃ n ∈ p.changelist.writtenNames, p.source.get? n = some d := by
  rw [hr.changelist, List.mem_filterMap]
  simp only [hr.sourceDocument?]

include hr in
theorem finds_schemas : Finds schemas rv view v
    (∀ catalog, p.schemas = some catalog → ∀ n ∈ p.changelist.writtenNames,
      ∀ d, p.source.get? n = some d → catalog.problems d = []) := by
  refine finds_silent ?_
  rw [hr.schemas]
  rcases p.schemas with _ | catalog
  · simp
  · simp only [List.flatMap_eq_nil_iff, mem_written_iff hr, List.map_eq_nil_iff,
      Option.some.injEq]
    constructor
    · rintro h _ rfl n hn d hd
      exact h d ⟨n, hn, hd⟩
    · rintro h d ⟨n, hn, hd⟩
      exact h catalog rfl n hn d hd

/-! ### The plan -/

include hr in
theorem finds_cycles (hp : p.WellFormed) : Finds cycles rv view v (∃ steps, p.plan = .ok steps) := by
  refine finds_silent ?_
  have hplan : rv.requirements.plan rv.changelist rv.extensionChanges = p.plan := by
    rw [hr.changelist, hr.extensionChanges, hr.requirements]
    rfl
  rw [hplan]
  rcases h : p.plan with found | steps
  · have hne := Requirements.ne_nil_of_plan_eq_error hp.disjoint_changelist
      hp.disjoint_extensionChanges.distinct h
    simp [hne]
  · simp

/-! ### Extensions -/

include hr in
theorem profileProblems_eq_nil_iff (wanted : CoreExtension) :
    profileProblems rv wanted = [] ↔ p.KeepsProfile wanted := by
  rw [profileProblems, hr.targetExtensions, Proposal.KeepsProfile]
  rcases Comparison.extensionsIn p.target with e | _ | current
  · simp
  · simp
  · rcases hq : current.profile with _ | q <;> simp [hq]

section Lifecycle

variable {l : Lifecycle σ} {known : Extension → Option ExtensionInfo}

/-- A lifecycle says what is known about extensions, and nothing is to be seen of it. -/
def Knows (l : Lifecycle σ) (view : σ → Scene) (known : Extension → Option ExtensionInfo) : Prop :=
  ∀ s e, (l.info e).Yields view s (.ok (known e)) (view s)

variable (hl : Knows l view known)

include hl in
theorem lookUp_eq (s : σ) (e : Extension) :
    ∃ s', lookUp l e s = (.ok (known e), s') ∧ view s' = view s := by
  obtain ⟨s', hs', hv⟩ := hl s e
  exact ⟨s', by rw [lookUp, hs'], hv⟩

include hl in
/-- Extensions can be installed when they are known and what they need will be there. -/
theorem installProblems_eq (after es : List Extension) (s : σ) :
    ∃ ps s', installProblems l after es s = (ps, s') ∧ view s' = view s ∧
      (ps = [] ↔ ∀ e ∈ es, ∃ i, known e = some i ∧ ∀ f ∈ i.dependencies, f ∈ after) := by
  induction es generalizing s with
  | nil => exact ⟨[], s, rfl, rfl, by simp⟩
  | cons e es ih =>
    obtain ⟨s₁, h₁, hv₁⟩ := lookUp_eq hl s e
    obtain ⟨ps, s₂, h₂, hv₂, hiff⟩ := ih s₁
    rcases hk : known e with _ | i
    · refine ⟨.unknownExtension e :: ps, s₂, ?_, hv₂.trans hv₁, by simp [hk]⟩
      simp only [installProblems, bind, StateT.bind, h₁, h₂, hk]
      rfl
    · refine ⟨(i.dependencies.filter fun f => !after.contains f).map (.lacksRequirement e) ++ ps,
        s₂, ?_, hv₂.trans hv₁, ?_⟩
      · simp only [installProblems, bind, StateT.bind, h₁, h₂, hk]
        rfl
      · rw [List.append_eq_nil_iff, hiff, List.forall_mem_cons, hk]
        simp [List.filter_eq_nil_iff]

include hl in
theorem remaining_eq (es : List Extension) (s : σ) :
    ∃ s', remaining l es s = ((es.filterMap known, []), s') ∧ view s' = view s := by
  induction es generalizing s with
  | nil => exact ⟨s, rfl, rfl⟩
  | cons e es ih =>
    obtain ⟨s₁, h₁, hv₁⟩ := lookUp_eq hl s e
    obtain ⟨s₂, h₂, hv₂⟩ := ih s₁
    refine ⟨s₂, ?_, hv₂.trans hv₁⟩
    simp only [remaining, bind, StateT.bind, h₁, h₂, List.filterMap_cons]
    rcases known e with _ | i <;> rfl

include hl in
/-- Extensions can be uninstalled when they are not required and none that remains needs
them. -/
theorem uninstallEach_eq (infos : List ExtensionInfo) (es : List Extension) (s : σ) :
    ∃ ps s', uninstallEach l infos es s = (ps, s') ∧ view s' = view s ∧
      (ps = [] ↔ ∀ e ∈ es, (∀ i, known e = some i → i.required = false) ∧
        ∀ i ∈ infos, e ∉ i.dependencies) := by
  induction es generalizing s with
  | nil => exact ⟨[], s, rfl, rfl, by simp⟩
  | cons e es ih =>
    obtain ⟨s₁, h₁, hv₁⟩ := lookUp_eq hl s e
    obtain ⟨ps, s₂, h₂, hv₂, hiff⟩ := ih s₁
    have hdep : (infos.filter fun i => i.dependencies.contains e).map
        (fun i => Problem.stillNeeded e i.extension) = [] ↔ ∀ i ∈ infos, e ∉ i.dependencies := by
      simp [List.filter_eq_nil_iff]
    rcases hk : known e with _ | i
    · refine ⟨[] ++ (infos.filter fun i => i.dependencies.contains e).map
        (fun i => Problem.stillNeeded e i.extension) ++ ps, s₂, ?_, hv₂.trans hv₁, ?_⟩
      · simp only [uninstallEach, bind, StateT.bind, h₁, h₂, hk]
        rfl
      · rw [List.nil_append, List.append_eq_nil_iff, hdep, hiff, List.forall_mem_cons, hk]
        simp
    · refine ⟨(if i.required then [.requiredExtension e] else []) ++
        (infos.filter fun i => i.dependencies.contains e).map
          (fun i => Problem.stillNeeded e i.extension) ++ ps, s₂, ?_, hv₂.trans hv₁, ?_⟩
      · simp only [uninstallEach, bind, StateT.bind, h₁, h₂, hk]
        rfl
      · rw [List.append_eq_nil_iff, List.append_eq_nil_iff, hdep, hiff, List.forall_mem_cons, hk]
        cases hreq : i.required <;> simp [hreq]

include hl in
theorem uninstallProblems_eq (after removed : List Extension) (s : σ) :
    ∃ ps s', uninstallProblems l after removed s = (ps, s') ∧ view s' = view s ∧
      (ps = [] ↔ ∀ e ∈ removed, (∀ i, known e = some i → i.required = false) ∧
        ∀ f ∈ after, ∀ i, known f = some i → e ∉ i.dependencies) := by
  by_cases hnil : removed.isEmpty = true
  · refine ⟨[], s, ?_, rfl, ?_⟩
    · rw [uninstallProblems, if_pos hnil]
      rfl
    · simp [List.isEmpty_iff.1 hnil]
  · obtain ⟨s₁, h₁, hv₁⟩ := remaining_eq hl after s
    obtain ⟨ps, s₂, h₂, hv₂, hiff⟩ := uninstallEach_eq hl (after.filterMap known) removed s₁
    refine ⟨ps, s₂, ?_, hv₂.trans hv₁, hiff.trans ?_⟩
    · rw [uninstallProblems, if_neg hnil]
      simp only [bind, StateT.bind, h₁, h₂, List.nil_append]
      rfl
    · -- what is known of the extensions that remain has been looked up beforehand
      simp only [List.mem_filterMap]
      refine forall₂_congr fun e _ => and_congr_right fun _ => ⟨fun h f hf i hi => ?_, ?_⟩
      · exact h i ⟨f, hf, hi⟩
      · rintro h i ⟨f, hf, hi⟩
        exact h f hf i hi

end Lifecycle

/-- The lifecycle that a review asks, if there is one, knows the catalog of the proposal and
lists its installed extensions. -/
structure Asks (rv : Review σ) (p : Proposal) (view : σ → Scene) (v : Scene) : Prop where
  knows : ∀ l, rv.lifecycle = some l → ∃ k, p.catalog = some k ∧ Knows l view k
  installed : ∀ l, rv.lifecycle = some l → ∀ s, view s = v →
    l.installed.Yields view s (.ok p.installed) v
  nobody : rv.lifecycle = none → p.catalog = none

variable (hask : Asks rv p view v)

theorem known_of_catalog {k : Extension → Option ExtensionInfo} (hk : p.catalog = some k)
    (e : Extension) : p.known e = k e := by
  rw [Proposal.known, hk]
  rfl

/-- What the changes of extensions have to meet. -/
def ExtensionsPossible (p : Proposal) (wanted : CoreExtension) : Prop :=
  (∀ e ∈ p.extensionChanges.install,
      ∃ i, p.known e = some i ∧ ∀ f ∈ i.dependencies, f ∈ wanted.extensions) ∧
    ∀ e ∈ p.extensionChanges.uninstall, (∀ i, p.known e = some i → i.required = false) ∧
      ∀ f ∈ wanted.extensions, ∀ i, p.known f = some i → e ∉ i.dependencies

theorem extensionsPossible_of_no_catalog (h : p.catalog = none) (wanted : CoreExtension) :
    ExtensionsPossible p wanted := by
  have hx : p.extensionChanges = .empty := by rw [Proposal.extensionChanges, h]
  rw [ExtensionsPossible, hx]
  simp [ExtensionChanges.empty]

include hr hask in
theorem finds_extensions : Finds extensions rv view v
    ((∃ wanted, p.listed = .ok wanted) ∧ ∀ wanted, p.listed = .ok (some wanted) →
      p.KeepsProfile wanted ∧ ExtensionsPossible p wanted) := by
  intro s hs
  rcases hw : p.listed with e | _ | wanted
  · exact ⟨[.config e], s, by simp only [extensions, hr.sourceExtensions, hw]; rfl, hs, by simp⟩
  · exact ⟨[], s, by simp only [extensions, hr.sourceExtensions, hw]; rfl, hs, by simp⟩
  · simp only [Except.ok.injEq, exists_eq', true_and, Option.some.injEq, forall_eq']
    -- without a lifecycle there is nothing to ask about installing
    rcases hlc : rv.lifecycle with _ | l
    · refine ⟨profileProblems rv wanted, s, ?_, hs, ?_⟩
      · simp only [extensions, hr.sourceExtensions, hw, hlc]
        rfl
      · rw [profileProblems_eq_nil_iff hr]
        exact (and_iff_left (extensionsPossible_of_no_catalog (hask.nobody hlc) wanted)).symm
    · obtain ⟨k, hk, hl⟩ := hask.knows l hlc
      obtain ⟨ps, s₁, h₁, hv₁, hins⟩ :=
        installProblems_eq hl wanted.extensions p.extensionChanges.install s
      obtain ⟨qs, s₂, h₂, hv₂, hun⟩ :=
        uninstallProblems_eq hl wanted.extensions p.extensionChanges.uninstall s₁
      refine ⟨profileProblems rv wanted ++ ps ++ qs, s₂, ?_, (hv₂.trans hv₁).trans hs, ?_⟩
      · simp only [extensions, hr.sourceExtensions, hw, hlc, hr.extensionChanges, bind, StateT.bind,
          h₁, h₂]
        rfl
      · rw [List.append_eq_nil_iff, List.append_eq_nil_iff, profileProblems_eq_nil_iff hr, hins, hun,
          and_assoc, ExtensionsPossible]
        simp only [known_of_catalog hk]

/-! ### Dependencies -/

include hr in
theorem unmetNeeds_eq_nil_iff {after : Option (List Extension)} {needs : Dependencies} :
    unmetNeeds rv after needs = [] ↔
      (∀ l, after = some l →
        (∀ m ∈ needs.module, .module m ∈ l) ∧ ∀ t ∈ needs.theme, .theme t ∈ l) ∧
      ∀ n ∈ needs.config, ∃ e, p.source.get? n = some e := by
  have hconfig : (needs.config.filter fun n => (rv.sourceDocument? n).isNone) = [] ↔
      ∀ n ∈ needs.config, ∃ e, p.source.get? n = some e := by
    rw [List.filter_eq_nil_iff]
    refine forall₂_congr fun n _ => ?_
    rw [hr.sourceDocument?, Option.isNone_iff_eq_none, ← ne_eq, Option.ne_none_iff_exists']
  simp only [unmetNeeds, List.append_eq_nil_iff, List.map_eq_nil_iff, hconfig]
  refine and_congr_left fun _ => ?_
  rcases after with _ | l
  · simp
  · simp [List.filter_eq_nil_iff]

include hr in
/-- A document has no problems when everything that it needs will be there. -/
theorem documentProblems_eq_nil_iff {listed : Bool}
    (hlisted : listed = true ↔ ∃ wanted, p.listed = .ok (some wanted)) {d : Document} :
    documentProblems rv listed p.extensionsAfter d = [] ↔ p.Provides d := by
  unfold documentProblems Proposal.Provides
  rw [List.append_eq_nil_iff]
  refine and_congr ?_ ?_
  · rcases hl : listed with _ | _
    · have hno : ∀ wanted, p.listed ≠ .ok (some wanted) := fun wanted hw => by
        rw [hlisted.2 ⟨wanted, hw⟩] at hl
        cases hl
      simp [hno]
    · obtain ⟨wanted, hw⟩ := hlisted.1 hl
      have hafter : p.extensionsAfter = some wanted.extensions := by
        rw [Proposal.extensionsAfter, hw]
      simp [hafter, hw]
  · rcases d.dependencies with e | needs
    · simp
    · simp only [List.map_eq_nil_iff, unmetNeeds_eq_nil_iff hr, Except.ok.injEq, exists_eq_left']

include hr hask in
/-- What a review takes the extensions after the import to be. -/
theorem extensionsAfter_eq {w : Option CoreExtension} (hw : p.listed = .ok w) :
    ∀ s, view s = v → ∃ s', rv.extensionsAfter s = (.ok p.extensionsAfter, s') ∧ view s' = v := by
  intro s hs
  rcases w with _ | wanted
  · rcases hlc : rv.lifecycle with _ | l
    · refine ⟨s, ?_, hs⟩
      simp only [Review.extensionsAfter, hr.sourceExtensions, hw, hlc, Proposal.extensionsAfter,
        hask.nobody hlc]
      rfl
    · obtain ⟨k, hk, -⟩ := hask.knows l hlc
      obtain ⟨s', hs', hv⟩ := (hask.installed l hlc s hs).mapError (f := fun f => Problem.listing f.text)
      refine ⟨s', ?_, hv⟩
      simp only [Review.extensionsAfter, hr.sourceExtensions, hw, hlc, Proposal.extensionsAfter, hk,
        Attempt.bind_apply, hs']
      rfl
  · refine ⟨s, ?_, hs⟩
    simp only [Review.extensionsAfter, hr.sourceExtensions, hw, Proposal.extensionsAfter]
    rfl

include hr hask in
theorem finds_dependencies : Finds dependencies rv view v ((∃ w, p.listed = .ok w) ∧
    ∀ n ∈ p.changelist.writtenNames, ∀ d, p.source.get? n = some d → p.Provides d) := by
  intro s hs
  rcases hw : p.listed with e | w
  · -- the list cannot be read
    refine ⟨.config e :: (rv.changelist.writtenNames.filterMap rv.sourceDocument?).flatMap
      (documentProblems rv false none), s, ?_, hs, by simp⟩
    simp only [dependencies, Review.extensionsAfter, hr.sourceExtensions, hw]
    rfl
  · obtain ⟨s', hs', hv⟩ := extensionsAfter_eq hr hask hw s hs
    have hlisted : w.isSome = true ↔ ∃ wanted, p.listed = .ok (some wanted) := by
      rw [hw]
      rcases w with _ | wanted <;> simp
    refine ⟨(rv.changelist.writtenNames.filterMap rv.sourceDocument?).flatMap
      (documentProblems rv w.isSome p.extensionsAfter), s', ?_, hv, ?_⟩
    · simp only [dependencies, hs', hr.sourceExtensions, hw]
      rcases w with _ | wanted <;> rfl
    · rw [List.flatMap_eq_nil_iff]
      simp only [documentProblems_eq_nil_iff hr hlisted, mem_written_iff hr]
      exact ⟨fun h => ⟨⟨w, rfl⟩, fun n hn d hd => h d ⟨n, hn, hd⟩⟩,
        fun h d ⟨n, hn, hd⟩ => h.2 n hn d hd⟩

/-! ### All checks -/

include hr hask in
/-- **The standard checks find no problem in an accepted proposal**, and some problem in any
other one. -/
theorem finds_standard (hp : p.WellFormed) : ∀ s, view s = v →
    ∃ ps s', runAll standard rv s = (ps, s') ∧ view s' = v ∧ (ps = [] ↔ p.Accepted) := by
  have hall : List.Forall₂ (fun c P => Finds c rv view v P) (standard (σ := σ)) _ :=
    .cons (finds_names hr) (.cons (finds_siteIdentity hr) (.cons (finds_uuids hr hp.source)
      (.cons (finds_schemas hr) (.cons (finds_extensions hr hask) (.cons (finds_dependencies hr hask)
        (.cons (finds_cycles hr hp) .nil))))))
  intro s hs
  obtain ⟨ps, s', hrun, hv, hiff⟩ := runAll_finds hall s hs
  refine ⟨ps, s', hrun, hv, hiff.trans ?_⟩
  simp only [List.forall_mem_cons, List.not_mem_nil, false_imp_iff, implies_true, and_true]
  constructor
  · rintro ⟨hn, hsite, ⟨hu, hd⟩, hsch, ⟨hl, hext⟩, ⟨-, hneeds⟩, hplan⟩
    exact ⟨hl, hn, hsite, hu, hd, hsch, fun w hw => (hext w hw).1, fun w hw => (hext w hw).2.1,
      fun w hw => (hext w hw).2.2, hneeds, hplan⟩
  · intro h
    exact ⟨h.names, h.site, ⟨h.uuids, h.distinct⟩, h.schemas,
      ⟨h.listed, fun w hw => ⟨h.profile w hw, h.installs w hw, h.uninstalls w hw⟩⟩,
      ⟨h.listed, h.needs⟩, h.ordered⟩

end Check

end SiteConfig
