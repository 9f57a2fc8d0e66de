import Mathlib
import SiteConfig.Proofs.Layering
import SiteConfig.Proofs.Sections
import SiteConfig.Proofs.Texts

/-!
# Layers without their nulls

A null in a layer of settings means that nothing is set. Leaving out nulls from the files never breaks
what can be loaded, and never changes it. The other way round it matters that the layers are
**regular** (`SiteConfig.Settings.Regular`): mappings with plain keys, whose sections are such mappings,
too. Then the settings that are loaded are the same with the nulls and without, and so is whether
any are (`SiteConfig.Settings.load_of_prunes`). What is beneath a null has to be a mapping for the
null to be passed over: where a section replaces something else, or has a tag, its nulls stay and are
read.
-/

namespace SiteConfig

open Yaml

namespace Yaml.Value

variable {v base upper : Value} {m : Mapping}

/-! ### Tables -/

/-- **A table**: a mapping with plain keys, or nothing that is set. -/
def Table (v : Value) : Prop := v = .null ∨ ∃ m, v = .mapping m ∧ ∀ e ∈ m, ∃ s, e.1 = .string s

theorem Table.overlay (hb : base.Table) (hu : upper.Table) (pu : upper.Proper) :
    (base.overlay upper).Table := by
  obtain rfl | ⟨m, rfl, hm⟩ := hu
  · exact hb
  obtain rfl | ⟨l, rfl, hl⟩ := hb
  · exact .inr ⟨m, rfl, hm⟩
  refine .inr ⟨_, rfl, fun e he => ?_⟩
  have hkey : e.1 ∈ l.map (·.1) ++ Mapping.newKeys l m := by
    rw [← Mapping.map_fst_overlayEntries (proper_mapping_iff.1 pu).1]
    exact List.mem_map_of_mem he
  rcases List.mem_append.1 hkey with hkey | hkey
  · obtain ⟨f, hf, heq⟩ := List.mem_map.1 hkey
    exact heq ▸ hl f hf
  · obtain ⟨f, hf, heq⟩ := List.mem_map.1 hkey
    exact heq ▸ hm f (List.mem_of_mem_filter hf)

theorem Table.entries? (h : v.Table) (hm : v.entries? = some m) : ∀ e ∈ m, ∃ s, e.1 = .string s := by
  obtain rfl | ⟨n, rfl, hn⟩ := h
  · cases hm
    nofun
  · cases hm
    exact hn

/-- A member of a table is what its key is bound to. -/
theorem Table.member? (h : v.Table) (hm : v.entries? = some m) (key : String) :
    m.member? key = v.at? [.string key] := by
  obtain rfl | ⟨n, rfl, hn⟩ := h
  · cases hm
    rfl
  · cases hm
    rw [at?_mapping_cons, show (at? · []) = some from funext at?_nil, Option.bind_fun_some]
    induction m with
    | nil => rfl
    | cons e m ih =>
      obtain ⟨⟨s, hs⟩, hn⟩ := List.forall_mem_cons.1 hn
      rw [Mapping.member?_cons, Mapping.valueAt?_cons, ih hn, hs]
      simp [Value.asString?, Value.untag, Value.same]

/-! ### What stays bound -/

/-- A value that binds something other than null at the end of a path. -/
def Binds (v : Value) (p : List Value) : Prop := ∃ x, v.at? p = some x ∧ x ≠ .null

/-- A path is followed key by key. -/
theorem at?_cons (v k : Value) (p : List Value) :
    v.at? (k :: p) = (v.at? [k]).bind fun w => w.at? p := by
  by_cases h : ∃ m, v = .mapping m
  · obtain ⟨m, rfl⟩ := h
    rw [at?_mapping_cons, at?_mapping_cons, Option.bind_assoc]
    simp only [at?_nil, Option.bind_some]
  · rw [at?_cons_of_ne fun m heq => h ⟨m, heq⟩, at?_cons_of_ne fun m heq => h ⟨m, heq⟩]
    rfl

/-- **What is bound stays bound** under a value that has nothing but mappings on the way. -/
theorem Proper.binds_overlay {p : List Value} (pb : base.Proper) (pu : upper.Proper)
    (hp : ∀ k ∈ p, k.Proper) (h : base.Binds p) (hupper : ∀ q, q <+: p → q ≠ p → ∀ y,
      upper.at? q = some y → y = .null ∨ ∃ m, y = .mapping m) : (base.overlay upper).Binds p := by
  induction p generalizing base upper with
  | nil =>
    obtain ⟨x, hx, hne⟩ := h
    obtain rfl := Option.some_inj.1 hx
    rcases upper.null_or_mapping_or_leaf with rfl | ⟨m, rfl⟩ | hleaf
    · exact ⟨base, rfl, hne⟩
    · refine ⟨_, rfl, fun heq => ?_⟩
      cases base <;> cases heq
    · rw [overlay_of_isLeaf hleaf]
      refine ⟨upper, rfl, fun heq => ?_⟩
      cases heq ▸ hleaf
  | cons k p ih =>
    obtain ⟨hk, hp⟩ := List.forall_mem_cons.1 hp
    obtain rfl | ⟨m, rfl⟩ := hupper [] List.nil_prefix nofun upper (at?_nil _)
    · exact h
    obtain ⟨x, hx, hne⟩ := h
    by_cases hbase : ∃ l, base = .mapping l
    · obtain ⟨l, rfl⟩ := hbase
      rw [at?_mapping_cons] at hx
      obtain ⟨w, hw, hx⟩ := Option.bind_eq_some_iff.1 hx
      rw [overlay_mapping, Binds, at?_mapping_cons, pb.valueAt?_overlayEntries pu hk, hw]
      cases hupper' : Mapping.valueAt? m k with
      | none => exact ⟨x, hx, hne⟩
      | some u =>
        refine ih (Mapping.proper_of_valueAt? pb hw) (Mapping.proper_of_valueAt? pu hupper') hp
          ⟨x, hx, hne⟩ ?_
        intro q hq hqp y hy
        refine hupper (k :: q) ((List.prefix_cons_inj k).2 hq) (by simpa using hqp) y ?_
        rw [at?_mapping_cons, hupper']
        exact hy
    · rw [at?_cons_of_ne fun l heq => hbase ⟨l, heq⟩] at hx
      cases hx

end Yaml.Value

namespace Settings

variable {v w base upper : Value} {s t : Settings}

/-! ### Regular layers -/

/-- **A regular layer**: a table whose sections are tables. -/
structure Regular (v : Value) : Prop where
  table : v.Table
  sections : ∀ kc ∈ sections, ∀ x, v.at? [.string kc.1] = some x → x.Table

theorem Regular.overlay (hb : Regular base) (hu : Regular upper) (pb : base.Proper)
    (pu : upper.Proper) : Regular (base.overlay upper) where
  table := hb.table.overlay hu.table pu
  sections kc hkc x hx := by
    obtain rfl | ⟨m, rfl, -⟩ := hu.table
    · exact hb.sections kc hkc x hx
    obtain rfl | ⟨l, rfl, -⟩ := hb.table
    · exact hu.sections kc hkc x hx
    have hbelow := hb.sections kc hkc
    have habove := hu.sections kc hkc
    have hkey : (Value.string kc.1).Proper := trivial
    rw [Value.overlay_mapping, Value.at?_mapping_cons, pb.valueAt?_overlayEntries pu hkey] at hx
    rw [Value.at?_mapping_cons] at hbelow habove
    cases hm : Mapping.valueAt? m (.string kc.1) with
    | none =>
      rw [hm] at hx
      exact hbelow x hx
    | some u =>
      rw [hm] at hx habove
      have htable := habove u (Value.at?_nil u)
      cases hw : Mapping.valueAt? l (.string kc.1) with
      | none =>
        rw [hw] at hx
        cases hx
        exact htable
      | some b =>
        rw [hw] at hx hbelow
        cases hx
        exact (hbelow b (Value.at?_nil b)).overlay htable (Mapping.proper_of_valueAt? pu hm)

/-- The paths of what cannot be read from null. -/
def needed : List (List String) :=
  ["state-dir"] :: sections.flatMap fun kc =>
    (kc.2.entries.filter fun e => !(e.read .null).isOk).map fun e => [kc.1, e.key]

/-- A value that binds all that is needed. -/
def Complete (v : Value) : Prop := ∀ p ∈ needed, v.Binds (p.map .string)

/-- What is needed is no section, but may be in one. -/
theorem eq_of_mem_needed {p : List String} (hp : p ∈ needed) :
    p = ["state-dir"] ∨ ∃ kc ∈ sections, ∃ key, p = [kc.1, key] := by
  rw [needed, List.mem_cons, List.mem_flatMap] at hp
  refine hp.imp_right fun ⟨kc, hkc, hp⟩ => ?_
  obtain ⟨e, -, rfl⟩ := List.mem_map.1 hp
  exact ⟨kc, hkc, e.key, rfl⟩

/-- A regular layer puts nothing but tables on the way to what is needed. -/
theorem Regular.table_of_prefix (h : Regular v) {p : List String} (hp : p ∈ needed)
    {q : List Value} (hq : q <+: p.map .string) (hne : q ≠ p.map .string) {y : Value}
    (hy : v.at? q = some y) : y.Table := by
  rcases eq_of_mem_needed hp with rfl | ⟨kc, hkc, key, rfl⟩
  · rcases List.prefix_cons_iff.1 hq with rfl | ⟨r, rfl, hr⟩
    · cases hy
      exact h.table
    · obtain rfl := List.prefix_nil.1 hr
      exact absurd rfl hne
  · rcases List.prefix_cons_iff.1 hq with rfl | ⟨r, rfl, hr⟩
    · cases hy
      exact h.table
    rcases List.prefix_cons_iff.1 hr with rfl | ⟨r', rfl, hr'⟩
    · exact h.sections kc hkc y hy
    · obtain rfl := List.prefix_nil.1 hr'
      exact absurd rfl hne

/-- Regular layers leave nothing out that is needed. -/
theorem Complete.overlay (hb : Complete base) (hu : Regular upper) (pb : base.Proper)
    (pu : upper.Proper) : Complete (base.overlay upper) := by
  intro p hp
  refine pb.binds_overlay pu (List.forall_mem_map.2 fun _ _ => trivial) (hb p hp) ?_
  intro q hq hne y hy
  exact (hu.table_of_prefix hp hq hne hy).imp_right fun ⟨m, hm, _⟩ => ⟨m, hm⟩

/-- **Regular layers over something complete** give something regular and complete. -/
theorem regular_overlayAll {ls : List Value} (hb : Regular base) (hcomplete : Complete base)
    (pb : base.Proper) (hls : ∀ l ∈ ls, Regular l) (pls : ∀ l ∈ ls, l.Proper) :
    Regular (base.overlayAll ls) ∧ Complete (base.overlayAll ls) := by
  induction ls generalizing base with
  | nil => exact ⟨hb, hcomplete⟩
  | cons l ls ih =>
    obtain ⟨hl, hls⟩ := List.forall_mem_cons.1 hls
    obtain ⟨pl, pls⟩ := List.forall_mem_cons.1 pls
    exact ih (hb.overlay hl pb pl) (hcomplete.overlay hl pb pl) (pb.overlay pl) hls pls

theorem regular_builtIn : Regular builtIn where
  table := .inr ⟨_, rfl, by simp⟩
  sections := by
    intro kc hkc x hx
    fin_cases hkc <;> cases hx <;> exact .inr ⟨_, rfl, by simp⟩

theorem complete_builtIn : Complete builtIn := by
  have hneeded : needed = [["state-dir"], ["active", "backend"], ["active", "path"],
      ["sync", "path"], ["schema", "strict"], ["import", "lock-key"]] := rfl
  intro p hp
  rw [hneeded] at hp
  fin_cases hp <;> exact ⟨_, rfl, nofun⟩

/-! ### Reading without nulls, and with them -/

/-- A section that is a table is read as it is without its nulls, if none of them is refused. -/
theorem Section.decode_of_thinned {c : Section} (pv : v.Proper) (pw : w.Proper) (hvw : v.Thins w)
    (htable : v.Table) (hnull : ∀ e ∈ c.entries, v.at? [.string e.key] = some .null →
      (e.read .null).isOk = true) (h : c.decode default w = .ok t) : c.decode default v = .ok t := by
  rw [decode, c.portion.copy_self, ← c.map_key_slots] at h ⊢
  refine c.slots_entries.record_of_thinned pv pw hvw (fun m hm => ⟨htable.entries? hm,
    fun i hi x hx => ⟨?_, fun y a _ hxy hy => (flat_of_mem hi).eq_of_thins hxy hy ▸ hy⟩⟩) h
  rintro rfl
  obtain ⟨e, he, rfl⟩ := List.mem_map.1 hi
  have hok := hnull e he ((htable.member? hm e.key).symm.trans hx)
  cases ha : e.read .null with
  | error _ =>
    rw [ha] at hok
    cases hok
  | ok a => exact (c.flat e he).null a ha ▸ ha

theorem mem_members_iff {i : Slot Settings} : i ∈ members ↔ (∃ kc ∈ sections, i = kc.2.slot kc.1) ∨
    i = stateDirEntry.slot ∨ i = entityTypesEntry.slot := by
  simp only [members, sections, List.mem_cons, List.not_mem_nil, or_false, exists_eq_or_imp,
    exists_eq_left]
  tauto

/-- **Settings are read from a regular value with all that is needed** as they are without its
nulls. -/
theorem decode_of_thinned (pv : v.Proper) (pw : w.Proper) (hvw : v.Thins w) (hregular : Regular v)
    (hcomplete : Complete v) (h : decode w = .ok s) : decode v = .ok s := by
  rw [decode_eq] at h ⊢
  refine slots_members.record_of_thinned pv pw hvw (fun m hm =>
    ⟨hregular.table.entries? hm, fun i hi x hx => ?_⟩) h
  have px := Slots.proper_of_member? (pv.entries? hm) hx
  rw [hregular.table.member? hm] at hx
  rcases mem_members_iff.1 hi with ⟨kc, hkc, rfl⟩ | rfl | rfl
  · refine ⟨fun _ => Section.decode_null.trans (congrArg _ (kc.2.portion.copy_self _).symm),
      fun y a py hxy hy => Section.decode_of_thinned px py hxy (hregular.sections kc hkc x hx)
        (fun e he hnull => ?_) hy⟩
    by_contra hread
    have hneeded : [kc.1, e.key] ∈ needed := by
      refine List.mem_cons_of_mem _ (List.mem_flatMap.2 ⟨kc, hkc, List.mem_map.2 ⟨e, ?_, rfl⟩⟩)
      simpa [he] using hread
    obtain ⟨z, hz, hne⟩ := hcomplete _ hneeded
    have hat : v.at? [.string kc.1] = some x := hx
    rw [List.map_cons, Value.at?_cons, hat] at hz
    exact hne (Option.some_inj.1 (hz.symm.trans hnull))
  · refine ⟨?_, fun y a _ hxy hy => flat_stateDir.eq_of_thins hxy hy ▸ hy⟩
    rintro rfl
    obtain ⟨z, hz, hne⟩ := hcomplete ["state-dir"] List.mem_cons_self
    exact absurd (Option.some_inj.1 (hz.symm.trans hx)) hne
  · refine ⟨?_, fun y a _ hxy hy => flat_entityTypes.eq_of_thins hxy hy ▸ hy⟩
    rintro rfl
    rfl

/-! ### Loading -/

variable {around around' : Surroundings} {explicit : Option String}

theorem applyVariables_congr (h : around'.overrides = around.overrides) (s : Settings) :
    s.applyVariables around' = s.applyVariables around := by
  simp only [applyVariables, Surroundings.valueOf?, h]

theorem baseDir_congr (h : around'.workingDir = around.workingDir) (file : Option String) :
    around'.baseDir file = around.baseDir file := by
  simp only [Surroundings.baseDir, h]

/-- **What is loaded** is what the layers state over the built-in defaults. -/
theorem load_eq_ok_iff : load around explicit = .ok s ↔
    ∃ ls file t u, layers around explicit = .ok ls ∧ around.projectFile? explicit = .ok file ∧
      decode (builtIn.overlayAll ls) = .ok t ∧ t.applyVariables around = .ok u ∧
        u.resolvePaths (around.baseDir file) = s := by
  simp only [load_eq, merged, ofValue, except_bind_eq_ok_iff, except_map_eq_ok_iff,
    except_mapError_eq_ok_iff, pure, Except.pure, Except.ok.injEq]
  constructor
  · rintro ⟨_, ⟨ls, hls, rfl⟩, t, ht, u, hu, file, hfile, hs⟩
    exact ⟨ls, file, t, u, hls, hfile, ht, hu, hs⟩
  · rintro ⟨ls, file, t, u, hls, hfile, ht, hu, hs⟩
    exact ⟨_, ⟨ls, hls, rfl⟩, t, ht, u, hu, file, hfile, hs⟩

/-- A layer without some of its nulls; a layer that cannot be read stays as it is. -/
inductive Pruned : Except ConfigError Value → Except ConfigError Value → Prop
  | ok {v w : Value} : v.Omits w → Pruned (.ok v) (.ok w)
  | error (e : ConfigError) : Pruned (.error e) (.error e)

/-- **Surroundings with the same layers without some of their nulls.** -/
structure Prunes (around around' : Surroundings) (explicit : Option String) : Prop where
  workingDir : around'.workingDir = around.workingDir
  overrides : around'.overrides = around.overrides
  file : around'.projectFile? explicit = around.projectFile? explicit
  user : Pruned (globalLayer around) (globalLayer around')
  project : ∀ path, around.projectFile? explicit = .ok (some path) →
    Pruned (around.layer path) (around'.layer path)

/-- The layers are the same without some of their nulls, or there are none for the same reason. -/
theorem Prunes.layers_cases (h : Prunes around around' explicit) :
    (∃ ls ls', layers around explicit = .ok ls ∧ layers around' explicit = .ok ls' ∧
      List.Forall₂ Value.Omits ls ls') ∨
    ∃ e, layers around explicit = .error e ∧ layers around' explicit = .error e := by
  have huser := h.user
  have hproject := h.project
  rw [layers, layers, h.file]
  generalize globalLayer around = user, globalLayer around' = user' at huser ⊢
  generalize around.projectFile? explicit = file at hproject ⊢
  cases huser with
  | error e => exact .inr ⟨e, rfl, rfl⟩
  | ok huser =>
    cases file with
    | error e => exact .inr ⟨e, rfl, rfl⟩
    | ok file =>
      cases file with
      | none => exact .inl ⟨_, _, rfl, rfl, .cons huser (.cons (.refl _) .nil)⟩
      | some path =>
        have hlayer := hproject path rfl
        simp only [bind, Except.bind, pure, Except.pure]
        generalize around.layer path = project, around'.layer path = project' at hlayer ⊢
        cases hlayer with
        | error e => exact .inr ⟨e, rfl, rfl⟩
        | ok hlayer => exact .inl ⟨_, _, rfl, rfl, .cons huser (.cons hlayer .nil)⟩

/-- Layers without some of their nulls are thinner. -/
theorem thins_of_forall₂ {ls ls' : List Value} (h : List.Forall₂ Value.Omits ls ls')
    (pls : ∀ l ∈ ls, l.Proper) : List.Forall₂ Value.Thins ls ls' := by
  induction h with
  | nil => exact .nil
  | cons hl _ ih =>
    obtain ⟨pl, pls⟩ := List.forall_mem_cons.1 pls
    exact .cons (hl.thins pl).2 (ih pls)

/-- **Settings are read from layers without some nulls** if they are from the layers, and they are the
same; the other way round this holds for regular layers. -/
theorem decode_overlayAll {ls ls' : List Value} (h : List.Forall₂ Value.Omits ls ls')
    (pls : ∀ l ∈ ls, l.Proper) (pls' : ∀ l ∈ ls', l.Proper) :
    (∀ t, decode (builtIn.overlayAll ls) = .ok t → decode (builtIn.overlayAll ls') = .ok t) ∧
      ((∀ l ∈ ls, Regular l) → ∀ t, decode (builtIn.overlayAll ls') = .ok t →
        decode (builtIn.overlayAll ls) = .ok t) := by
  have hthins := Value.Thins.overlayAll (thins_of_forall₂ h pls) (.refl builtIn) proper_builtIn
    proper_builtIn pls pls'
  have pmerged := proper_builtIn.overlayAll pls
  have pmerged' := proper_builtIn.overlayAll pls'
  refine ⟨fun t => decode_of_thins pmerged pmerged' hthins, fun hregular t => ?_⟩
  obtain ⟨hmerged, hcomplete⟩ :=
    regular_overlayAll regular_builtIn complete_builtIn proper_builtIn hregular pls
  exact decode_of_thinned pmerged pmerged' hthins hmerged hcomplete

/-- **A null is not set.** Settings that can be loaded are loaded without any of the nulls in the
layers, too, and are the same. If the layers are regular, nothing else can be loaded without the
nulls. -/
theorem load_of_prunes (h : Prunes around around' explicit) :
    (∀ s, load around explicit = .ok s → load around' explicit = .ok s) ∧
      ((∀ ls, layers around explicit = .ok ls → ∀ l ∈ ls, Regular l) →
        ∀ s, load around explicit = .ok s ↔ load around' explicit = .ok s) := by
  rcases h.layers_cases with ⟨ls, ls', hls, hls', homits⟩ | ⟨e, he, he'⟩
  · obtain ⟨hread, hback⟩ := decode_overlayAll homits (proper_of_layers hls) (proper_of_layers hls')
    simp only [load_eq_ok_iff, hls, hls', h.file, applyVariables_congr h.overrides,
      baseDir_congr h.workingDir, Except.ok.injEq]
    constructor
    · rintro s ⟨_, file, t, u, rfl, hfile, ht, hu, hs⟩
      exact ⟨_, file, t, u, rfl, hfile, hread t ht, hu, hs⟩
    · intro hregular s
      constructor
      · rintro ⟨_, file, t, u, rfl, hfile, ht, hu, hs⟩
        exact ⟨_, file, t, u, rfl, hfile, hread t ht, hu, hs⟩
      · rintro ⟨_, file, t, u, rfl, hfile, ht, hu, hs⟩
        exact ⟨_, file, t, u, rfl, hfile, hback (hregular _ rfl) t ht, hu, hs⟩
  · simp [load_eq_ok_iff, he, he']

/-- A user with settings, and a site with some. -/
def siteOf (user project : String) : Surroundings where
  files := ⟨[(["home"], .directory), (["home", "config.yaml"], .file (.text user)),
    (["site"], .directory), (["site", "cfgsync.yaml"], .file (.text project))]⟩
  workingDir := "/site"
  globalDir := some "/home"
  overrides := []

/-- The layers that are read for a site. -/
def Reads (around : Surroundings) (user project : Value) : Prop :=
  globalLayer around = .ok user ∧ around.projectFile? none = .ok (some "/site/cfgsync.yaml") ∧
    around.layer "/site/cfgsync.yaml" = .ok project

instance (around : Surroundings) (user project : Value) : Decidable (Reads around user project) :=
  decidable_of_iff ((globalLayer around).toOption = some user ∧
      (around.projectFile? none).toOption = some (some "/site/cfgsync.yaml") ∧
        (around.layer "/site/cfgsync.yaml").toOption = some project)
    ⟨fun ⟨hu, hf, hp⟩ => ⟨eq_ok_of_toOption hu, eq_ok_of_toOption hf, eq_ok_of_toOption hp⟩,
      fun ⟨hu, hf, hp⟩ => ⟨congrArg _ hu, congrArg _ hf, congrArg _ hp⟩⟩

theorem Reads.layers_eq {user project : Value} (h : Reads around user project) :
    layers around none = .ok [user, project] :=
  layers_eq_ok_iff.2 ⟨user, project, h.1, ⟨_, h.2.1, h.2.2⟩, rfl⟩

theorem Reads.prunes {user user' project project' : Value} (h : Reads around user project)
    (h' : Reads around' user' project') (hdir : around'.workingDir = around.workingDir)
    (hoverrides : around'.overrides = around.overrides) (huser : user.Omits user')
    (hproject : project.Omits project') : Prunes around around' none := by
  refine ⟨hdir, hoverrides, h'.2.1.trans h.2.1.symm, ?_, fun path hpath => ?_⟩
  · rw [h.1, h'.1]
    exact .ok huser
  · cases h.2.1.symm.trans hpath
    rw [h.2.2, h'.2.2]
    exact .ok hproject

/-- Layers with nulls, over what the defaults bind and next to it. -/
def vague : Surroundings :=
  siteOf "sync:\n  path: ~\n  depth: 2\n" "schema:\n  dir: ~\n  strict: true\nowner: ~\n"

/-- The layers without the nulls. -/
def terse : Surroundings := siteOf "sync:\n  depth: 2\n" "schema:\n  strict: true\n"

theorem load_of_prunes_terse : Prunes vague terse none ∧
    (∀ ls, layers vague none = .ok ls → ∀ l ∈ ls, Regular l) ∧
    (load vague none).toOption = some { default with
      activePath := "/site/config/active", syncPath := "/site/config/sync"
      stateDir := "/site/.cfgsync", strict := true
      entityTypes := [⟨"image_style", "Image style", "image.style", "name"⟩,
        ⟨"node_type", "Content type", "node.type", "type"⟩, ⟨"menu", "Menu", "system.menu", "id"⟩] } ∧
    ∀ s, load vague none = .ok s ↔ load terse none = .ok s := by
  have hvague : Reads vague
      (.mapping [(.string "sync",
        .mapping [(.string "path", .null), (.string "depth", .number (.int 2))])])
      (.mapping [(.string "schema",
        .mapping [(.string "dir", .null), (.string "strict", .bool true)]), (.string "owner", .null)]) := by
    decide +kernel
  have hterse : Reads terse
      (.mapping [(.string "sync", .mapping [(.string "depth", .number (.int 2))])])
      (.mapping [(.string "schema", .mapping [(.string "strict", .bool true)])]) := by
    decide +kernel
  have hprunes : Prunes vague terse none :=
    hvague.prunes hterse rfl rfl (.keep _ (.drop _ (.refl _)) (.refl _))
      (.keep _ (.drop _ (.refl _)) (.drop _ (.refl _)))
  have hregular : ∀ ls, layers vague none = .ok ls → ∀ l ∈ ls, Regular l := by
    intro ls hls
    cases hvague.layers_eq.symm.trans hls
    refine List.forall_mem_cons.2 ⟨⟨.inr ⟨_, rfl, by simp⟩, ?_⟩,
      List.forall_mem_singleton.2 ⟨.inr ⟨_, rfl, by simp⟩, ?_⟩⟩
    all_goals
      intro kc hkc x hx
      fin_cases hkc <;> cases hx
      exact .inr ⟨_, rfl, by simp⟩
  exact ⟨hprunes, hregular, by decide +kernel, (load_of_prunes hprunes).2 hregular⟩

/-- What has no mapping beneath keeps its nulls: the user's layer binds the section to a text. -/
theorem not_always_unset : ¬∀ (around around' : Surroundings) (explicit : Option String),
    Prunes around around' explicit →
      ∀ s, load around explicit = .ok s ↔ load around' explicit = .ok s := by
  intro h
  have hwith : Reads (siteOf "active: db\n" "active:\n  path: ~\n")
      (.mapping [(.string "active", .string "db")])
      (.mapping [(.string "active", .mapping [(.string "path", .null)])]) := by decide +kernel
  have hwithout : Reads (siteOf "active: db\n" "active: {}\n")
      (.mapping [(.string "active", .string "db")])
      (.mapping [(.string "active", .mapping [])]) := by decide +kernel
  have hiff := h _ _ none (hwith.prunes hwithout rfl rfl (.refl _) (.keep _ (.drop _ (.refl _)) (.refl _)))
  have hloads : (load (siteOf "active: db\n" "active: {}\n") none).isOk = true := by decide +kernel
  have hfails : (load (siteOf "active: db\n" "active:\n  path: ~\n") none).isOk = false := by
    decide +kernel
  cases hload : load (siteOf "active: db\n" "active: {}\n") none with
  | error e =>
    rw [hload] at hloads
    cases hloads
  | ok s =>
    rw [(hiff s).2 hload] at hfails
    cases hfails

end Settings

end SiteConfig
