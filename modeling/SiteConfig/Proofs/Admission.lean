import Mathlib
import SiteConfig.Proofs.Coverage
import SiteConfig.Proofs.Rules
import SiteConfig.Schema.Embedded

/-!
# What every document may carry

An object schema that does not speak of an identifier, a language, a section of its own or dependencies
allows a document to carry them all the same: a document that is accepted is still accepted once they have
been added, whatever else the schema requires or forbids, and it is only dependencies of the right shape
that are accepted (`SiteConfig.SchemaCatalog.problems_of_carriable`).
-/

namespace SiteConfig

open Yaml

namespace Yaml.Value

variable {v : Value} {j : Json} {ms : List (String × Json)} {K : List String}
  {P : String → Json → Prop} {Q : String → Value → Prop}

/-! ### Shapes -/

/-- A sequence of strings. -/
def Texts (v : Value) : Prop := ∃ items, v = .sequence items ∧ ∀ i ∈ items, ∃ s, i = .string s

/-- A mapping with some keys only. -/
def Keyed (K : List String) (Q : String → Value → Prop) (v : Value) : Prop :=
  ∃ m, v = .mapping m ∧ ∀ e ∈ m, ∃ k ∈ K, e.1 = .string k ∧ Q k e.2

/-- Lists of strings by the four keys. -/
def Lists : Value → Prop := Keyed Dependencies.listKeys fun _ => Texts

/-- **A section of dependencies**: lists of strings, and perhaps more of them that are enforced. -/
def IsDependencies : Value → Prop :=
  Keyed ("enforced" :: Dependencies.listKeys) fun k v => if k = "enforced" then v.Lists else v.Texts

theorem itemsToJson_eq_ok_iff {items : List Value} {js : List Json} :
    itemsToJson items = .ok js ↔ List.Forall₂ (fun v j => v.toJson = .ok j) items js := by
  induction items generalizing js with
  | nil => simp [itemsToJson, eq_comm]
  | cons v items ih =>
    simp only [itemsToJson, except_bind_eq_ok_iff, ih, pure, Except.pure, Except.ok.injEq]
    constructor
    · rintro ⟨j, hj, r, hr, rfl⟩
      exact .cons hj hr
    · intro h
      cases h with
      | cons hj hr => exact ⟨_, hj, _, hr, rfl⟩

/-- What becomes a string, an array or an object. -/
theorem toJson_inversion (h : v.toJson = .ok j) :
    match j with
    | .string s => v = .string s
    | .array js => ∃ items, v = .sequence items ∧ itemsToJson items = .ok js
    | .object ms => (∃ m l, v = .mapping m ∧ Mapping.Becomes m l ∧ ms = Json.collect l) ∨
        ∃ tag w k, v = .tagged tag w ∧ ms = [("!" ++ tag, k)]
    | _ => True := by
  cases v with
  | number n =>
    cases n with
    | int i =>
      cases h
      trivial
    | float x =>
      rw [toJson] at h
      split at h <;> cases h <;> trivial
  | sequence items =>
    rw [toJson, except_bind_eq_ok_iff] at h
    obtain ⟨js, hjs, h⟩ := h
    cases h
    exact ⟨items, rfl, hjs⟩
  | mapping m =>
    obtain ⟨l, hl, rfl⟩ := Mapping.toJson_mapping_eq_ok_iff.1 h
    exact .inl ⟨m, l, rfl, hl, rfl⟩
  | tagged tag w =>
    rw [toJson, except_bind_eq_ok_iff] at h
    obtain ⟨k, -, h⟩ := h
    cases h
    exact .inr ⟨tag, w, k, rfl, rfl⟩
  | _ =>
    cases h
    trivial

/-- A sequence of strings becomes a list of strings. -/
theorem Texts.exists_isTexts (h : v.Texts) : ∃ j, v.toJson = .ok j ∧ j.IsTexts := by
  obtain ⟨items, rfl, hitems⟩ := h
  have hjs : ∃ js, itemsToJson items = .ok js ∧ ∀ j ∈ js, ∃ s, j = .string s := by
    simp only [itemsToJson_eq_ok_iff]
    induction items with
    | nil => exact ⟨[], .nil, nofun⟩
    | cons v items ih =>
      obtain ⟨⟨s, rfl⟩, hrest⟩ := List.forall_mem_cons.1 hitems
      obtain ⟨js, hjs, hall⟩ := ih hrest
      exact ⟨.string s :: js, .cons rfl hjs, List.forall_mem_cons.2 ⟨⟨s, rfl⟩, hall⟩⟩
  obtain ⟨js, hjs, hall⟩ := hjs
  exact ⟨.array js, by rw [toJson, hjs]; rfl, js, rfl, hall⟩

/-- **Only sequences of strings** become lists of strings. -/
theorem texts_of_isTexts (h : v.toJson = .ok j) (hj : j.IsTexts) : v.Texts := by
  obtain ⟨js, rfl, hall⟩ := hj
  obtain ⟨items, rfl, hjs⟩ := toJson_inversion h
  refine ⟨items, rfl, ?_⟩
  rw [itemsToJson_eq_ok_iff] at hjs
  clear h
  induction hjs with
  | nil => nofun
  | cons hw _ ih =>
    obtain ⟨⟨s, rfl⟩, hrest⟩ := List.forall_mem_cons.1 hall
    exact List.forall_mem_cons.2 ⟨⟨s, toJson_inversion hw⟩, ih hrest⟩

/-- A mapping with some keys becomes an object with these. -/
theorem Keyed.exists_object (hP : ∀ k w, Q k w → ∃ j, w.toJson = .ok j ∧ P k j) (h : v.Keyed K Q) :
    ∃ ms, v.toJson = .ok (.object ms) ∧ ∀ x ∈ ms, x.1 ∈ K ∧ P x.1 x.2 := by
  obtain ⟨m, rfl, hm⟩ := h
  have hbecomes : ∃ l, Mapping.Becomes m l ∧ ∀ x ∈ l, x.1 ∈ K ∧ P x.1 x.2 := by
    induction m with
    | nil => exact ⟨[], .nil, nofun⟩
    | cons e m ih =>
      obtain ⟨⟨k, hk, hkey, hvalue⟩, hm⟩ := List.forall_mem_cons.1 hm
      obtain ⟨l, hl, hall⟩ := ih hm
      obtain ⟨j, hj, hPj⟩ := hP k e.2 hvalue
      exact ⟨(k, j) :: l, .cons ⟨by rw [hkey]; rfl, hj⟩ hl, List.forall_mem_cons.2 ⟨⟨hk, hPj⟩, hall⟩⟩
  obtain ⟨l, hl, hall⟩ := hbecomes
  refine ⟨Json.collect l, Mapping.toJson_mapping_eq_ok_iff.2 ⟨l, hl, rfl⟩, fun x hx => ?_⟩
  exact hall x (Json.mem_of_member? (((Json.mem_collect_iff l).2 x.1 x.2).1 hx))

/-- **Only mappings with some keys** become objects with these, as long as the keys are words. -/
theorem keyed_of_object (hK : ∀ k ∈ K, Json.isWord k = true ∧ k.toList.head? ≠ some '!')
    (hQ : ∀ k w j, w.Proper → w.toJson = .ok j → P k j → Q k w) (pv : v.Proper)
    (h : v.toJson = .ok (.object ms)) (hms : ∀ x ∈ ms, x.1 ∈ K ∧ P x.1 x.2) : v.Keyed K Q := by
  obtain ⟨m, l, rfl, hl, rfl⟩ | ⟨tag, w, k, rfl, rfl⟩ := toJson_inversion h
  · refine ⟨m, rfl, fun e he => ?_⟩
    obtain ⟨x, hx, hkey, -⟩ := hl.exists_member he
    obtain ⟨j, hj⟩ := Json.exists_member?_of_mem hx
    obtain ⟨hin, hP⟩ := hms (x.1, j) (((Json.mem_collect_iff l).2 x.1 j).2 hj)
    have hstring := eq_string_of_keyText hkey (hK _ hin).1
    have hentry : (.string x.1, e.2) ∈ m := by
      rw [← hstring]
      exact he
    have hvalue := hl.toJson_of_member? pv (hK _ hin).1 hj hentry
    exact ⟨x.1, hin, hstring, hQ _ _ _ ((proper_mapping_iff.1 pv).2 e he).2 hvalue hP⟩
  · -- the name of the only member begins with an exclamation mark
    obtain ⟨hin, -⟩ := hms _ List.mem_cons_self
    exact absurd (by simp) (hK _ hin).2

theorem Lists.exists_isLists (h : v.Lists) : ∃ j, v.toJson = .ok j ∧ j.IsLists := by
  obtain ⟨ms, hms, hall⟩ :=
    h.exists_object (P := fun _ j => j.IsTexts) fun _ _ hw => hw.exists_isTexts
  exact ⟨_, hms, ms, rfl, hall⟩

theorem lists_of_isLists (pv : v.Proper) (h : v.toJson = .ok j) (hj : j.IsLists) : v.Lists := by
  obtain ⟨ms, rfl, hms⟩ := hj
  exact keyed_of_object (by decide) (fun _ _ _ _ hw hj => texts_of_isTexts hw hj) pv h hms

/-- **Dependencies of the right shape** are what the schema of dependencies allows. -/
theorem IsDependencies.exists_violations (h : v.IsDependencies) :
    ∃ j, v.toJson = .ok j ∧ ∀ place, Schema.violations place j Schema.dependencies = [] := by
  obtain ⟨ms, hms, hall⟩ := h.exists_object
    (P := fun k j => if k = "enforced" then j.IsLists else j.IsTexts) fun k w hw => by
      split at hw
      · rename_i hk
        simp only [if_pos hk]
        exact hw.exists_isLists
      · rename_i hk
        simp only [if_neg hk]
        exact hw.exists_isTexts
  exact ⟨_, hms, fun _ => Schema.violations_dependencies_iff.2 ⟨ms, rfl, hall⟩⟩

theorem isDependencies_of_violations (pv : v.Proper) (h : v.toJson = .ok j) {place : List String}
    (hj : Schema.violations place j Schema.dependencies = []) : v.IsDependencies := by
  obtain ⟨ms, rfl, hms⟩ := Schema.violations_dependencies_iff.1 hj
  refine keyed_of_object (P := fun k j => if k = "enforced" then j.IsLists else j.IsTexts)
    (by decide) (fun k w j pw hw hj => ?_) pv h hms
  split at hj
  · rename_i hk
    rw [if_pos hk]
    exact lists_of_isLists pw hw hj
  · rename_i hk
    rw [if_neg hk]
    exact texts_of_isTexts hw hj

end Yaml.Value

/-! ### Documents -/

/-- What a document may carry whatever it is. -/
inductive Carriable : String → Value → Prop
  | uuid (s : String) : Carriable Document.uuidKey (.string s)
  | langcode (s : String) : Carriable "langcode" (.string s)
  | core {m : Mapping} {j : Json} : (Value.mapping m).toJson = .ok j → Carriable "_core" (.mapping m)
  | dependencies {v : Value} : v.IsDependencies → Carriable Document.dependenciesKey v

/-- The document with some keys bound, one after the other. -/
def Document.setAll (d : Document) (extra : List (String × Value)) : Document :=
  extra.foldl (fun d e => d.set e.1 e.2) d

variable {name key : String} {source : Json} {s : NamedSchema} {c : SchemaCatalog} {d : Document}
  {v : Value}

/-- The schema of what every document may carry allows it. -/
theorem Carriable.exists_schema (h : Carriable key v) : Json.isWord key = true ∧ key ≠ Document.schemaKey ∧
    ∃ j x schema, v.toJson = .ok j ∧ Schema.baseMembers.find? (·.1 == key) = some x ∧
      Schema.ofJson x.2 = .ok schema ∧ ∀ place, Schema.violations place j schema = [] := by
  cases h with
  | uuid t => exact ⟨by decide, by decide, .string t, _, _, rfl, rfl, Schema.ofJson_typed .string,
      fun _ => Schema.violations_string_iff.2 ⟨t, rfl⟩⟩
  | langcode t => exact ⟨by decide, by decide, .string t, _, _, rfl, rfl, Schema.ofJson_typed .string,
      fun _ => Schema.violations_string_iff.2 ⟨t, rfl⟩⟩
  | core hj =>
    obtain ⟨l, -, rfl⟩ := Mapping.toJson_mapping_eq_ok_iff.1 hj
    exact ⟨by decide, by decide, _, _, _, hj, rfl, Schema.ofJson_typed .object,
      fun place => Schema.violations_ofType_object place _⟩
  | dependencies hv =>
    obtain ⟨j, hj, hviolations⟩ := hv.exists_violations
    exact ⟨by decide, by decide, j, _, _, hj, rfl, Schema.ofJson_dependencies, hviolations⟩

namespace NamedSchema

/-- **A document is accepted** when its members are. -/
theorem judge_eq_nil_iff : s.judge d = [] ↔ ∃ l, Mapping.Becomes d.data l ∧
    Schema.violations [] (.object (Json.collect l)) s.schema = [] := by
  rw [judge]
  cases hd : d.toJson with
  | error e =>
    refine iff_of_false (List.cons_ne_nil _ _) ?_
    rintro ⟨l, hl, -⟩
    rw [Document.toJson, Mapping.toJson_mapping_eq_ok_iff.2 ⟨l, hl, rfl⟩] at hd
    cases hd
  | ok j =>
    obtain ⟨l, hl, rfl⟩ :=
      Mapping.toJson_mapping_eq_ok_iff.1 (except_mapError_eq_ok_iff.1 hd)
    rw [List.map_eq_nil_iff]
    refine ⟨fun h => ⟨l, hl, h⟩, ?_⟩
    rintro ⟨l', hl', h⟩
    cases (Mapping.entriesToJson_eq_ok_iff.2 hl).symm.trans (Mapping.entriesToJson_eq_ok_iff.2 hl')
    exact h

/-- **What every document may carry can be added** to a document that is accepted. -/
theorem judge_set (hs : ofJson name source = .ok s) (hsource : source.ObjectSchema)
    (hkey : ¬source.Declares key) (hv : Carriable key v) (hd : s.judge d = []) :
    s.judge (d.set key v) = [] := by
  obtain ⟨ps, minimum, required, others, items, hschema, hlisted⟩ :=
    Schema.exists_rules hsource (ofJson_eq_ok_iff.1 hs).2.2
  obtain ⟨hword, -, j, x, schema, hj, hx, hread, hallowed⟩ := hv.exists_schema
  obtain ⟨schema', hread', hfound⟩ := hlisted key hkey x hx
  cases hread.symm.trans hread'
  obtain ⟨l, hl, hd⟩ := judge_eq_nil_iff.1 hd
  rw [hschema, Schema.violations_object_iff] at hd
  obtain ⟨hrequired, hallows⟩ := hd
  obtain ⟨l', hl', hmember⟩ := hl.set hword hj
  have hold := (Json.mem_collect_iff l).2
  have hnew := (Json.mem_collect_iff l').2
  refine judge_eq_nil_iff.2 ⟨l', hl', ?_⟩
  rw [hschema, Schema.violations_object_iff]
  refine ⟨fun k hk => ?_, fun y hy => ?_⟩
  · -- no member has gone
    obtain ⟨y, hy, rfl⟩ := hrequired k hk
    have hy' := hmember y.1
    rw [(hold y.1 y.2).1 hy] at hy'
    by_cases hykey : y.1 = key
    · rw [if_pos hykey] at hy'
      exact ⟨(y.1, j), (hnew _ _).2 hy', rfl⟩
    · rw [if_neg hykey] at hy'
      exact ⟨(y.1, y.2), (hnew _ _).2 hy', rfl⟩
  · -- every member is an old one, or the new one
    have hy' := (hnew y.1 y.2).1 hy
    rw [hmember] at hy'
    by_cases hykey : y.1 = key
    · rw [if_pos hykey] at hy'
      rw [Schema.Allows, hykey, hfound, ← Option.some_inj.1 hy']
      exact hallowed _
    · rw [if_neg hykey] at hy'
      exact hallows y ((hold y.1 y.2).2 hy')

/-- **Dependencies of another shape** are not accepted. -/
theorem isDependencies_of_judge (hs : ofJson name source = .ok s) (hsource : source.ObjectSchema)
    (hkey : ¬source.Declares Document.dependenciesKey) (pd : (Value.mapping d.data).Proper)
    (hv : d.get? Document.dependenciesKey = some v) (hd : s.judge d = []) : v.IsDependencies := by
  obtain ⟨ps, minimum, required, others, items, hschema, hlisted⟩ :=
    Schema.exists_rules hsource (ofJson_eq_ok_iff.1 hs).2.2
  obtain ⟨schema, hread, hfound⟩ := hlisted Document.dependenciesKey hkey _ rfl
  cases Schema.ofJson_dependencies.symm.trans hread
  obtain ⟨l, hl, hd⟩ := judge_eq_nil_iff.1 hd
  rw [hschema, Schema.violations_object_iff] at hd
  have hentry := (Mapping.get?_eq_some_iff pd).1 hv
  obtain ⟨x, hx, hkeyText, -⟩ := hl.exists_member hentry
  have hxkey : Document.dependenciesKey = x.1 := Except.ok.inj hkeyText
  obtain ⟨j, hj⟩ := Json.exists_member?_of_mem hx
  rw [← hxkey] at hj
  have hallows := hd.2 _ (((Json.mem_collect_iff l).2 _ j).2 hj)
  rw [Schema.Allows] at hallows
  simp only [hfound] at hallows
  refine Value.isDependencies_of_violations ((Value.proper_mapping_iff.1 pd).2 _ hentry).2
    (hl.toJson_of_member? pd (by decide) hj hentry) hallows

end NamedSchema

/-! ### Documents and their schemas -/

/-- Binding a key leaves the others. -/
theorem Yaml.Mapping.get?_set_of_ne {m : Mapping} {k : String} (h : k ≠ key) (v : Value) :
    Mapping.get? (m.set key v) k = m.get? k := by
  have hno : ∀ e : Value × Value, Mapping.hasKey key e = true → Mapping.hasKey k e = false := by
    intro e he
    rw [Bool.eq_false_iff]
    intro hk
    cases (Mapping.hasKey_iff.1 hk).symm.trans (Mapping.hasKey_iff.1 he)
    exact h rfl
  rw [Mapping.set]
  split
  · have hcomp : (Mapping.hasKey k ∘ fun e => if Mapping.hasKey key e then (e.1, v) else e)
        = Mapping.hasKey k := by
      funext e
      rw [Function.comp_apply]
      split <;> rfl
    rw [Mapping.get?, Mapping.get?, List.find?_map, hcomp]
    cases hfind : List.find? (Mapping.hasKey k) m with
    | none => rfl
    | some e =>
      have hk : Mapping.hasKey k e = true := List.find?_some hfind
      have hkey : Mapping.hasKey key e ≠ true := fun he => by
        rw [hno e he] at hk
        cases hk
      rw [Option.map_some, if_neg hkey]
  · rw [Mapping.get?, Mapping.get?, List.find?_append,
      List.find?_singleton, hno (.string key, v) (by simp [Mapping.hasKey]),
      if_neg Bool.false_ne_true, Option.or_none]

namespace SchemaCatalog

/-- The schema that a document is held to: it declares it, or declares none and is covered by it. -/
def Holds (c : SchemaCatalog) (d : Document) (s : NamedSchema) : Prop :=
  c.find? s.name = some s ∧
    (d.schemaName? = some s.name ∨ d.schemaName? = none ∧ c.schemaFor? d.name = some s)

theorem Holds.problems_eq (h : c.Holds d s) : c.problems d = s.judge d := by
  obtain ⟨hfind, hdeclared | ⟨hnone, hcovered⟩⟩ := h
  · rw [problems, hdeclared]
    simp only [hfind, Option.isSome_some, if_true]
    exact violationsUnder_eq hfind d
  · rw [problems, hnone]
    simp only [hcovered]
    exact violationsUnder_eq hfind d

theorem Holds.set (h : c.Holds d s) (hkey : key ≠ Document.schemaKey) (v : Value) :
    c.Holds (d.set key v) s := by
  have hname : (d.set key v).schemaName? = d.schemaName? := by
    rw [Document.schemaName?, Document.schemaName?, Document.get?, Document.get?, Document.set,
      Mapping.get?_set_of_ne (Ne.symm hkey)]
  rw [Holds, hname]
  exact h

/-- **Every document may carry what is common to all.** A document that is accepted by an object schema is
still accepted once an identifier, a language, a section of its own or dependencies have been added
that the schema does not declare; and it is not accepted with dependencies of another shape. -/
theorem problems_of_carriable (hs : NamedSchema.ofJson name source = .ok s)
    (hsource : source.ObjectSchema) (hheld : c.Holds d s) :
    (∀ extra : List (String × Value), (∀ e ∈ extra, ¬source.Declares e.1 ∧ Carriable e.1 e.2) →
      c.problems d = [] → c.problems (d.setAll extra) = []) ∧
    (¬source.Declares Document.dependenciesKey → (Value.mapping d.data).Proper →
      ∀ v, d.get? Document.dependenciesKey = some v → ¬v.IsDependencies → c.problems d ≠ []) := by
  constructor
  · intro extra hextra haccepted
    induction extra generalizing d with
    | nil => exact haccepted
    | cons e extra ih =>
      obtain ⟨⟨hkey, hcarriable⟩, hextra⟩ := List.forall_mem_cons.1 hextra
      rw [hheld.problems_eq] at haccepted
      have hheld' := hheld.set hcarriable.exists_schema.2.1 e.2
      exact ih hheld' hextra
        (hheld'.problems_eq.trans (NamedSchema.judge_set hs hsource hkey hcarriable haccepted))
  · intro hkey pd v hv hshape haccepted
    rw [hheld.problems_eq] at haccepted
    exact hshape (NamedSchema.isDependencies_of_judge hs hsource hkey pd hv haccepted)

/-- A menu. -/
def menu : Document :=
  ⟨"system.menu.main", [(.string "id", .string "main"), (.string "label", .string "Main")]⟩

/-- The menu with dependencies that are misspelt. -/
def misspelt : Document :=
  menu.set "dependencies" (.mapping [(.string "modules", .sequence [.string "system"])])

/-- What can be added to the menu. -/
def additions : List (String × Value) :=
  [("langcode", .string "en"), ("dependencies", .mapping
    [(.string "enforced", .mapping [(.string "module", .sequence [.string "menu_ui"])])])]

theorem not_declares_menuSchema :
    ∀ key ∈ ["langcode", "dependencies"], ¬menuSchema.Declares key := by
  rintro key hkey ⟨listed, hlisted, x, hx, rfl⟩
  cases hlisted
  revert hkey
  fin_cases hx <;> decide

theorem problems_of_carriable_menu : ∃ (s : NamedSchema) (c : SchemaCatalog),
    NamedSchema.ofJson "system.menu" menuSchema = .ok s ∧ menuSchema.ObjectSchema ∧
      c.Holds menu s ∧ c.Holds misspelt s ∧ c.problems (menu.setAll additions) = [] ∧
        c.problems misspelt ≠ [] := by
  have hread : (NamedSchema.ofJson "system.menu" menuSchema).toOption.map (fun s =>
      (((mk [s] false).schemaFor? menu.name).isSome, ((mk [s] false).problems menu).length)) =
      some (true, 0) := by decide +kernel
  cases hs : NamedSchema.ofJson "system.menu" menuSchema with
  | error e =>
    rw [hs] at hread
    cases hread
  | ok s =>
    rw [hs] at hread
    obtain ⟨hcovered, haccepted⟩ := Prod.mk.inj (Option.some_inj.1 hread)
    have hsource : menuSchema.ObjectSchema := ⟨rfl, rfl⟩
    have hfor : (mk [s] false).schemaFor? menu.name = some s := by
      rcases (mk [s] false).schemaFor?_cases menu.name with ⟨t, ht, hin, -⟩ | ⟨hnone, -⟩
      · rw [ht, List.mem_singleton.1 hin]
      · rw [hnone] at hcovered
        cases hcovered
    have hheld : ∀ d : Document, d.name = menu.name → d.schemaName? = none →
        (mk [s] false).Holds d s := fun d hname hnone =>
      ⟨by simp [find?], .inr ⟨hnone, hname ▸ hfor⟩⟩
    have hmenu := hheld menu rfl rfl
    have hmisspelt := hheld misspelt rfl rfl
    refine ⟨s, mk [s] false, rfl, hsource, hmenu, hmisspelt, ?_, ?_⟩
    · refine (problems_of_carriable hs hsource hmenu).1 additions ?_ (List.length_eq_zero_iff.1 haccepted)
      refine List.forall_mem_cons.2 ⟨⟨not_declares_menuSchema _ (by decide), .langcode "en"⟩,
        List.forall_mem_singleton.2 ⟨not_declares_menuSchema _ (by decide), .dependencies ?_⟩⟩
      exact ⟨_, rfl, List.forall_mem_singleton.2 ⟨"enforced", by decide, rfl, _, rfl,
        List.forall_mem_singleton.2 ⟨"module", by decide, rfl, _, rfl,
          List.forall_mem_singleton.2 ⟨"menu_ui", rfl⟩⟩⟩⟩
    · refine (problems_of_carriable hs hsource hmisspelt).2 (not_declares_menuSchema _ (by decide)) ?_
        (.mapping [(.string "modules", .sequence [.string "system"])]) rfl ?_
      · simp [misspelt, menu, Document.set, Mapping.set, Mapping.hasKey, Value.Proper,
          Value.ProperEntries, Value.ProperItems, Mapping.hasDuplicate, Value.same]
      · rintro ⟨m, heq, hm⟩
        cases heq
        obtain ⟨k, hk, hkey, -⟩ := hm _ List.mem_cons_self
        cases hkey
        exact absurd hk (by decide)

end SchemaCatalog

end SiteConfig
