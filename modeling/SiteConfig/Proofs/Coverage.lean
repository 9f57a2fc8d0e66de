import Mathlib
import SiteConfig.Proofs.NameMap
import SiteConfig.Proofs.Outcome
import SiteConfig.Schema.Catalog

/-!
# Which schema counts

A catalog of schemas with different names holds every document to at most one schema: the one that the
document declares, and for a document that declares none the one that covers it
(`SiteConfig.SchemaCatalog.Covers`). Since schemas are kept in the order of their names, it does not matter
in which order they were given (`SiteConfig.SchemaCatalog.ofSchemas_perm`), although two patterns with
literal beginnings of one length may match the same document.
-/

namespace SiteConfig

/-! ### One schema -/

namespace NamedSchema

variable {name : String} {source : Json} {s : NamedSchema}

/-- **What is wrong with a document under one schema.** -/
def judge (s : NamedSchema) (d : Document) : List SchemaProblem :=
  match d.toJson with
  | .error e => [.noJson e]
  | .ok v => (s.schema.violations [] v).map (.violation d.name)

theorem ofJson_eq_ok_iff : ofJson name source = .ok s ↔ s.name = name ∧
    coverageOf name source.sorted = .ok s.coverage ∧
      Schema.ofJson (Schema.withBaseMembers source.sorted) = .ok s.schema := by
  rw [ofJson, except_bind_eq_ok_iff]
  cases hschema : Schema.ofJson (Schema.withBaseMembers source.sorted) with
  | error e => simp [throw, throwThe, MonadExceptOf.throw]
  | ok schema =>
    simp only [pure, Except.pure, Except.ok.injEq]
    constructor
    · rintro ⟨coverage, hcoverage, rfl⟩
      exact ⟨rfl, hcoverage, rfl⟩
    · rintro ⟨rfl, hcoverage, rfl⟩
      exact ⟨s.coverage, hcoverage, rfl⟩

/-- A schema of a single document is named after it. -/
theorem name_of_exact {n : String} (h : ofJson name source = .ok s) (hexact : s.coverage = .exact n) :
    s.name = n := by
  obtain ⟨hname, hcoverage, -⟩ := ofJson_eq_ok_iff.1 h
  rw [hexact, coverageOf] at hcoverage
  split at hcoverage
  · cases hcoverage
    exact hname
  · split at hcoverage <;> cases hcoverage

end NamedSchema

namespace SchemaCatalog

variable {c : SchemaCatalog} {n : String} {s t : NamedSchema} {d : Document}

/-! ### Looking a schema up -/

/-- The schemas have different names and stand in their order. -/
def Ordered (c : SchemaCatalog) : Prop := c.names.Pairwise (· < ·)

theorem Ordered.find?_eq_some_iff (h : c.Ordered) :
    c.find? n = some s ↔ s ∈ c.schemas ∧ s.name = n := by
  constructor
  · intro hs
    exact ⟨List.mem_of_find?_eq_some hs, by simpa using List.find?_some hs⟩
  · rintro ⟨hs, rfl⟩
    cases ht : c.find? s.name with
    | none => exact absurd (List.find?_eq_none.1 ht s hs) (by simp)
    | some t =>
      have hname : t.name = s.name := by simpa using List.find?_some ht
      rw [List.inj_on_of_nodup_map (NameMap.nodup_of_sorted h) (List.mem_of_find?_eq_some ht) hs hname]

theorem find?_eq_none_iff : c.find? n = none ↔ n ∉ c.names := by
  simp [find?, names, List.find?_eq_none]

theorem violationsUnder_eq (h : c.find? n = some s) (d : Document) :
    c.violationsUnder d n = s.judge d := by
  rw [violationsUnder, NamedSchema.judge]
  cases d.toJson with
  | error e => rfl
  | ok v => simp only [h]

/-! ### The schema that covers a document -/

/-- **The schema that covers a document**: that of its name or, if there is none, one whose pattern
matches it and none of whose rivals has a longer literal beginning. -/
def Covers (c : SchemaCatalog) (n : String) (s : NamedSchema) : Prop :=
  s ∈ c.schemas ∧ (s.coverage = .exact n ∨ (∀ t ∈ c.schemas, t.coverage ≠ .exact n) ∧
    ∃ glob k, s.coverage = .pattern glob k ∧ glob.matchesName n = true ∧
      ∀ t ∈ c.schemas, ∀ glob' k', t.coverage = .pattern glob' k' → glob'.matchesName n = true →
        k' ≤ k)

/-- No schema covers the document. -/
def Uncovered (c : SchemaCatalog) (n : String) : Prop :=
  ∀ s ∈ c.schemas, s.coverage ≠ .exact n ∧
    ∀ glob k, s.coverage = .pattern glob k → glob.matchesName n = false

theorem coversExactly_iff : s.coversExactly n = true ↔ s.coverage = .exact n := by
  rw [NamedSchema.coversExactly]
  cases s.coverage <;> simp

theorem patternLength?_eq_some_iff {k : Nat} : s.patternLength? n = some k ↔
    ∃ glob, s.coverage = .pattern glob k ∧ glob.matchesName n = true := by
  rw [NamedSchema.patternLength?]
  cases s.coverage with
  | exact => simp
  | pattern glob k' =>
    by_cases hmatch : glob.matchesName n = true
    · simp [hmatch]
    · simp [hmatch]

/-- The one with the longest literal beginning is kept. -/
theorem exists_foldl_longer (l : List (NamedSchema × Nat)) (b : NamedSchema × Nat) :
    ∃ m ∈ b :: l, l.foldl longer (some b) = some m ∧ ∀ a ∈ b :: l, a.2 ≤ m.2 := by
  induction l generalizing b with
  | nil => exact ⟨b, List.mem_cons_self, rfl, by simp⟩
  | cons a l ih =>
    rw [List.foldl_cons, longer]
    by_cases hle : b.2 ≤ a.2
    · obtain ⟨m, hm, hfold, hmax⟩ := ih a
      rw [if_pos hle]
      refine ⟨m, List.mem_cons_of_mem b hm, hfold, List.forall_mem_cons.2 ⟨?_, hmax⟩⟩
      exact hle.trans (hmax a List.mem_cons_self)
    · obtain ⟨m, hm, hfold, hmax⟩ := ih b
      obtain ⟨hb, hmax⟩ := List.forall_mem_cons.1 hmax
      rw [if_neg hle]
      refine ⟨m, ?_, hfold, List.forall_mem_cons.2 ⟨hb, List.forall_mem_cons.2 ⟨?_, hmax⟩⟩⟩
      · rcases List.mem_cons.1 hm with rfl | hm
        · exact List.mem_cons_self
        · exact List.mem_cons_of_mem b (List.mem_cons_of_mem a hm)
      · exact (Nat.le_of_not_le hle).trans hb

/-- The schemas whose patterns match, with their literal beginnings. -/
theorem mem_covering_iff {k : Nat} : (s, k) ∈ c.schemas.filterMap
    (fun s => (s.patternLength? n).map (s, ·)) ↔ s ∈ c.schemas ∧ s.patternLength? n = some k := by
  simp only [List.mem_filterMap, Option.map_eq_some_iff, Prod.mk.injEq]
  constructor
  · rintro ⟨t, ht, k', hk', rfl, rfl⟩
    exact ⟨ht, hk'⟩
  · rintro ⟨hs, hk⟩
    exact ⟨s, hs, k, hk, rfl, rfl⟩

/-- **The best pattern** is one that matches, with the longest literal beginning. -/
theorem bestPattern?_cases (c : SchemaCatalog) (n : String) :
    (∃ s ∈ c.schemas, c.bestPattern? n = some s ∧ ∃ k, s.patternLength? n = some k ∧
      ∀ t ∈ c.schemas, ∀ k', t.patternLength? n = some k' → k' ≤ k) ∨
    c.bestPattern? n = none ∧ ∀ s ∈ c.schemas, s.patternLength? n = none := by
  rw [bestPattern?]
  have hmem := @mem_covering_iff c n
  generalize c.schemas.filterMap (fun s => (s.patternLength? n).map (s, ·)) = covering at hmem ⊢
  cases covering with
  | nil =>
    refine .inr ⟨rfl, fun s hs => ?_⟩
    by_contra hne
    obtain ⟨k, hk⟩ := Option.ne_none_iff_exists'.1 hne
    cases hmem.2 ⟨hs, hk⟩
  | cons b l =>
    obtain ⟨⟨s, k⟩, hs, hfold, hmax⟩ := exists_foldl_longer l b
    obtain ⟨hin, hk⟩ := hmem.1 hs
    have hbest : (b :: l).foldl longer none = some (s, k) := hfold
    refine .inl ⟨s, hin, by rw [hbest]; rfl, k, hk, fun t ht k' hk' => ?_⟩
    exact hmax (t, k') (hmem.2 ⟨ht, hk'⟩)

/-- **What covers a document is found**, and what is found covers it. -/
theorem schemaFor?_cases (c : SchemaCatalog) (n : String) :
    (∃ s, c.schemaFor? n = some s ∧ c.Covers n s) ∨ c.schemaFor? n = none ∧ c.Uncovered n := by
  rw [schemaFor?]
  cases hexact : c.schemas.find? (·.coversExactly n) with
  | some s =>
    have hs : s.coversExactly n = true := by simpa using List.find?_some hexact
    exact .inl ⟨s, rfl, List.mem_of_find?_eq_some hexact, .inl (coversExactly_iff.1 hs)⟩
  | none =>
    have hno : ∀ t ∈ c.schemas, t.coverage ≠ .exact n := fun t ht h =>
      List.find?_eq_none.1 hexact t ht (coversExactly_iff.2 h)
    rcases c.bestPattern?_cases n with ⟨s, hs, hbest, k, hk, hmax⟩ | ⟨hbest, hnone⟩
    · obtain ⟨glob, hcoverage, hmatch⟩ := patternLength?_eq_some_iff.1 hk
      refine .inl ⟨s, hbest, hs, .inr ⟨hno, glob, k, hcoverage, hmatch, ?_⟩⟩
      exact fun t ht glob' k' ht' hmatch' =>
        hmax t ht k' (patternLength?_eq_some_iff.2 ⟨glob', ht', hmatch'⟩)
    · refine .inr ⟨hbest, fun s hs => ⟨hno s hs, fun glob k hcoverage => ?_⟩⟩
      by_contra hmatch
      have hk := patternLength?_eq_some_iff.2 ⟨glob, hcoverage, Bool.eq_true_of_not_eq_false hmatch⟩
      rw [hnone s hs] at hk
      cases hk

/-! ### The catalog of some sources -/

/-- Sources that can all be compiled give their schemas one by one. -/
theorem forall₂_of_mapM {α β ε : Type} {f : α → Except ε β} {l : List α} {r : List β} :
    l.mapM f = .ok r ↔ List.Forall₂ (fun a b => f a = .ok b) l r := by
  induction l generalizing r with
  | nil => simp [pure, Except.pure, eq_comm]
  | cons a l ih =>
    simp only [List.mapM_cons, except_bind_eq_ok_iff, ih, pure, Except.pure, Except.ok.injEq]
    constructor
    · rintro ⟨b, hb, r', hr', rfl⟩
      exact .cons hb hr'
    · intro h
      cases h with
      | cons hb hr' => exact ⟨_, hb, _, hr', rfl⟩

variable {sources sources' : List (String × Json)}

theorem ofSchemas_eq_ok_iff : ofSchemas sources = .ok c ↔ ∃ schemas,
    List.Forall₂ (fun src s => NamedSchema.ofJson src.1 src.2 = .ok s) sources schemas ∧
      c = ⟨schemas.mergeSort fun a b => !(b.name < a.name : Bool), false⟩ := by
  rw [ofSchemas, except_bind_eq_ok_iff]
  simp only [forall₂_of_mapM, pure, Except.pure, Except.ok.injEq, eq_comm (b := c)]

theorem not_lt_name_iff (a b : NamedSchema) :
    (!(b.name < a.name : Bool)) = true ↔ a.name ≤ b.name := by
  rw [Bool.not_eq_true', decide_eq_false_iff_not, not_lt]

/-- Sorting schemas puts their names in order. -/
theorem names_mergeSort (schemas : List NamedSchema) :
    ((schemas.mergeSort fun a b => !(b.name < a.name : Bool)).map (·.name)).Pairwise (· ≤ ·) := by
  have htrans : ∀ a b c : NamedSchema, (!(b.name < a.name : Bool)) = true →
      (!(c.name < b.name : Bool)) = true → (!(c.name < a.name : Bool)) = true := by
    simp only [not_lt_name_iff]
    exact fun a b c => le_trans
  have htotal : ∀ a b : NamedSchema,
      ((!(b.name < a.name : Bool)) || !(a.name < b.name : Bool)) = true := by
    simp only [Bool.or_eq_true, not_lt_name_iff]
    exact fun a b => le_total a.name b.name
  have hsorted := List.pairwise_mergeSort htrans htotal schemas
  exact List.pairwise_map.2 (hsorted.imp fun hab => (not_lt_name_iff _ _).1 hab)

/-- Compiled schemas have the names of their sources. -/
theorem map_name_of_forall₂ {schemas : List NamedSchema}
    (h : List.Forall₂ (fun src s => NamedSchema.ofJson src.1 src.2 = .ok s) sources schemas) :
    schemas.map (·.name) = sources.map (·.1) := by
  induction h with
  | nil => rfl
  | cons hs _ ih => rw [List.map_cons, List.map_cons, ih, (NamedSchema.ofJson_eq_ok_iff.1 hs).1]

theorem ordered_of_ofSchemas (hnodup : (sources.map (·.1)).Nodup) (h : ofSchemas sources = .ok c) :
    c.Ordered := by
  obtain ⟨schemas, hschemas, rfl⟩ := ofSchemas_eq_ok_iff.1 h
  have hperm := (List.mergeSort_perm schemas fun a b => !(b.name < a.name : Bool)).map (·.name)
  rw [map_name_of_forall₂ hschemas] at hperm
  exact ((names_mergeSort schemas).and (hperm.nodup_iff.2 hnodup)).imp fun h =>
    lt_of_le_of_ne h.1 h.2

theorem mem_schemas_iff (h : ofSchemas sources = .ok c) :
    s ∈ c.schemas ↔ ∃ src ∈ sources, NamedSchema.ofJson src.1 src.2 = .ok s := by
  obtain ⟨schemas, hschemas, rfl⟩ := ofSchemas_eq_ok_iff.1 h
  rw [List.mem_mergeSort]
  clear h
  induction hschemas with
  | nil => simp
  | @cons src t sources schemas ht _ ih =>
    rw [List.mem_cons, ih, List.exists_mem_cons_iff, ht, Except.ok.injEq, eq_comm]

/-- Sources that are in order already need no sorting. -/
theorem ofSchemas_of_sorted (hsorted : (sources.map (·.1)).Pairwise (· ≤ ·)) :
    ofSchemas sources =
      (sources.mapM fun src => NamedSchema.ofJson src.1 src.2).map (⟨·, false⟩) := by
  cases hschemas : sources.mapM fun src => NamedSchema.ofJson src.1 src.2 with
  | error e =>
    rw [ofSchemas, hschemas]
    rfl
  | ok schemas =>
    have hordered := hsorted
    rw [← map_name_of_forall₂ (forall₂_of_mapM.1 hschemas), List.pairwise_map] at hordered
    have hsort : (schemas.mergeSort fun a b => !(b.name < a.name : Bool)) = schemas :=
      List.mergeSort_of_pairwise (hordered.imp fun hle => (not_lt_name_iff _ _).2 hle)
    rw [ofSchemas, hschemas]
    exact congrArg (fun l => Except.ok (SchemaCatalog.mk l false)) hsort

/-- **The order of the sources does not matter.** -/
theorem ofSchemas_perm (hnodup : (sources.map (·.1)).Nodup) (h : ofSchemas sources = .ok c)
    (hperm : sources'.Perm sources) : ofSchemas sources' = .ok c := by
  have hordered := ordered_of_ofSchemas hnodup h
  obtain ⟨schemas, hschemas, rfl⟩ := ofSchemas_eq_ok_iff.1 h
  obtain ⟨schemas', hschemas', hperm'⟩ := List.perm_comp_forall₂ hperm hschemas
  have hc' : ofSchemas sources' =
      .ok ⟨schemas'.mergeSort fun a b => !(b.name < a.name : Bool), false⟩ :=
    ofSchemas_eq_ok_iff.2 ⟨schemas', hschemas', rfl⟩
  have hordered' := ordered_of_ofSchemas ((hperm.map (·.1)).nodup_iff.2 hnodup) hc'
  rw [hc']
  congr 2
  exact List.Perm.eq_of_pairwise (fun a b _ _ hab hba => absurd (lt_trans hab hba) (lt_irrefl _))
    (List.pairwise_map.1 hordered') (List.pairwise_map.1 hordered)
    ((List.mergeSort_perm _ _).trans (hperm'.trans (List.mergeSort_perm _ _).symm))

/-- **How a catalog holds documents to the schemas of some sources.** -/
structure Serves (c : SchemaCatalog) (sources : List (String × Json)) : Prop where
  ordered : c.Ordered
  names_iff : ∀ n, n ∈ c.names ↔ n ∈ sources.map (·.1)
  schemas_iff : ∀ s, s ∈ c.schemas ↔ ∃ src ∈ sources, NamedSchema.ofJson src.1 src.2 = .ok s
  single : ∀ s ∈ c.schemas, ∀ n, s.coverage = .exact n → s.name = n
  declared : ∀ strict d s, s ∈ c.schemas → d.schemaName? = some s.name →
    (c.withStrict strict).problems d = s.judge d
  unknown : ∀ strict d n, n ∉ c.names → d.schemaName? = some n →
    (c.withStrict strict).problems d = [.unknownSchema d.name n]
  covered : ∀ strict d s, d.schemaName? = none → c.schemaFor? d.name = some s →
    c.Covers d.name s ∧ (c.withStrict strict).problems d = s.judge d
  uncovered : ∀ strict d, d.schemaName? = none → c.schemaFor? d.name = none →
    c.Uncovered d.name ∧ (c.withStrict strict).problems d = if strict then [.uncovered d.name] else []

/-- **Every document is held to the schema that counts**, whatever the order of the sources. -/
theorem ofSchemas_serves (hnodup : (sources.map (·.1)).Nodup) (h : ofSchemas sources = .ok c) :
    c.Serves sources ∧ ∀ sources' : List (String × Json), sources'.Perm sources →
      ofSchemas sources' = .ok c := by
  have hordered := ordered_of_ofSchemas hnodup h
  refine ⟨⟨hordered, fun n => ?_, fun s => mem_schemas_iff h, fun s hs n hexact => ?_, ?_, ?_, ?_, ?_⟩,
    fun sources' hperm => ofSchemas_perm hnodup h hperm⟩
  · obtain ⟨schemas, hschemas, rfl⟩ := ofSchemas_eq_ok_iff.1 h
    rw [← map_name_of_forall₂ hschemas, names]
    exact ((List.mergeSort_perm schemas _).map (·.name)).mem_iff
  · obtain ⟨src, -, hsrc⟩ := (mem_schemas_iff h).1 hs
    exact NamedSchema.name_of_exact hsrc hexact
  · intro strict d s hs hdeclared
    have hfind : (c.withStrict strict).find? s.name = some s :=
      hordered.find?_eq_some_iff.2 ⟨hs, rfl⟩
    rw [problems, hdeclared]
    simp only [hfind, Option.isSome_some, if_true]
    exact violationsUnder_eq hfind d
  · intro strict d n hn hdeclared
    have hfind : (c.withStrict strict).find? n = none := find?_eq_none_iff.2 hn
    rw [problems, hdeclared]
    simp only [hfind, Option.isSome_none, Bool.false_eq_true, if_false]
  · intro strict d s hnone hfor
    rcases c.schemaFor?_cases d.name with ⟨t, ht, hcovers⟩ | ⟨ht, -⟩
    · cases hfor.symm.trans ht
      have hfor' : (c.withStrict strict).schemaFor? d.name = some s := hfor
      refine ⟨hcovers, ?_⟩
      rw [problems, hnone]
      simp only [hfor']
      exact violationsUnder_eq (hordered.find?_eq_some_iff.2 ⟨hcovers.1, rfl⟩) d
    · cases hfor.symm.trans ht
  · intro strict d hnone hfor
    rcases c.schemaFor?_cases d.name with ⟨t, ht, -⟩ | ⟨-, huncovered⟩
    · cases hfor.symm.trans ht
    · have hfor' : (c.withStrict strict).schemaFor? d.name = none := hfor
      refine ⟨huncovered, ?_⟩
      rw [problems, hnone]
      simp only [hfor']
      rfl

/-- Two patterns that match the same names, and the schema of a single document. -/
def overlapping : List (String × Json) :=
  [("menu", .object [("type", .string "object"), ("x-config-pattern", .string "system.menu.*")]),
    ("system", .object [("type", .string "object"), ("x-config-pattern", .string "system.*")]),
    ("system.menu.main", .object [("type", .string "object")])]

theorem ofSchemas_serves_overlapping : ∃ c, (overlapping.map (·.1)).Nodup ∧
    ofSchemas overlapping = .ok c ∧ (c.Serves overlapping ∧ ∀ sources' : List (String × Json),
      sources'.Perm overlapping → ofSchemas sources' = .ok c) ∧
    (["system.menu.main", "system.menu.side", "system.site", "blog"].map c.schemaFor?).map
      (·.map (·.name)) = [some "system.menu.main", some "menu", some "system", none] := by
  have hnodup : (overlapping.map (·.1)).Nodup := by decide
  have hfound : (ofSchemas overlapping).toOption.map (fun c =>
      (["system.menu.main", "system.menu.side", "system.site", "blog"].map c.schemaFor?).map
        (·.map (·.name))) = some [some "system.menu.main", some "menu", some "system", none] := by
    rw [ofSchemas_of_sorted (by decide)]
    decide +kernel
  cases hc : ofSchemas overlapping with
  | error e =>
    rw [hc] at hfound
    cases hfound
  | ok c =>
    rw [hc] at hfound
    exact ⟨c, hnodup, rfl, ofSchemas_serves hnodup hc, Option.some_inj.1 hfound⟩

/-- The schema of a single document, and the document, which declares another schema. -/
def lone : List (String × Json) := [("blog.home", .object [("type", .string "object")])]

def stray : Document := ⟨"blog.home", [(.string "_schema", .string "nope")]⟩

/-- A document that declares an unknown schema is refused, and not held to the one that covers it. -/
theorem not_always_covering : ¬∀ (sources : List (String × Json)) (c : SchemaCatalog) (d : Document)
    (s : NamedSchema), (sources.map (·.1)).Nodup → ofSchemas sources = .ok c →
      (∀ t ∈ c.schemas, d.schemaName? ≠ some t.name) → s ∈ c.schemas → s.coverage = .exact d.name →
        c.problems d = s.judge d := by
  intro h
  have hfound : (ofSchemas lone).toOption.map (fun c =>
      ((c.problems stray).length, c.schemas.map fun s =>
        (s.name, s.coversExactly "blog.home", (s.judge stray).length))) =
      some (1, [("blog.home", true, 0)]) := by decide +kernel
  cases hc : ofSchemas lone with
  | error e =>
    rw [hc] at hfound
    cases hfound
  | ok c =>
    rw [hc] at hfound
    obtain ⟨hproblems, hschemas⟩ := Prod.mk.inj (Option.some_inj.1 hfound)
    obtain ⟨s, hlist, hs⟩ := List.map_eq_singleton_iff.1 hschemas
    obtain ⟨hname, hs⟩ := Prod.mk.inj hs
    obtain ⟨hexact, hjudge⟩ := Prod.mk.inj hs
    have hmem : s ∈ c.schemas := by
      rw [hlist]
      exact List.mem_singleton_self s
    have hnone : ∀ t ∈ c.schemas, stray.schemaName? ≠ some t.name := by
      rw [hlist]
      refine List.forall_mem_singleton.2 ?_
      rw [hname]
      decide
    have heq := h lone c stray s (by decide) hc hnone hmem (coversExactly_iff.1 hexact)
    rw [heq, hjudge] at hproblems
    cases hproblems

end SchemaCatalog

end SiteConfig
