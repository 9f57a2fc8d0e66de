import Mathlib
import SiteConfig.Changelist
import SiteConfig.Proofs.Content
import SiteConfig.Proofs.NameMap

/-!
# What a changelist says

The changelist of two snapshots is computed by walking through lists in which documents
are paired off. What it says does not mention the walk: a document is renamed when it is
the first of its identifier among those that only the source has, and there is one of that
identifier among those that only the target has, of which the first is taken
(`SiteConfig.Changelist.mem_rename_iff`). The other documents are created, updated or
deleted by which of the snapshots know their names.

Two consequences carry everything that is proved about imports:

* no name occurs twice in a changelist (`SiteConfig.Changelist.disjoint_between`);
* when a target comes to agree with the source on some names, and stays the same elsewhere,
  then the changelist loses the entries of those names and is otherwise the same, in the
  same order (`SiteConfig.Changelist.between_eq_without`).
-/

namespace SiteConfig

/-! ### Snapshots -/

namespace Snapshot

/-- Every document is filed under its own name. -/
def Named (s : Snapshot) : Prop := ∀ n d, s.get? n = some d → d.name = n

/-- No identifier belongs to two documents. -/
def Distinct (s : Snapshot) : Prop :=
  ∀ m n d e u, s.get? m = some d → s.get? n = some e → d.uuid? = some u → e.uuid? = some u → m = n

/-- Two snapshots hold the same names with the same contents. -/
def Agrees (s t : Snapshot) : Prop :=
  (∀ n, (∃ d, s.get? n = some d) ↔ ∃ e, t.get? n = some e) ∧
    ∀ n d e, s.get? n = some d → t.get? n = some e → d.sameContent e = true

/-- Two snapshots hold the same under a name. -/
def AgreesAt (s t : Snapshot) (n : String) : Prop :=
  ((∃ d, s.get? n = some d) ↔ ∃ e, t.get? n = some e) ∧
    ∀ d e, s.get? n = some d → t.get? n = some e → d.sameContent e = true

/-- Snapshots agree when they do so name by name. -/
theorem agrees_iff_forall {s t : Snapshot} : s.Agrees t ↔ ∀ n, s.AgreesAt t n :=
  ⟨fun h n => ⟨h.1 n, h.2 n⟩, fun h => ⟨fun n => (h n).1, fun n => (h n).2⟩⟩

theorem Named.mem_values_iff {s : Snapshot} (hs : s.Named) {d : Document} :
    d ∈ s.values ↔ s.get? d.name = some d := by
  rw [NameMap.mem_values_iff]
  constructor
  · rintro ⟨n, hn⟩
    rw [hs n d hn]
    exact hn
  · exact fun h => ⟨d.name, h⟩

/-- A name is not both known and missing. -/
theorem false_of_missing {s : Snapshot} {n : String} (h : ∃ d, s.get? n = some d)
    (hno : s.get? n = none) : False := by
  obtain ⟨d, hd⟩ := h
  rw [hno] at hd
  cases hd

theorem Named.map_name_values {s : Snapshot} (hs : s.Named) : s.values.map (·.name) = s.keys := by
  rw [NameMap.values, NameMap.keys, List.map_map]
  exact List.map_congr_left fun e he => hs e.1 e.2 (NameMap.mem_entries_iff.1 he)

/-- The documents of a snapshot, or any of them, come in the order of their names. -/
theorem Named.names_sorted {s : Snapshot} (hs : s.Named) {l : List Document}
    (hl : l.Sublist s.values) : (l.map (·.name)).Pairwise (· < ·) :=
  (hs.map_name_values ▸ s.keys_sorted).sublist (hl.map _)

/-- A snapshot of documents with distinct names holds these documents. -/
theorem get?_ofDocuments {docs : List Document} (h : (docs.map (·.name)).Nodup) {n : String}
    {d : Document} : (ofDocuments docs).get? n = some d ↔ d ∈ docs ∧ d.name = n := by
  rw [ofDocuments, NameMap.get?_ofList_eq_some_iff]
  · simp only [List.mem_map, Prod.mk.injEq]
    constructor
    · rintro ⟨e, he, rfl, rfl⟩
      exact ⟨he, rfl⟩
    · rintro ⟨hd, rfl⟩
      exact ⟨d, hd, rfl, rfl⟩
  · intro k v w hv hw
    obtain ⟨a, ha, hav⟩ := List.mem_map.1 hv
    obtain ⟨b, hb, hbw⟩ := List.mem_map.1 hw
    rw [Prod.mk.injEq] at hav hbw
    rw [← hav.2, ← hbw.2, List.inj_on_of_nodup_map h ha hb (hav.1.trans hbw.1.symm)]

/-- Whatever is made of documents is filed under their names. -/
theorem named_ofDocuments (docs : List Document) : (ofDocuments docs).Named := by
  intro n d h
  obtain ⟨e, -, he⟩ := List.mem_map.1 (NameMap.mem_of_get?_ofList h)
  cases he
  rfl

end Snapshot

namespace Changelist

variable {s t t' : Snapshot}

/-! ### Documents that only one snapshot has -/

theorem mem_onlyIn_iff (hs : s.Named) {d : Document} :
    d ∈ onlyIn s t ↔ s.get? d.name = some d ∧ t.get? d.name = none := by
  rw [onlyIn, List.mem_filter, hs.mem_values_iff, Bool.not_eq_true', NameMap.contains_eq_false_iff]

theorem onlyIn_sorted (hs : s.Named) (t : Snapshot) :
    ((onlyIn s t).map (·.name)).Pairwise (· < ·) :=
  hs.names_sorted List.filter_sublist

theorem mem_onlyIn_names_iff (hs : s.Named) {n : String} :
    n ∈ (onlyIn s t).map (·.name) ↔ (∃ d, s.get? n = some d) ∧ t.get? n = none := by
  rw [List.mem_map]
  constructor
  · rintro ⟨d, hd, rfl⟩
    obtain ⟨hsome, hnone⟩ := (mem_onlyIn_iff hs).1 hd
    exact ⟨⟨d, hsome⟩, hnone⟩
  · rintro ⟨⟨d, hd⟩, hnone⟩
    obtain rfl := hs n d hd
    exact ⟨d, (mem_onlyIn_iff hs).2 ⟨hd, hnone⟩, rfl⟩

/-! ### Pairing -/

/-- The first document of an identifier. -/
def firstOf (u : String) (l : List Document) : Option Document :=
  l.find? fun d => d.uuid? = some u

theorem mem_of_firstOf {u : String} {l : List Document} {d : Document} (h : firstOf u l = some d) :
    d ∈ l := List.mem_of_find?_eq_some h

theorem uuid?_of_firstOf {u : String} {l : List Document} {d : Document}
    (h : firstOf u l = some d) : d.uuid? = some u := by simpa using List.find?_some h

theorem takeByUuid_eq (u : String) (l : List Document) :
    takeByUuid u l
      = (firstOf u l).map fun d => (d, l.filter fun e => e.uuid? ≠ some u) := by
  induction l with
  | nil => rfl
  | cons d r ih =>
    rw [takeByUuid, firstOf, List.find?_cons, List.filter_cons]
    by_cases hd : d.uuid? = some u
    · simp [hd]
    · rw [if_neg hd, ih]
      simp [hd, firstOf, Function.comp_def]

/-- Leaving out the documents of other identifiers does not change which is first. -/
theorem firstOf_filter {u v : String} (h : u ≠ v) (l : List Document) :
    firstOf u (l.filter fun e => e.uuid? ≠ some v) = firstOf u l := by
  rw [firstOf, List.find?_filter, firstOf]
  refine List.find?_congr fun d _ => ?_
  by_cases hd : d.uuid? = some u
  · simp [hd, h]
  · simp [hd]

theorem firstOf_filter_self (u : String) (l : List Document) :
    firstOf u (l.filter fun e => e.uuid? ≠ some u) = none :=
  List.find?_eq_none.2 fun d hd => by simpa using (List.mem_filter.1 hd).2

/-- A document that cannot be paired is created. -/
theorem pair_cons_of_none {d : Document} {new old : List Document}
    (h : ∀ u, d.uuid? = some u → firstOf u old = none) :
    pair (d :: new) old = (d.name :: (pair new old).1, (pair new old).2) := by
  have hnone : (d.uuid?.bind fun u => takeByUuid u old) = none :=
    Option.bind_eq_none_iff.2 fun u hu => by rw [takeByUuid_eq, h u hu]; rfl
  rw [pair, hnone]

/-- A document that can be paired is renamed, and everything of its identifier is used up. -/
theorem pair_cons_of_some {d e : Document} {u : String} {new old : List Document}
    (hu : d.uuid? = some u) (he : firstOf u old = some e) :
    pair (d :: new) old
      = ((pair new (old.filter fun e => e.uuid? ≠ some u)).1,
        ⟨e.name, d.name, !d.sameContent e⟩ ::
          (pair new (old.filter fun e => e.uuid? ≠ some u)).2) := by
  have hsome : (d.uuid?.bind fun u => takeByUuid u old)
      = some (e, old.filter fun e => e.uuid? ≠ some u) := by
    rw [hu, Option.bind_some, takeByUuid_eq, he]
    rfl
  rw [pair, hsome]

/-- Induction along a pairing: a new document remains without a partner, or it takes the
first one. -/
theorem pair_induction {motive : List Document → List Document → Prop}
    (done : ∀ old, motive [] old)
    (alone : ∀ d new old, (∀ u, d.uuid? = some u → firstOf u old = none) → motive new old →
      motive (d :: new) old)
    (paired : ∀ d e u new old, d.uuid? = some u → firstOf u old = some e →
      motive new (old.filter fun e => e.uuid? ≠ some u) → motive (d :: new) old)
    (new old : List Document) : motive new old := by
  induction new generalizing old with
  | nil => exact done old
  | cons d new ih =>
    rcases hu : d.uuid? with _ | u
    · exact alone d new old (fun u h => by rw [hu] at h; cases h) (ih old)
    · rcases he : firstOf u old with _ | e
      · refine alone d new old (fun v h => ?_) (ih old)
        rw [hu] at h
        cases h
        exact he
      · exact paired d e u new old hu he (ih _)

/-- **Renames pair first documents**: the first new one and the first old one of an
identifier. -/
theorem mem_pair_iff {new old : List Document} {m : Rename} :
    m ∈ (pair new old).2 ↔
      ∃ u d e, firstOf u new = some d ∧ firstOf u old = some e ∧
        m = ⟨e.name, d.name, !d.sameContent e⟩ := by
  induction new, old using pair_induction with
  | done old => simp [pair, firstOf]
  | alone d new old h ih =>
    rw [pair_cons_of_none h, ih]
    refine exists_congr fun u => exists_congr fun d' => exists_congr fun e =>
      and_congr_left fun he => ?_
    -- a document without a partner does not come first under any uuid that has one
    have hne : d.uuid? ≠ some u := fun hu => by rw [h u hu] at he; cases he.1
    simp [firstOf, hne]
  | paired d e u new old hu he ih =>
    rw [pair_cons_of_some hu he, List.mem_cons, ih]
    constructor
    · rintro (rfl | ⟨v, d', e', hd', he', rfl⟩)
      · exact ⟨u, d, e, by simp [firstOf, hu], he, rfl⟩
      · -- the documents with the uuid of the first pair are gone
        have hvu : v ≠ u := fun h => by rw [h, firstOf_filter_self] at he'; cases he'
        rw [firstOf_filter hvu] at he'
        exact ⟨v, d', e', by simpa [firstOf, hu, hvu.symm] using hd', he', rfl⟩
    · rintro ⟨v, d', e', hd', he', rfl⟩
      by_cases hvu : v = u
      · subst hvu
        have hdd : d = d' := by simpa [firstOf, hu] using hd'
        subst hdd
        rw [he] at he'
        cases he'
        exact .inl rfl
      · refine .inr ⟨v, d', e', ?_, by rw [firstOf_filter hvu, he'], rfl⟩
        simpa [firstOf, hu, Ne.symm hvu] using hd'

theorem pair_create_sublist (new old : List Document) :
    (pair new old).1.Sublist (new.map (·.name)) := by
  induction new, old using pair_induction with
  | done old => simp [pair]
  | alone d new old h ih => rw [pair_cons_of_none h]; exact ih.cons_cons d.name
  | paired d e u new old hu he ih => rw [pair_cons_of_some hu he]; exact ih.cons d.name

theorem pair_rename_sublist (new old : List Document) :
    ((pair new old).2.map (·.target)).Sublist (new.map (·.name)) := by
  induction new, old using pair_induction with
  | done old => simp [pair]
  | alone d new old h ih => rw [pair_cons_of_none h]; exact ih.cons d.name
  | paired d e u new old hu he ih => rw [pair_cons_of_some hu he]; exact ih.cons_cons d.name

/-- Every new document is either created or renamed. -/
theorem pair_perm (new old : List Document) :
    ((pair new old).1 ++ (pair new old).2.map (·.target)).Perm (new.map (·.name)) := by
  induction new, old using pair_induction with
  | done old => simp [pair]
  | alone d new old h ih => rw [pair_cons_of_none h]; exact ih.cons d.name
  | paired d e u new old hu he ih =>
    rw [pair_cons_of_some hu he]
    exact List.perm_middle.trans (ih.cons d.name)

/-! ### The four lists -/

variable (hs : s.Named) (ht : t.Named)

theorem mem_rename_iff {m : Rename} :
    m ∈ (between s t).rename ↔
      ∃ u d e, firstOf u (onlyIn s t) = some d ∧ firstOf u (onlyIn t s) = some e ∧
        m = ⟨e.name, d.name, !d.sameContent e⟩ :=
  mem_pair_iff

/-- The new and the old document of a rename. -/
theorem exists_of_mem_rename {m : Rename} (h : m ∈ (between s t).rename) :
    ∃ u d e, d ∈ onlyIn s t ∧ e ∈ onlyIn t s ∧ d.uuid? = some u ∧ e.uuid? = some u ∧
      d.name = m.target ∧ e.name = m.source := by
  obtain ⟨u, d, e, hd, he, rfl⟩ := mem_rename_iff.1 h
  exact ⟨u, d, e, mem_of_firstOf hd, mem_of_firstOf he, uuid?_of_firstOf hd, uuid?_of_firstOf he,
    rfl, rfl⟩

theorem create_sublist : (between s t).create.Sublist ((onlyIn s t).map (·.name)) :=
  pair_create_sublist _ _

theorem rename_target_sublist :
    ((between s t).rename.map (·.target)).Sublist ((onlyIn s t).map (·.name)) :=
  pair_rename_sublist _ _

theorem create_append_perm :
    ((between s t).create ++ (between s t).rename.map (·.target)).Perm
      ((onlyIn s t).map (·.name)) :=
  pair_perm _ _

include hs in
/-- The names that only the source knows: those of new documents and of renamed ones. -/
theorem nodup_create_append :
    ((between s t).create ++ (between s t).rename.map (·.target)).Nodup :=
  create_append_perm.nodup_iff.2 (NameMap.nodup_of_sorted (onlyIn_sorted hs t))

include hs in
theorem mem_create_iff {n : String} :
    n ∈ (between s t).create ↔
      ((∃ d, s.get? n = some d) ∧ t.get? n = none) ∧
        ∀ m ∈ (between s t).rename, m.target ≠ n := by
  have hperm : n ∈ (between s t).create ++ (between s t).rename.map (·.target) ↔ _ :=
    create_append_perm.mem_iff.trans (mem_onlyIn_names_iff hs)
  have hdis := (List.nodup_append.1 (nodup_create_append (t := t) hs)).2.2
  rw [← hperm, List.mem_append, List.mem_map]
  constructor
  · exact fun h => ⟨.inl h, fun m hm he => hdis n h n (List.mem_map.2 ⟨m, hm, he⟩) rfl⟩
  · rintro ⟨h | ⟨m, hm, he⟩, hno⟩
    · exact h
    · exact absurd he (hno m hm)

include ht in
theorem mem_delete_iff {n : String} :
    n ∈ (between s t).delete ↔
      ((∃ d, t.get? n = some d) ∧ s.get? n = none) ∧
        ∀ m ∈ (between s t).rename, m.source ≠ n := by
  rw [← mem_onlyIn_names_iff ht]
  simp [between]

include ht in
theorem mem_update_iff {n : String} :
    n ∈ (between s t).update ↔
      ∃ d e, s.get? n = some d ∧ t.get? n = some e ∧ d.sameContent e = false := by
  simp only [between, differing, List.mem_map, List.mem_filter, ht.mem_values_iff]
  constructor
  · rintro ⟨e, ⟨he, hdiff⟩, rfl⟩
    rcases hd : s.get? e.name with _ | d
    · simp [hd] at hdiff
    · exact ⟨d, e, rfl, he, by simpa [hd] using hdiff⟩
  · rintro ⟨d, e, hd, he, hdiff⟩
    obtain rfl := ht n e he
    exact ⟨e, ⟨he, by simp [hd, hdiff]⟩, rfl⟩

include hs in
theorem create_sorted : (between s t).create.Pairwise (· < ·) :=
  (onlyIn_sorted hs t).sublist create_sublist

include hs in
theorem rename_sorted : (between s t).rename.Pairwise fun a b => a.target < b.target :=
  List.pairwise_map.1 ((onlyIn_sorted hs t).sublist rename_target_sublist)

include ht in
theorem delete_sorted : (between s t).delete.Pairwise (· < ·) :=
  (onlyIn_sorted ht s).sublist List.filter_sublist

include ht in
theorem update_sorted : (between s t).update.Pairwise (· < ·) :=
  ht.names_sorted List.filter_sublist

/-! ### No name occurs twice -/

/-- No name occurs twice in a changelist, whether as that of a document or as either of
the names of a rename. -/
def Disjoint (c : Changelist) : Prop :=
  (c.create ++ c.update ++ c.delete ++ c.rename.map (·.source) ++ c.rename.map (·.target)).Nodup

include hs in
/-- The target of a rename is a name that only the source knows. -/
theorem of_mem_rename_target {n : String} (h : n ∈ (between s t).rename.map (·.target)) :
    (∃ d, s.get? n = some d) ∧ t.get? n = none :=
  (mem_onlyIn_names_iff hs).1 (rename_target_sublist.subset h)

include ht in
/-- The source of a rename is a name that only the target knows. -/
theorem of_mem_rename_source {n : String} (h : n ∈ (between s t).rename.map (·.source)) :
    (∃ d, t.get? n = some d) ∧ s.get? n = none := by
  obtain ⟨m, hm, rfl⟩ := List.mem_map.1 h
  obtain ⟨u, d, e, -, he, -, -, -, hname⟩ := exists_of_mem_rename hm
  exact (mem_onlyIn_names_iff ht).1 (List.mem_map.2 ⟨e, he, hname⟩)

include ht in
/-- Two renames never have the same old document. -/
theorem rename_eq_of_source_eq {m m' : Rename} (h : m ∈ (between s t).rename)
    (h' : m' ∈ (between s t).rename) (heq : m.source = m'.source) : m = m' := by
  obtain ⟨u, d, e, hd, he, rfl⟩ := mem_rename_iff.1 h
  obtain ⟨u', d', e', hd', he', rfl⟩ := mem_rename_iff.1 h'
  have hee : e = e' := by
    have hsome := ((mem_onlyIn_iff ht).1 (mem_of_firstOf he)).1
    have hsome' := ((mem_onlyIn_iff ht).1 (mem_of_firstOf he')).1
    rw [show e.name = e'.name from heq, hsome'] at hsome
    exact (Option.some.inj hsome).symm
  subst hee
  have huu : u = u' := by
    have hu := uuid?_of_firstOf he
    rw [uuid?_of_firstOf he'] at hu
    exact (Option.some.inj hu).symm
  subst huu
  rw [hd] at hd'
  cases hd'
  rfl

include hs ht in
theorem disjoint_between : (between s t).Disjoint := by
  have hcreate := NameMap.nodup_of_sorted (create_sorted (t := t) hs)
  have hupdate := NameMap.nodup_of_sorted (update_sorted (s := s) ht)
  have hdelete := NameMap.nodup_of_sorted (delete_sorted (s := s) ht)
  have htarget : ((between s t).rename.map (·.target)).Nodup :=
    (List.nodup_append.1 (nodup_create_append hs)).2.1
  have hsource : ((between s t).rename.map (·.source)).Nodup :=
    htarget.of_map.map_on fun m hm m' hm' => rename_eq_of_source_eq ht hm hm'
  -- which of the snapshots know a name tells its list, but for the two pairs of lists
  -- that come from one pairing
  have hc : ∀ {n}, n ∈ (between s t).create → (∃ d, s.get? n = some d) ∧ t.get? n = none :=
    fun h => ((mem_create_iff hs).1 h).1
  have hu : ∀ {n}, n ∈ (between s t).update →
      (∃ d, s.get? n = some d) ∧ ∃ e, t.get? n = some e := by
    intro n h
    obtain ⟨d, e, hd, he, -⟩ := (mem_update_iff ht).1 h
    exact ⟨⟨d, hd⟩, e, he⟩
  have hd : ∀ {n}, n ∈ (between s t).delete → (∃ d, t.get? n = some d) ∧ s.get? n = none :=
    fun h => ((mem_delete_iff ht).1 h).1
  have hds : ∀ {n}, n ∈ (between s t).delete → n ∉ (between s t).rename.map (·.source) := by
    intro n h hn
    obtain ⟨m, hm, he⟩ := List.mem_map.1 hn
    exact ((mem_delete_iff ht).1 h).2 m hm he
  have hct := (List.nodup_append.1 (nodup_create_append (t := t) hs)).2.2
  have hms := fun {n} => of_mem_rename_source (s := s) (n := n) ht
  have hmt := fun {n} => of_mem_rename_target (t := t) (n := n) hs
  simp only [Disjoint, List.nodup_append, List.mem_append]
  refine ⟨⟨⟨⟨hcreate, hupdate, ?_⟩, hdelete, ?_⟩, hsource, ?_⟩, htarget, ?_⟩
  · rintro a ha b hb rfl
    exact Snapshot.false_of_missing (hu hb).2 (hc ha).2
  · rintro a (ha | ha) b hb rfl
    · exact Snapshot.false_of_missing (hc ha).1 (hd hb).2
    · exact Snapshot.false_of_missing (hu ha).1 (hd hb).2
  · rintro a ((ha | ha) | ha) b hb rfl
    · exact Snapshot.false_of_missing (hc ha).1 (hms hb).2
    · exact Snapshot.false_of_missing (hu ha).1 (hms hb).2
    · exact hds ha hb
  · rintro a (((ha | ha) | ha) | ha) b hb rfl
    · exact hct a ha a hb rfl
    · exact Snapshot.false_of_missing (hu ha).2 (hmt hb).2
    · exact Snapshot.false_of_missing (hmt hb).1 (hd ha).2
    · exact Snapshot.false_of_missing (hmt hb).1 (hms ha).2

/-! ### Nothing to change -/

include hs in
/-- What the target does not lack need not be created. -/
theorem create_eq_nil (h : ∀ n, (∃ d, s.get? n = some d) → ∃ e, t.get? n = some e) :
    (between s t).create = [] := by
  refine List.eq_nil_iff_forall_not_mem.2 fun n hn => ?_
  obtain ⟨hd, hnone⟩ := ((mem_create_iff hs).1 hn).1
  exact Snapshot.false_of_missing (h n hd) hnone

section NothingDropped

variable (h : ∀ n, (∃ e, t.get? n = some e) → ∃ d, s.get? n = some d)

include ht h in
/-- What the source does not lack is not deleted. -/
theorem delete_eq_nil : (between s t).delete = [] := by
  refine List.eq_nil_iff_forall_not_mem.2 fun n hn => ?_
  obtain ⟨he, hnone⟩ := ((mem_delete_iff ht).1 hn).1
  exact Snapshot.false_of_missing (h n he) hnone

include ht h in
/-- What the source does not lack keeps its name. -/
theorem rename_eq_nil : (between s t).rename = [] := by
  refine List.eq_nil_iff_forall_not_mem.2 fun m hm => ?_
  obtain ⟨he, hnone⟩ := of_mem_rename_source ht (List.mem_map.2 ⟨m, hm, rfl⟩)
  exact Snapshot.false_of_missing (h _ he) hnone

end NothingDropped

/-- A name that no entry of a changelist mentions. -/
structure Untouched (c : Changelist) (n : String) : Prop where
  create : n ∉ c.create
  update : n ∉ c.update
  delete : n ∉ c.delete
  target : ∀ m ∈ c.rename, m.target ≠ n
  source : ∀ m ∈ c.rename, m.source ≠ n

include hs ht in
/-- Snapshots agree on the names that their changelist does not mention. -/
theorem Untouched.agreesAt {n : String} (h : (between s t).Untouched n) : s.AgreesAt t n := by
  refine ⟨⟨fun hd => ?_, fun he => ?_⟩, fun d e hd he => ?_⟩
  · by_contra hno
    exact h.create ((mem_create_iff hs).2
      ⟨⟨hd, Option.eq_none_iff_forall_ne_some.2 fun e he => hno ⟨e, he⟩⟩, h.target⟩)
  · by_contra hno
    exact h.delete ((mem_delete_iff ht).2
      ⟨⟨he, Option.eq_none_iff_forall_ne_some.2 fun d hd => hno ⟨d, hd⟩⟩, h.source⟩)
  · by_contra hdiff
    exact h.update ((mem_update_iff ht).2 ⟨d, e, hd, he, by simpa using hdiff⟩)

theorem untouched_empty (n : String) : empty.Untouched n := by
  constructor <;> simp [empty]

include hs ht in
/-- **Nothing is to be changed when the snapshots agree**, and only then. -/
theorem between_eq_empty_iff : between s t = empty ↔ s.Agrees t := by
  constructor
  · intro h
    rw [Snapshot.agrees_iff_forall]
    exact fun n => Untouched.agreesAt hs ht (h ▸ untouched_empty n)
  · intro h
    -- no name is missing on one side, and what is on both sides is the same
    have hrename := rename_eq_nil ht fun n => (h.1 n).2
    have hcreate := create_eq_nil hs fun n => (h.1 n).1
    have hdelete := delete_eq_nil ht fun n => (h.1 n).2
    have hupdate : (between s t).update = [] := by
      refine List.eq_nil_iff_forall_not_mem.2 fun n hn => ?_
      obtain ⟨d, e, hd, he, hdiff⟩ := (mem_update_iff ht).1 hn
      rw [h.2 n d e hd he] at hdiff
      cases hdiff
    calc between s t
        = ⟨(between s t).create, (between s t).update, (between s t).delete,
            (between s t).rename⟩ := rfl
      _ = empty := by rw [hcreate, hupdate, hdelete, hrename]; rfl

/-! ### Adopting some names of the source -/

/-- The entries of a changelist that do not concern some names; a rename counts with its
new name. -/
def without (c : Changelist) (names : List String) : Changelist :=
  { create := c.create.filter fun n => !names.contains n
    update := c.update.filter fun n => !names.contains n
    delete := c.delete.filter fun n => !names.contains n
    rename := c.rename.filter fun m => !names.contains m.target }

theorem mem_without_create {c : Changelist} {names : List String} {n : String} :
    n ∈ (c.without names).create ↔ n ∈ c.create ∧ n ∉ names := by simp [without]

theorem mem_without_update {c : Changelist} {names : List String} {n : String} :
    n ∈ (c.without names).update ↔ n ∈ c.update ∧ n ∉ names := by simp [without]

theorem mem_without_delete {c : Changelist} {names : List String} {n : String} :
    n ∈ (c.without names).delete ↔ n ∈ c.delete ∧ n ∉ names := by simp [without]

theorem mem_without_rename {c : Changelist} {names : List String} {m : Rename} :
    m ∈ (c.without names).rename ↔ m ∈ c.rename ∧ m.target ∉ names := by simp [without]

/-- Some names hold both names of a rename or none of them. -/
def Closed (c : Changelist) (names : List String) : Prop :=
  ∀ m ∈ c.rename, m.source ∈ names ↔ m.target ∈ names

/-- A target has come to agree with the source on some names and is unchanged elsewhere. -/
def Adopts (s t t' : Snapshot) (names : List String) : Prop :=
  ∀ n, t'.get? n = if n ∈ names then s.get? n else t.get? n

/-- Adopting some names and then others is adopting all of them. -/
theorem Adopts.trans {s t t' t'' : Snapshot} {names names' : List String}
    (h : Adopts s t t' names) (h' : Adopts s t' t'' names') :
    Adopts s t t'' (names' ++ names) := by
  intro n
  rw [h' n, h n]
  by_cases hn : n ∈ names'
  · rw [if_pos hn, if_pos (List.mem_append_left _ hn)]
  · simp [hn]

variable {names : List String} (hadopt : Adopts s t t' names)

include hs ht hadopt in
theorem Adopts.named : t'.Named := by
  intro n d hd
  rw [hadopt n] at hd
  split at hd
  · exact hs n d hd
  · exact ht n d hd

include hs hadopt in
/-- What only the source has is what only it had, but for the adopted names. -/
theorem Adopts.mem_onlyIn_source {d : Document} :
    d ∈ onlyIn s t' ↔ d ∈ onlyIn s t ∧ d.name ∉ names := by
  rw [mem_onlyIn_iff hs, mem_onlyIn_iff hs, hadopt]
  split
  · rename_i h
    simp only [h, not_true_eq_false, and_false, iff_false, not_and]
    intro hd
    rw [hd]
    simp
  · rename_i h
    simp [h]

include hs ht hadopt in
/-- What only the target has is what only it had, but for the adopted names. -/
theorem Adopts.mem_onlyIn_target {e : Document} :
    e ∈ onlyIn t' s ↔ e ∈ onlyIn t s ∧ e.name ∉ names := by
  rw [mem_onlyIn_iff (Adopts.named hs ht hadopt), mem_onlyIn_iff ht, hadopt]
  split
  · rename_i h
    simp only [h, not_true_eq_false, and_false, iff_false, not_and]
    intro he
    rw [he]
    simp
  · rename_i h
    simp [h]

/-- The documents that are left of a list, when some names are left out. -/
theorem eq_filter_of_mem_iff {l l' : List Document} (hl : (l.map (·.name)).Pairwise (· < ·))
    (hl' : (l'.map (·.name)).Pairwise (· < ·))
    (hmem : ∀ d, d ∈ l' ↔ d ∈ l ∧ d.name ∉ names) :
    l' = l.filter fun d => !names.contains d.name := by
  have hlt := List.pairwise_map.1 hl
  have hlt' := List.pairwise_map.1 hl'
  have nodup : ∀ {l : List Document}, (l.map (·.name)).Pairwise (· < ·) → l.Nodup :=
    fun h => (NameMap.nodup_of_sorted h).of_map
  refine List.Perm.eq_of_pairwise (fun a b _ _ hab hba => ?_) hlt' (hlt.filter _)
    ((List.perm_ext_iff_of_nodup (nodup hl') ((nodup hl).filter _)).2 fun d => ?_)
  · exact absurd (lt_trans hab hba) (lt_irrefl _)
  · rw [hmem, List.mem_filter]
    simp

include hs hadopt in
theorem Adopts.onlyIn_source : onlyIn s t' = (onlyIn s t).filter fun d => !names.contains d.name :=
  eq_filter_of_mem_iff (onlyIn_sorted hs t) (onlyIn_sorted hs t') fun _ =>
    Adopts.mem_onlyIn_source hs hadopt

include hs ht hadopt in
theorem Adopts.onlyIn_target : onlyIn t' s = (onlyIn t s).filter fun d => !names.contains d.name :=
  eq_filter_of_mem_iff (onlyIn_sorted ht s)
    (onlyIn_sorted (Adopts.named hs ht hadopt) s) fun _ => Adopts.mem_onlyIn_target hs ht hadopt

/-- A first document that is not left out is still the first. -/
theorem firstOf_filter_names {u : String} {l : List Document} {d : Document}
    (h : firstOf u l = some d) (hd : d.name ∉ names) :
    firstOf u (l.filter fun d => !names.contains d.name) = some d := by
  obtain ⟨hu, as, bs, rfl, has⟩ := List.find?_eq_some_iff_append.1 h
  rw [List.filter_append, firstOf, List.find?_append, List.filter_cons]
  have hnone : (as.filter fun d => !names.contains d.name).find? (fun d => d.uuid? = some u)
      = none := List.find?_eq_none.2 fun a ha => by simpa using has a (List.mem_filter.1 ha).1
  rw [hnone]
  simp only [List.contains_eq_mem, hd, decide_false, Bool.not_false, if_true, Option.none_or]
  rw [List.find?_cons, hu]

/-- If what is left has a document of an identifier, the whole has one. -/
theorem exists_firstOf_of_filter {u : String} {l : List Document} {d : Document}
    {p : Document → Bool} (h : firstOf u (l.filter p) = some d) : ∃ e, firstOf u l = some e := by
  rw [← Option.isSome_iff_exists, firstOf, List.find?_isSome]
  exact ⟨d, (List.mem_filter.1 (mem_of_firstOf h)).1, by simpa using uuid?_of_firstOf h⟩

include hs ht hadopt in
/-- **The renames that are left** are those of names that were not adopted. -/
theorem Adopts.mem_rename_iff (hdist : s.Distinct) (hclosed : (between s t).Closed names)
    {m : Rename} :
    m ∈ (between s t').rename ↔ m ∈ (between s t).rename ∧ m.target ∉ names := by
  rw [Changelist.mem_rename_iff, Adopts.onlyIn_source hs hadopt,
    Adopts.onlyIn_target hs ht hadopt]
  constructor
  · rintro ⟨u, d', e', hd', he', rfl⟩
    obtain ⟨d, hd⟩ := exists_firstOf_of_filter hd'
    obtain ⟨e, he⟩ := exists_firstOf_of_filter he'
    have hm : ⟨e.name, d.name, !d.sameContent e⟩ ∈ (between s t).rename :=
      Changelist.mem_rename_iff.2 ⟨u, d, e, hd, he, rfl⟩
    obtain ⟨hmem', hout⟩ := List.mem_filter.1 (mem_of_firstOf hd')
    -- the source has only one document of the identifier
    have hdd : d.name = d'.name :=
      hdist _ _ d d' u ((mem_onlyIn_iff hs).1 (mem_of_firstOf hd)).1
        ((mem_onlyIn_iff hs).1 hmem').1 (uuid?_of_firstOf hd) (uuid?_of_firstOf hd')
    have hdout : d.name ∉ names := by simpa [hdd] using hout
    have heout : e.name ∉ names := fun h => hdout ((hclosed _ hm).1 h)
    rw [firstOf_filter_names hd hdout] at hd'
    rw [firstOf_filter_names he heout] at he'
    cases hd'
    cases he'
    exact ⟨hm, hdout⟩
  · rintro ⟨hm, hout⟩
    obtain ⟨u, d, e, hd, he, rfl⟩ := Changelist.mem_rename_iff.1 hm
    have heout : e.name ∉ names := fun h => hout ((hclosed _ hm).1 h)
    exact ⟨u, d, e, firstOf_filter_names hd hout, firstOf_filter_names he heout, rfl⟩

section Without

variable (hdist : s.Distinct) (hclosed : (between s t).Closed names)

include hs ht hadopt hdist hclosed in
theorem Adopts.create : (between s t').create = ((between s t).without names).create := by
  refine NameMap.eq_of_mem_iff (create_sorted hs) ((create_sorted hs).filter _) fun n => ?_
  have hren := fun m => Adopts.mem_rename_iff hs ht hadopt hdist hclosed (m := m)
  rw [mem_without_create, mem_create_iff hs, mem_create_iff hs, hadopt]
  by_cases hn : n ∈ names
  · simp only [hn, if_true, not_true_eq_false, and_false, iff_false, not_and]
    exact fun h => (Snapshot.false_of_missing h.1 h.2).elim
  · simp only [hn, if_false, not_false_eq_true, and_true]
    refine and_congr_right fun _ => ⟨fun h m hm he => ?_, fun h m hm => h m ((hren m).1 hm).1⟩
    exact h m ((hren m).2 ⟨hm, he ▸ hn⟩) he

include hs ht hadopt hdist hclosed in
theorem Adopts.delete : (between s t').delete = ((between s t).without names).delete := by
  have ht' : t'.Named := Adopts.named hs ht hadopt
  refine NameMap.eq_of_mem_iff (delete_sorted ht') ((delete_sorted ht).filter _) fun n => ?_
  have hren := fun m => Adopts.mem_rename_iff hs ht hadopt hdist hclosed (m := m)
  rw [mem_without_delete, mem_delete_iff ht', mem_delete_iff ht, hadopt]
  by_cases hn : n ∈ names
  · simp only [hn, if_true, not_true_eq_false, and_false, iff_false, not_and]
    exact fun h => (Snapshot.false_of_missing h.1 h.2).elim
  · simp only [hn, if_false, not_false_eq_true, and_true]
    refine and_congr_right fun _ => ⟨fun h m hm he => ?_, fun h m hm => h m ((hren m).1 hm).1⟩
    -- the new name of a rename that is left out is left out with the old one
    exact h m ((hren m).2 ⟨hm, fun htn => hn (he ▸ (hclosed m hm).2 htn)⟩) he

include hs ht hadopt in
theorem Adopts.update : (between s t').update = ((between s t).without names).update := by
  have ht' : t'.Named := Adopts.named hs ht hadopt
  refine NameMap.eq_of_mem_iff (update_sorted ht') ((update_sorted ht).filter _) fun n => ?_
  rw [mem_without_update, mem_update_iff ht', mem_update_iff ht, hadopt]
  by_cases hn : n ∈ names
  · simp only [hn, if_true, not_true_eq_false, and_false, iff_false]
    rintro ⟨d, e, hd, he, hdiff⟩
    rw [hd] at he
    cases he
    rw [d.sameContent_self] at hdiff
    cases hdiff
  · simp [hn]

include hs ht hadopt hdist hclosed in
theorem Adopts.rename : (between s t').rename = ((between s t).without names).rename := by
  have nodup : ∀ {t : Snapshot}, (between s t).rename.Nodup := fun {t} =>
    (List.pairwise_map.2 (rename_sorted (t := t) hs) |> NameMap.nodup_of_sorted).of_map
  refine List.Perm.eq_of_pairwise (fun a b _ _ hab hba => ?_) (rename_sorted hs)
    ((rename_sorted hs).filter _)
    ((List.perm_ext_iff_of_nodup nodup (nodup.filter _)).2 fun m => ?_)
  · exact absurd (lt_trans hab hba) (lt_irrefl _)
  · rw [Adopts.mem_rename_iff hs ht hadopt hdist hclosed, ← mem_without_rename]
    rfl

include hs ht hadopt hdist hclosed in
/-- **Adopting names of the source takes their entries off the changelist** and changes
nothing else in it, not even the order. -/
theorem between_eq_without : between s t' = (between s t).without names :=
  calc between s t'
      = ⟨(between s t').create, (between s t').update, (between s t').delete,
          (between s t').rename⟩ := rfl
    _ = (between s t).without names := by
      rw [Adopts.create hs ht hadopt hdist hclosed, Adopts.update hs ht hadopt,
        Adopts.delete hs ht hadopt hdist hclosed, Adopts.rename hs ht hadopt hdist hclosed]

end Without

end Changelist

end SiteConfig
