import Mathlib
import SiteConfig.Proofs.Changelist

/-!
# The difference of two snapshots

A changelist is found by walking through two sorted lists and pairing documents off. What
has been found can be said without the walk, and this is what
`SiteConfig.Changelist.Describes` does: every name that is not alike in both snapshots has
one entry, and a rename joins the documents that come **first by name** among those of an
identifier on either side (`SiteConfig.Snapshot.First`).

The pairing takes the first document of a list; it is the first by name because the lists
are in the order of the names (`SiteConfig.Changelist.firstOf_onlyIn_iff`). That is the
only place where the order of the walk matters.
-/

namespace SiteConfig

namespace Snapshot

/-- A document that only the first of two snapshots has carries an identifier. -/
structure Carries (s t : Snapshot) (u : String) (d : Document) : Prop where
  here : s.get? d.name = some d
  there : t.get? d.name = none
  uuid : d.uuid? = some u

/-- A document is the first by name of those that carry an identifier. -/
structure First (s t : Snapshot) (u : String) (d : Document) : Prop where
  carries : s.Carries t u d
  least : ∀ e, s.Carries t u e → d.name ≤ e.name

/-- There is at most one first document of an identifier. -/
theorem First.unique {s t : Snapshot} {u : String} {d e : Document} (hd : s.First t u d)
    (he : s.First t u e) : d = e := by
  have hname : d.name = e.name := le_antisymm (hd.least e he.carries) (he.least d hd.carries)
  have hhere := hd.carries.here
  rw [hname, he.carries.here] at hhere
  exact (Option.some.inj hhere).symm

end Snapshot

namespace Changelist

/-- The rename of an old document to a new one. -/
def renameOf (new old : Document) : Rename := ⟨old.name, new.name, !new.sameContent old⟩

/-- **What a changelist says** about two snapshots, the wanted one and the present one. -/
structure Describes (c : Changelist) (s t : Snapshot) : Prop where
  added : ∀ n, (n ∈ c.create ∨ ∃ m ∈ c.rename, m.target = n) ↔
    (∃ d, s.get? n = some d) ∧ t.get? n = none
  removed : ∀ n, (n ∈ c.delete ∨ ∃ m ∈ c.rename, m.source = n) ↔
    (∃ e, t.get? n = some e) ∧ s.get? n = none
  updated : ∀ n, n ∈ c.update ↔
    ∃ d e, s.get? n = some d ∧ t.get? n = some e ∧ d.sameContent e = false
  disjoint : c.Disjoint
  create_sorted : c.create.Pairwise (· < ·)
  update_sorted : c.update.Pairwise (· < ·)
  delete_sorted : c.delete.Pairwise (· < ·)
  rename_sorted : c.rename.Pairwise fun a b => a.target < b.target
  /-- A rename joins first documents of an identifier. -/
  renamed : ∀ m ∈ c.rename, ∃ u d e, s.First t u d ∧ t.First s u e ∧ m = renameOf d e
  /-- An identifier that is carried on both sides has one rename. -/
  once : ∀ u, (∃ d, s.Carries t u d) → (∃ e, t.Carries s u e) →
    ∃ d e, s.First t u d ∧ t.First s u e ∧ renameOf d e ∈ c.rename ∧
      ∀ m ∈ c.rename, (∃ d', s.Carries t u d' ∧ d'.name = m.target) → m = renameOf d e

variable {s t : Snapshot}

/-! ### First in the list is first by name -/

variable (hs : s.Named) (ht : t.Named)

include hs in
theorem carries_iff {u : String} {d : Document} :
    s.Carries t u d ↔ d ∈ onlyIn s t ∧ d.uuid? = some u := by
  rw [mem_onlyIn_iff hs]
  exact ⟨fun h => ⟨⟨h.here, h.there⟩, h.uuid⟩, fun h => ⟨h.1.1, h.1.2, h.2⟩⟩

include hs in
/-- The first document of an identifier in the list is the first by name. -/
theorem first_of_firstOf {u : String} {d : Document} (h : firstOf u (onlyIn s t) = some d) :
    s.First t u d := by
  have hsorted : (onlyIn s t).Pairwise fun a b => a.name < b.name :=
    List.pairwise_map.1 (onlyIn_sorted hs t)
  refine ⟨(carries_iff hs).2 ⟨mem_of_firstOf h, uuid?_of_firstOf h⟩, fun e he => ?_⟩
  obtain ⟨hmem, hu⟩ := (carries_iff hs).1 he
  obtain ⟨-, earlier, later, hsplit, hno⟩ := List.find?_eq_some_iff_append.1 h
  rw [hsplit] at hsorted hmem
  -- nothing before it carries the identifier, and what follows it has a later name
  rcases List.mem_append.1 hmem with hearlier | hmem
  · have := hno e hearlier
    simp [hu] at this
  · rcases List.mem_cons.1 hmem with rfl | hlater
    · exact le_refl _
    · exact le_of_lt ((List.pairwise_cons.1 (List.pairwise_append.1 hsorted).2.1).1 e hlater)

include hs in
/-- A list in which an identifier is carried has a first document of it. -/
theorem exists_firstOf {u : String} (h : ∃ d, s.Carries t u d) :
    ∃ d, firstOf u (onlyIn s t) = some d := by
  obtain ⟨d, hd⟩ := h
  obtain ⟨hmem, hu⟩ := (carries_iff hs).1 hd
  rw [← Option.isSome_iff_exists, firstOf, List.find?_isSome]
  exact ⟨d, hmem, by simpa using hu⟩

include hs in
/-- **First in the list is first by name.** -/
theorem firstOf_onlyIn_iff {u : String} {d : Document} :
    firstOf u (onlyIn s t) = some d ↔ s.First t u d := by
  refine ⟨first_of_firstOf hs, fun h => ?_⟩
  obtain ⟨e, he⟩ := exists_firstOf hs ⟨d, h.carries⟩
  rw [he, (first_of_firstOf hs he).unique h]

include hs ht in
/-- The renames of a changelist, by names. -/
theorem mem_rename_iff_first {m : Rename} :
    m ∈ (between s t).rename ↔ ∃ u d e, s.First t u d ∧ t.First s u e ∧ m = renameOf d e := by
  rw [mem_rename_iff]
  exact exists_congr fun u => exists_congr fun d => exists_congr fun e =>
    and_congr (firstOf_onlyIn_iff hs) (and_congr (firstOf_onlyIn_iff ht) Iff.rfl)

/-! ### The names of either side -/

include hs in
/-- The names that only the source knows are created or are new names of renames. -/
theorem mem_create_or_target_iff {n : String} :
    (n ∈ (between s t).create ∨ ∃ m ∈ (between s t).rename, m.target = n) ↔
      (∃ d, s.get? n = some d) ∧ t.get? n = none := by
  rw [← mem_onlyIn_names_iff hs, ← create_append_perm.mem_iff, List.mem_append, List.mem_map]

include ht in
/-- The names that only the target knows are deleted or are old names of renames. -/
theorem mem_delete_or_source_iff {n : String} :
    (n ∈ (between s t).delete ∨ ∃ m ∈ (between s t).rename, m.source = n) ↔
      (∃ e, t.get? n = some e) ∧ s.get? n = none := by
  rw [mem_delete_iff ht]
  constructor
  · rintro (h | ⟨m, hm, rfl⟩)
    · exact h.1
    · exact of_mem_rename_source ht (List.mem_map_of_mem hm)
  · intro h
    by_cases hm : ∃ m ∈ (between s t).rename, m.source = n
    · exact .inr hm
    · exact .inl ⟨h, fun m hmem he => hm ⟨m, hmem, he⟩⟩

/-- A rename is that of the identifier which the document under its new name carries. -/
theorem renameOf_eq_of_carries {u : String} {d d' e : Document} {m : Rename} (hd : s.First t u d)
    (he : t.First s u e) (hm : ∃ v a b, s.First t v a ∧ t.First s v b ∧ m = renameOf a b)
    (hd' : s.Carries t u d') (hname : d'.name = m.target) : m = renameOf d e := by
  obtain ⟨v, a, b, ha, hb, rfl⟩ := hm
  have hda : d' = a := by
    have hhere := hd'.here
    rw [hname, show (renameOf a b).target = a.name from rfl, ha.carries.here] at hhere
    exact (Option.some.inj hhere).symm
  have huv : v = u := by
    have hu := hd'.uuid
    rw [hda, ha.carries.uuid] at hu
    exact Option.some.inj hu
  subst huv
  rw [ha.unique hd, hb.unique he]

include hs ht in
/-- **The changelist of two snapshots describes their difference.** -/
theorem describes_between : (between s t).Describes s t where
  added _ := mem_create_or_target_iff hs
  removed _ := mem_delete_or_source_iff ht
  updated _ := mem_update_iff ht
  disjoint := disjoint_between hs ht
  create_sorted := Changelist.create_sorted hs
  update_sorted := Changelist.update_sorted ht
  delete_sorted := Changelist.delete_sorted ht
  rename_sorted := Changelist.rename_sorted hs
  renamed _ hm := (mem_rename_iff_first hs ht).1 hm
  once u hnew hold := by
    obtain ⟨d, hd⟩ := exists_firstOf hs hnew
    obtain ⟨e, he⟩ := exists_firstOf ht hold
    have hd := first_of_firstOf hs hd
    have he := first_of_firstOf ht he
    refine ⟨d, e, hd, he, (mem_rename_iff_first hs ht).2 ⟨u, d, e, hd, he, rfl⟩, ?_⟩
    rintro m hm ⟨d', hd', hname⟩
    exact renameOf_eq_of_carries hd he ((mem_rename_iff_first hs ht).1 hm) hd' hname

/-- New pages of one identifier, and one that has another content. -/
def newPages : Snapshot :=
  .ofDocuments [⟨"a.new", [(.string "uuid", .string "u")]⟩,
    ⟨"b.new", [(.string "uuid", .string "u")]⟩, ⟨"c.page", [(.string "title", .string "new")]⟩]

/-- Old pages of the same identifier, and one that has another content. -/
def oldPages : Snapshot :=
  .ofDocuments [⟨"c.page", [(.string "title", .string "old")]⟩,
    ⟨"x.old", [(.string "uuid", .string "u"), (.string "title", .string "old")]⟩,
    ⟨"y.old", [(.string "uuid", .string "u")]⟩]

theorem describes_between_pages :
    between newPages oldPages = ⟨["b.new"], ["c.page"], ["y.old"], [⟨"x.old", "a.new", true⟩]⟩ ∧
      (newPages.Named ∧ oldPages.Named) ∧ (between newPages oldPages).Describes newPages oldPages :=
  have hnew : newPages.Named := Snapshot.named_ofDocuments _
  have hold : oldPages.Named := Snapshot.named_ofDocuments _
  ⟨by decide +kernel, ⟨hnew, hold⟩, describes_between hnew hold⟩

end Changelist

end SiteConfig
