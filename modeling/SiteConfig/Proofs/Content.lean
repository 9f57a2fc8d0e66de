import Mathlib
import SiteConfig.Document

/-!
# Equality of contents

Two values are the same when they differ at most in the order in which mappings list their
entries. What is computed is one-sided: the mappings are equally long, and every entry of
the first one has a partner in the second one. It is reflexive
and transitive on all values (`SiteConfig.Yaml.Value.same_self`,
`SiteConfig.Yaml.Value.same_trans`). That it is symmetric as well needs keys that are not
repeated: with as many entries on both sides, and no two of them with one partner, every
entry of the second mapping is somebody's partner (`SiteConfig.Yaml.exists_partner`). Values
that were read are **proper** in this sense (`SiteConfig.Yaml.Value.Proper`).
-/

namespace SiteConfig

namespace Yaml

/-- If everything on the left has a partner on the right, no two have the same one, and there
are as many on both sides, then the right is made of the partners, in another order. -/
theorem exists_perm_forall₂ {α β : Type} {r : α → β → Prop} {l : List α} {m : List β}
    (hlen : l.length = m.length) (hr : ∀ a ∈ l, ∃ b ∈ m, r a b)
    (hinj : l.Pairwise fun a a' => ∀ b ∈ m, r a b → ¬r a' b) :
    ∃ m', m'.Perm m ∧ List.Forall₂ r l m' := by
  induction l generalizing m with
  | nil =>
    obtain rfl := List.length_eq_zero_iff.1 hlen.symm
    exact ⟨[], .refl [], .nil⟩
  | cons a l ih =>
    obtain ⟨hhead, htail⟩ := List.pairwise_cons.1 hinj
    obtain ⟨b, hb, hab⟩ := hr a List.mem_cons_self
    obtain ⟨m₁, m₂, rfl⟩ := List.append_of_mem hb
    -- the partner of the head is taken out: it is nobody else's
    have hsub : ∀ c ∈ m₁ ++ m₂, c ∈ m₁ ++ b :: m₂ := fun c hc =>
      List.perm_middle.symm.subset (List.mem_cons_of_mem b hc)
    have hlen' : l.length = (m₁ ++ m₂).length := by
      simp only [List.length_append, List.length_cons] at hlen ⊢
      omega
    obtain ⟨m', hperm, hrel⟩ := ih hlen' (fun a' ha' => by
        obtain ⟨c, hc, hac⟩ := hr a' (List.mem_cons_of_mem a ha')
        have hne : c ≠ b := fun h => hhead a' ha' b hb hab (h ▸ hac)
        exact ⟨c, by simpa [hne] using hc, hac⟩)
      (htail.imp fun h c hc => h c (hsub c hc))
    exact ⟨b :: m', (hperm.cons b).trans List.perm_middle.symm, .cons hab hrel⟩

/-- Everything on the right has then a partner on the left. -/
theorem exists_partner {α β : Type} {r : α → β → Prop} {l : List α} {m : List β}
    (hlen : l.length = m.length) (hr : ∀ a ∈ l, ∃ b ∈ m, r a b)
    (hinj : l.Pairwise fun a a' => ∀ b ∈ m, r a b → ¬r a' b) : ∀ b ∈ m, ∃ a ∈ l, r a b := by
  intro b hb
  obtain ⟨m', hperm, hrel⟩ := exists_perm_forall₂ hlen hr hinj
  obtain ⟨k, hk, rfl⟩ := List.getElem_of_mem (hperm.symm.subset hb)
  obtain ⟨hlen', hget⟩ := List.forall₂_iff_get.1 hrel
  exact ⟨l[k], List.getElem_mem _, hget k (hlen' ▸ hk) hk⟩

theorem Number.same_symm (a b : Number) : a.same b = b.same a := by
  cases a <;> cases b <;> simp [same, Binary64.same_symm, Bool.beq_comm]

theorem Number.same_trans {a b c : Number} (h : a.same b = true) (h' : b.same c = true) :
    a.same c = true := by
  cases a <;> cases b <;> cases c <;> simp_all [same]
  exact Binary64.same_trans h h'

namespace Value

/-! ### The same items, the same entries -/

theorem sameItems_iff {xs ys : List Value} :
    sameItems xs ys = true ↔ List.Forall₂ (fun x y => x.same y = true) xs ys := by
  induction xs generalizing ys with
  | nil => cases ys <;> simp [sameItems]
  | cons x xs ih => cases ys <;> simp [sameItems, ih]

/-- Two entries with the same key and the same value. -/
def SameEntry (e f : Value × Value) : Prop := e.1.same f.1 = true ∧ e.2.same f.2 = true

theorem sameEntries_iff {xs ys : Mapping} :
    sameEntries xs ys = true ↔ ∀ e ∈ xs, ∃ f ∈ ys, SameEntry e f := by
  induction xs with
  | nil => simp [sameEntries]
  | cons e xs ih =>
    obtain ⟨k, v⟩ := e
    rw [sameEntries, Bool.and_eq_true, ih, List.forall_mem_cons]
    simp [SameEntry]

theorem sizeOf_lt_of_mem_entries {m : Mapping} {e : Value × Value} (h : e ∈ m) :
    sizeOf e.1 < sizeOf (mapping m) ∧ sizeOf e.2 < sizeOf (mapping m) := by
  have := List.sizeOf_lt_of_mem h
  obtain ⟨k, v⟩ := e
  simp only [Prod.mk.sizeOf_spec, mapping.sizeOf_spec] at *
  omega

theorem sizeOf_lt_of_mem_items {xs : List Value} {v : Value} (h : v ∈ xs) :
    sizeOf v < sizeOf (sequence xs) := by
  have := List.sizeOf_lt_of_mem h
  simp only [sequence.sizeOf_spec]
  omega

theorem same_self (v : Value) : v.same v = true := by
  -- by size: the keys and values of a mapping are no direct parts of it
  induction hn : sizeOf v using Nat.strong_induction_on generalizing v with
  | _ n ih =>
    subst hn
    cases v with
    | null => rfl
    | bool b => simp [same]
    | number a => cases a <;> simp [same, Number.same, Binary64.same_refl]
    | string s => simp [same]
    | sequence xs =>
      rw [same, sameItems_iff, List.forall₂_same]
      exact fun x hx => ih _ (sizeOf_lt_of_mem_items hx) x rfl
    | mapping m =>
      rw [same, beq_self_eq_true, Bool.true_and, sameEntries_iff]
      intro e he
      obtain ⟨hk, hv⟩ := sizeOf_lt_of_mem_entries he
      exact ⟨e, he, ih _ hk e.1 rfl, ih _ hv e.2 rfl⟩
    | tagged t v =>
      rw [same, beq_self_eq_true, Bool.true_and]
      exact ih _ (by simp) v rfl

/-- **Sameness is transitive**, on values that are not proper as well: partners are followed
one after the other. -/
theorem same_trans {a b c : Value} (hab : a.same b = true) (hbc : b.same c = true) :
    a.same c = true := by
  induction hn : sizeOf a using Nat.strong_induction_on generalizing a b c with
  | _ n ih =>
    subst hn
    cases a <;> cases b <;> simp only [same, Bool.false_eq_true] at hab <;> cases c <;>
      simp only [same, Bool.false_eq_true] at hbc ⊢
    case bool.bool.bool => exact (beq_iff_eq.1 hab ▸ hbc)
    case number.number.number => exact Number.same_trans hab hbc
    case string.string.string => exact (beq_iff_eq.1 hab ▸ hbc)
    case sequence.sequence.sequence xs ys zs =>
      rw [sameItems_iff, List.forall₂_iff_get] at hab hbc ⊢
      obtain ⟨hlen, hab⟩ := hab
      refine ⟨hlen.trans hbc.1, fun k hi hk => ?_⟩
      have hlt := sizeOf_lt_of_mem_items (List.get_mem xs ⟨k, hi⟩)
      exact ih _ hlt (hab k hi (hlen ▸ hi)) (hbc.2 k (hlen ▸ hi) hk) rfl
    case mapping.mapping.mapping xs ys zs =>
      rw [Bool.and_eq_true, beq_iff_eq, sameEntries_iff] at hab hbc ⊢
      refine ⟨hab.1.trans hbc.1, fun e he => ?_⟩
      -- the partner of a partner is a partner
      obtain ⟨f, hf, hef⟩ := hab.2 e he
      obtain ⟨g, hg, hfg⟩ := hbc.2 f hf
      obtain ⟨hk, hv⟩ := sizeOf_lt_of_mem_entries he
      exact ⟨g, hg, ih _ hk hef.1 hfg.1 rfl, ih _ hv hef.2 hfg.2 rfl⟩
    case tagged.tagged.tagged s v t w u z =>
      rw [Bool.and_eq_true, beq_iff_eq] at hab hbc ⊢
      exact ⟨hab.1.trans hbc.1, ih _ (by simp) hab.2 hbc.2 rfl⟩

/-! ### Proper values -/

theorem properItems_iff {xs : List Value} : ProperItems xs ↔ ∀ v ∈ xs, v.Proper := by
  induction xs with
  | nil => simp [ProperItems]
  | cons v xs ih => simp [ProperItems, ih]

theorem properEntries_iff {m : Mapping} : ProperEntries m ↔ ∀ e ∈ m, e.1.Proper ∧ e.2.Proper := by
  induction m with
  | nil => simp [ProperEntries]
  | cons e m ih =>
    obtain ⟨k, v⟩ := e
    rw [ProperEntries, ih, List.forall_mem_cons, and_assoc]

theorem hasDuplicate_eq_false_iff {m : Mapping} :
    Mapping.hasDuplicate m = false ↔ m.Pairwise fun e f => e.1.same f.1 = false := by
  induction m with
  | nil => simp [Mapping.hasDuplicate]
  | cons e m ih =>
    rw [Mapping.hasDuplicate, Bool.or_eq_false_iff, ih, List.pairwise_cons]
    simp

theorem proper_mapping_iff {m : Mapping} :
    (mapping m).Proper ↔ m.Pairwise (fun e f => e.1.same f.1 = false) ∧
      ∀ e ∈ m, e.1.Proper ∧ e.2.Proper := by
  rw [Proper, hasDuplicate_eq_false_iff, properEntries_iff]

/-! ### Symmetry -/

/-- Two entries of a proper mapping do not have one partner: their keys would be the same. -/
theorem pairwise_not_sameEntry {m m' : Mapping} (pm : (mapping m).Proper)
    (hsymm : ∀ f ∈ m', ∀ e ∈ m, SameEntry e f → SameEntry f e) :
    m.Pairwise fun e e' => ∀ f ∈ m', SameEntry e f → ¬SameEntry e' f := by
  refine (proper_mapping_iff.1 pm).1.imp_of_mem fun {e e'} _ he' hne f hf h h' => ?_
  have hkey := same_trans h.1 (hsymm f hf e' he' h').1
  rw [hne] at hkey
  cases hkey

/-- **On proper values sameness is symmetric.** -/
theorem Proper.same_symm {a b : Value} (pa : a.Proper) (pb : b.Proper) (hab : a.same b = true) :
    b.same a = true := by
  induction hn : sizeOf a using Nat.strong_induction_on generalizing a b with
  | _ n ih =>
    subst hn
    cases a <;> cases b <;> simp only [same, Bool.false_eq_true] at hab ⊢
    case bool.bool => exact beq_iff_eq.2 (beq_iff_eq.1 hab).symm
    case number.number => rw [Number.same_symm, hab]
    case string.string => exact beq_iff_eq.2 (beq_iff_eq.1 hab).symm
    case sequence.sequence xs ys =>
      rw [Proper, properItems_iff] at pa pb
      rw [sameItems_iff, List.forall₂_iff_get] at hab ⊢
      refine ⟨hab.1.symm, fun k hj hi => ?_⟩
      have hx := List.get_mem xs ⟨k, hi⟩
      have hy := List.get_mem ys ⟨k, hj⟩
      exact ih _ (sizeOf_lt_of_mem_items hx) (pa _ hx) (pb _ hy) (hab.2 k hi hj) rfl
    case mapping.mapping xs ys =>
      -- entries are related both ways once their parts are, and partners are unique
      have hsymm : ∀ f ∈ ys, ∀ e ∈ xs, SameEntry e f → SameEntry f e := by
        rintro f hf e he ⟨hk, hv⟩
        obtain ⟨pk, pv⟩ := (proper_mapping_iff.1 pa).2 e he
        obtain ⟨pk', pv'⟩ := (proper_mapping_iff.1 pb).2 f hf
        obtain ⟨hltk, hltv⟩ := sizeOf_lt_of_mem_entries he
        exact ⟨ih _ hltk pk pk' hk rfl, ih _ hltv pv pv' hv rfl⟩
      rw [Bool.and_eq_true, beq_iff_eq, sameEntries_iff] at hab ⊢
      refine ⟨hab.1.symm, fun f hf => ?_⟩
      obtain ⟨e, he, hef⟩ := exists_partner hab.1 hab.2 (pairwise_not_sameEntry pa hsymm) f hf
      exact ⟨e, he, hsymm f hf e he hef⟩
    case tagged.tagged s v t w =>
      rw [Proper] at pa pb
      rw [Bool.and_eq_true, beq_iff_eq] at hab ⊢
      exact ⟨hab.1.symm, ih _ (by simp) pa pb hab.2 rfl⟩

end Value

/-- What is left of a proper mapping without a key is proper. -/
theorem Value.Proper.remove {m : Mapping} (h : (mapping m).Proper) (key : String) :
    (mapping (m.remove key)).Proper := by
  rw [proper_mapping_iff] at h ⊢
  exact ⟨h.1.filter _, fun e he => h.2 e (List.mem_filter.1 he).1⟩

end Yaml

namespace Document

/-- A document with proper data. -/
def Proper (d : Document) : Prop := (Yaml.Value.mapping d.data).Proper

theorem sameContent_self (d : Document) : d.sameContent d = true := Yaml.Value.same_self (.mapping d.data)

theorem Proper.sameContent_symm {a b : Document} (pa : a.Proper) (pb : b.Proper)
    (h : a.sameContent b = true) : b.sameContent a = true :=
  Yaml.Value.Proper.same_symm pa pb h

theorem sameContent_trans {a b c : Document} (h : a.sameContent b = true)
    (h' : b.sameContent c = true) : a.sameContent c = true :=
  Yaml.Value.same_trans (a := .mapping a.data) (b := .mapping b.data) (c := .mapping c.data) h h'

theorem Proper.removeAll {d : Document} (h : d.Proper) (keys : List String) :
    (d.removeAll keys).Proper := by
  unfold Document.removeAll
  induction keys generalizing d with
  | nil => exact h
  | cons k keys ih => exact ih (Yaml.Value.Proper.remove h k)

/-- **What is left when some keys are removed**: the entries of all other keys, as they were. -/
theorem removeAll_eq (d : Document) (keys : List String) : d.removeAll keys =
    ⟨d.name, d.data.filter fun e => keys.all fun key => !Yaml.Mapping.hasKey key e⟩ := by
  induction keys generalizing d with
  | nil => exact congrArg (Document.mk d.name) (List.filter_eq_self.2 fun _ _ => rfl).symm
  | cons key keys ih =>
    rw [removeAll, List.foldl_cons]
    refine (ih (d.remove key)).trans ?_
    rw [remove, Yaml.Mapping.remove, List.filter_filter, Document.mk.injEq]
    refine ⟨rfl, List.filter_congr fun e _ => ?_⟩
    rw [List.all_cons, Bool.and_comm]

end Document

end SiteConfig
