import Mathlib
import SiteConfig.NameMap

/-!
# Maps from names as sets of bindings

A `SiteConfig.NameMap` keeps its entries in strictly increasing order, so that everything
about it follows from what each name is bound to: the entries are the bindings
(`SiteConfig.NameMap.mem_entries_iff`), the keys are the bound names in order, and two maps
with the same bindings are equal (`SiteConfig.NameMap.ext_get?`).
-/

namespace SiteConfig.NameMap

variable {α : Type}

/-- Two lists of strings in strictly increasing order with the same members are equal. -/
theorem eq_of_mem_iff {l l' : List String} (h : l.Pairwise (· < ·)) (h' : l'.Pairwise (· < ·))
    (hmem : ∀ k, k ∈ l ↔ k ∈ l') : l = l' :=
  h.eq_of_mem_iff h' (fun {k} => hmem k)

/-- Sorting strings puts them in order. -/
theorem sorted_mergeSort (l : List String) :
    (l.mergeSort fun a b => !(b < a : Bool)).Pairwise (· ≤ ·) := by
  have hle : ∀ a b : String, (!(b < a : Bool)) = true ↔ a ≤ b := fun a b => by
    rw [Bool.not_eq_true', decide_eq_false_iff_not, not_lt]
  have hsorted := @List.pairwise_mergeSort _ (fun a b : String => !(b < a : Bool))
    (fun a b c hab hbc => (hle a c).2 (((hle a b).1 hab).trans ((hle b c).1 hbc)))
    (fun a b => by
      rw [Bool.or_eq_true, hle, hle]
      exact le_total a b) l
  exact hsorted.imp fun hab => (hle _ _).1 hab

/-! ### Bindings -/

theorem mem_entries_iff {m : NameMap α} {k : String} {v : α} :
    (k, v) ∈ m.entries ↔ m.get? k = some v := by
  unfold get?
  constructor
  · intro h
    -- an earlier entry of the same key would be smaller than itself
    obtain ⟨as, bs, hsplit⟩ := List.append_of_mem h
    have hno : ∀ e ∈ as, ¬(e.1 == k) = true := by
      intro e he hek
      have hlt := (List.pairwise_append.1 (hsplit ▸ m.sorted)).2.2 e he (k, v) List.mem_cons_self
      rw [beq_iff_eq] at hek
      exact String.lt_irrefl k (hek ▸ hlt)
    rw [hsplit, List.find?_append, List.find?_eq_none.2 hno]
    simp
  · intro h
    obtain ⟨⟨k', v'⟩, hfind, rfl⟩ := Option.map_eq_some_iff.1 h
    have hk : k' = k := by simpa using List.find?_some hfind
    exact hk ▸ List.mem_of_find?_eq_some hfind

/-- Maps with the same bindings are equal. -/
theorem ext_get? {m m' : NameMap α} (h : ∀ k, m.get? k = m'.get? k) : m = m' := by
  have hmem : ∀ e, e ∈ m.entries ↔ e ∈ m'.entries := fun ⟨k, v⟩ => by
    rw [mem_entries_iff, mem_entries_iff, h]
  obtain ⟨l, hl⟩ := m
  obtain ⟨l', hl'⟩ := m'
  have : l = l' := by
    refine List.Perm.eq_of_pairwise (fun a b _ _ hab hba => ?_) hl hl' ?_
    · exact absurd (String.lt_trans hab hba) (String.lt_irrefl _)
    · have hn : ∀ {l : List (String × α)}, l.Pairwise (fun a b => a.1 < b.1) → l.Nodup := by
        intro l h
        refine h.imp fun {a b} hab he => ?_
        subst he
        exact String.lt_irrefl _ hab
      exact (List.perm_ext_iff_of_nodup (hn hl) (hn hl')).2 hmem
  subst this
  rfl

theorem ext_entries {m m' : NameMap α} (h : m.entries = m'.entries) : m = m' := by
  cases m
  cases m'
  cases h
  rfl

theorem contains_iff {m : NameMap α} {k : String} :
    m.contains k = true ↔ ∃ v, m.get? k = some v := by
  rw [contains, Option.isSome_iff_exists]

theorem contains_eq_false_iff {m : NameMap α} {k : String} :
    m.contains k = false ↔ m.get? k = none := by
  rw [contains, Option.isSome_eq_false_iff, Option.isNone_iff_eq_none]

/-! ### Keys and values -/

theorem mem_keys_iff {m : NameMap α} {k : String} : k ∈ m.keys ↔ ∃ v, m.get? k = some v := by
  rw [keys, List.mem_map]
  constructor
  · rintro ⟨⟨k', v⟩, he, rfl⟩
    exact ⟨v, mem_entries_iff.1 he⟩
  · rintro ⟨v, hv⟩
    exact ⟨(k, v), mem_entries_iff.2 hv, rfl⟩

theorem contains_of_mem_keys {m : NameMap α} {k : String} (h : k ∈ m.keys) : m.contains k = true :=
  contains_iff.2 (mem_keys_iff.1 h)

theorem keys_sorted (m : NameMap α) : m.keys.Pairwise (· < ·) :=
  List.pairwise_map.2 m.sorted

theorem nodup_of_sorted {l : List String} (h : l.Pairwise (· < ·)) : l.Nodup :=
  h.imp fun hab => ne_of_lt hab

theorem nodup_keys (m : NameMap α) : m.keys.Nodup := nodup_of_sorted m.keys_sorted

theorem mem_values_iff {m : NameMap α} {v : α} : v ∈ m.values ↔ ∃ k, m.get? k = some v := by
  rw [values, List.mem_map]
  constructor
  · rintro ⟨⟨k, v'⟩, he, rfl⟩
    exact ⟨k, mem_entries_iff.1 he⟩
  · rintro ⟨k, hk⟩
    exact ⟨(k, v), mem_entries_iff.2 hk, rfl⟩

/-! ### Maps of some names -/

theorem get?_filter_key (m : NameMap α) (p : String → Bool) (k : String) :
    (m.filter fun n _ => p n).get? k = if p k then m.get? k else none := by
  ext v
  rw [← mem_entries_iff]
  show (k, v) ∈ m.entries.filter (fun e => p e.1) ↔ _
  rw [List.mem_filter, mem_entries_iff]
  rcases p k with _ | _ <;> simp

theorem keys_filter_key (m : NameMap α) (p : String → Bool) :
    (m.filter fun n _ => p n).keys = m.keys.filter p := by
  show (m.entries.filter fun e => p e.1).map (·.1) = (m.entries.map (·.1)).filter p
  rw [List.filter_map]
  rfl

/-! ### Maps of lists -/

theorem ofList_append (l : List (String × α)) (e : String × α) :
    ofList (l ++ [e]) = (ofList l).insert e.1 e.2 := by
  simp [ofList]

theorem mem_of_get?_ofList {l : List (String × α)} {k : String} {v : α}
    (h : (ofList l).get? k = some v) : (k, v) ∈ l := by
  induction l using List.reverseRecOn with
  | nil => cases h
  | append_singleton l e ih =>
    rw [ofList_append, get?_insert] at h
    split at h
    · rename_i hk
      cases h
      subst hk
      exact List.mem_append_right _ List.mem_cons_self
    · exact List.mem_append_left _ (ih h)

/-- A list that binds no name to two values is a map as it is. -/
theorem get?_ofList_eq_some_iff {l : List (String × α)}
    (hl : ∀ k v w, (k, v) ∈ l → (k, w) ∈ l → v = w) {k : String} {v : α} :
    (ofList l).get? k = some v ↔ (k, v) ∈ l := by
  refine ⟨mem_of_get?_ofList, fun h => ?_⟩
  rcases hget : (ofList l).get? k with _ | w
  · exfalso
    induction l using List.reverseRecOn with
    | nil => cases h
    | append_singleton l e ih =>
      rw [ofList_append, get?_insert] at hget
      split at hget
      · cases hget
      · rename_i hne
        rcases List.mem_append.1 h with h | h
        · exact ih (fun k v w hv hw => hl k v w (List.mem_append_left _ hv)
            (List.mem_append_left _ hw)) h hget
        · obtain rfl := List.mem_singleton.1 h
          exact hne rfl
  · rw [hl k w v (mem_of_get?_ofList hget) h]

end SiteConfig.NameMap
