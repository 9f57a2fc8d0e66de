/-!
# Finite maps from names, in the order of the names

`SiteConfig.NameMap α` is a finite map whose entries are kept in strictly
increasing order of their keys, so that two maps with the same bindings are the
same value and a listing needs no sorting. The order is that of code points,
which is also the order of the UTF-8 bytes.

The view is `get?`; one lemma per operation says what it does to it
(`SiteConfig.NameMap.get?_insert`, `SiteConfig.NameMap.get?_erase`).
-/

namespace SiteConfig

/-- A finite map from names, its entries in strictly increasing order. -/
structure NameMap (α : Type) where
  entries : List (String × α)
  sorted : entries.Pairwise (fun a b => a.1 < b.1)
  deriving DecidableEq

namespace NameMap

variable {α : Type}

/-! ### Strings are linearly ordered -/

theorem lt_of_not_lt_of_ne {a b : String} (h : ¬a < b) (hne : a ≠ b) : b < a := by
  rcases Decidable.em (b < a) with hb | hb
  · exact hb
  · exact absurd (String.le_antisymm (String.not_lt.1 hb) (String.not_lt.1 h)) hne

/-! ### Entry lists -/

/-- Puts a binding at its place, replacing one that is there. -/
def insertEntry (k : String) (v : α) : List (String × α) → List (String × α)
  | [] => [(k, v)]
  | (k', v') :: r =>
    if k < k' then (k, v) :: (k', v') :: r
    else if k = k' then (k, v) :: r
    else (k', v') :: insertEntry k v r

theorem mem_insertEntry {k : String} {v : α} {l : List (String × α)} {p : String × α}
    (h : p ∈ insertEntry k v l) : p = (k, v) ∨ p ∈ l := by
  induction l with
  | nil => simpa [insertEntry] using h
  | cons q r ih =>
    obtain ⟨k', v'⟩ := q
    simp only [insertEntry] at h
    split at h
    · simpa using h
    · split at h
      · rcases List.mem_cons.1 h with h | h
        · exact .inl h
        · exact .inr (List.mem_cons_of_mem _ h)
      · rcases List.mem_cons.1 h with h | h
        · exact .inr (h ▸ List.mem_cons_self)
        · rcases ih h with h | h
          · exact .inl h
          · exact .inr (List.mem_cons_of_mem _ h)

theorem sorted_insertEntry (k : String) (v : α) {l : List (String × α)}
    (h : l.Pairwise (fun a b => a.1 < b.1)) :
    (insertEntry k v l).Pairwise (fun a b => a.1 < b.1) := by
  induction l with
  | nil => simp [insertEntry]
  | cons q r ih =>
    obtain ⟨k', v'⟩ := q
    obtain ⟨hq, hr⟩ := List.pairwise_cons.1 h
    simp only [insertEntry]
    split
    · rename_i hk
      refine List.pairwise_cons.2 ⟨fun p hp => ?_, h⟩
      rcases List.mem_cons.1 hp with rfl | hp
      · exact hk
      · exact String.lt_trans hk (hq p hp)
    · split
      · rename_i hk
        subst hk
        exact List.pairwise_cons.2 ⟨fun p hp => hq p hp, hr⟩
      · rename_i hk hne
        refine List.pairwise_cons.2 ⟨fun p hp => ?_, ih hr⟩
        rcases mem_insertEntry hp with rfl | hp
        · exact lt_of_not_lt_of_ne hk hne
        · exact hq p hp

/-! ### The operations -/

/-- The map without bindings. -/
def empty : NameMap α := ⟨[], .nil⟩

instance : Inhabited (NameMap α) := ⟨empty⟩
instance : EmptyCollection (NameMap α) := ⟨empty⟩

/-- What a name is bound to. -/
def get? (m : NameMap α) (k : String) : Option α :=
  (m.entries.find? (·.1 == k)).map (·.2)

/-- Whether a name is bound. -/
def contains (m : NameMap α) (k : String) : Bool := (m.get? k).isSome

/-- Binds a name, replacing its former binding. -/
def insert (m : NameMap α) (k : String) (v : α) : NameMap α :=
  ⟨insertEntry k v m.entries, sorted_insertEntry k v m.sorted⟩

/-- Forgets the binding of a name. -/
def erase (m : NameMap α) (k : String) : NameMap α :=
  ⟨m.entries.filter (·.1 != k), m.sorted.filter _⟩

/-- Keeps the bindings that pass a test. -/
def filter (m : NameMap α) (p : String → α → Bool) : NameMap α :=
  ⟨m.entries.filter (fun e => p e.1 e.2), m.sorted.filter _⟩

/-- The bound names, in increasing order. -/
def keys (m : NameMap α) : List String := m.entries.map (·.1)

/-- The bound values, in the order of their names. -/
def values (m : NameMap α) : List α := m.entries.map (·.2)

/-- The number of bindings. -/
def size (m : NameMap α) : Nat := m.entries.length

/-- The map of a list of bindings; of two for one name the later counts. -/
def ofList (l : List (String × α)) : NameMap α :=
  l.foldl (fun m e => m.insert e.1 e.2) empty

/-! ### What the operations do to the view -/

theorem find?_insertEntry (k k' : String) (v : α) (l : List (String × α)) :
    ((insertEntry k v l).find? (·.1 == k')).map (·.2)
      = if k' = k then some v else (l.find? (·.1 == k')).map (·.2) := by
  induction l with
  | nil =>
    simp only [insertEntry, List.find?_cons, List.find?_nil]
    by_cases h : k' = k
    · simp [h]
    · have : (k == k') = false := by simpa using fun e => h e.symm
      simp [h, this]
  | cons q r ih =>
    obtain ⟨q1, q2⟩ := q
    simp only [insertEntry]
    split
    · by_cases h : k' = k
      · simp [h]
      · have : (k == k') = false := by simpa using fun e => h e.symm
        simp [h, this]
    · split
      · rename_i hk
        subst hk
        by_cases h : k' = k
        · simp [h]
        · have : (k == k') = false := by simpa using fun e => h e.symm
          simp [h, this]
      · rename_i hne
        by_cases h : k' = q1
        · subst h
          have : k' ≠ k := fun e => hne e.symm
          simp [this]
        · have : (q1 == k') = false := by simpa using fun e => h e.symm
          simp only [List.find?_cons, this]
          exact ih

@[simp] theorem get?_empty (k : String) : (empty : NameMap α).get? k = none := rfl

theorem get?_insert (m : NameMap α) (k k' : String) (v : α) :
    (m.insert k v).get? k' = if k' = k then some v else m.get? k' :=
  find?_insertEntry k k' v m.entries

theorem find?_filter_ne (k k' : String) (l : List (String × α)) :
    ((l.filter (·.1 != k)).find? (·.1 == k')).map (·.2)
      = if k' = k then none else (l.find? (·.1 == k')).map (·.2) := by
  induction l with
  | nil => simp
  | cons q r ih => grind

theorem get?_erase (m : NameMap α) (k k' : String) :
    (m.erase k).get? k' = if k' = k then none else m.get? k' :=
  find?_filter_ne k k' m.entries

end NameMap

end SiteConfig
