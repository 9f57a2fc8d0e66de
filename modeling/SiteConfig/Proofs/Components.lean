import Mathlib
import SiteConfig.Proofs.Ordering

/-!
# Knots

A **knot** of a relation is a set of things that all lead to one another and to nothing else
that leads back: a strongly connected component, with more than one member or with one that
is related to itself (`SiteConfig.IsKnot`). Knots are what a report of cycles has to name.
There is one exactly when something leads to itself, but two cycles that share a member are
one knot, and what merely leads into a knot does not belong to it.

A step graph looks for its knots by walking, and Kahn's method fails by counting; nothing in
either mentions the other. Yet the method fails exactly on the graphs in which the walks find
something (`SiteConfig.StepGraph.order?_eq_none_iff`,
`SiteConfig.StepGraph.listsKnots_components`).
-/

namespace SiteConfig

open Relation (ReflTransGen TransGen)

/-! ### Knots of a relation -/

section Knots

variable {α β : Type} {r : α → α → Prop}

/-- Two things lead to one another. -/
def Mutual (r : α → α → Prop) (a b : α) : Prop := ReflTransGen r a b ∧ ReflTransGen r b a

/-- **A knot**: everything that one thing leads to and that leads back to it, in some order,
if that is more than one thing or one that is related to itself. -/
structure IsKnot (r : α → α → Prop) (members : List α) : Prop where
  nodup : members.Nodup
  component : ∃ a ∈ members, ∀ b, b ∈ members ↔ Mutual r a b
  cyclic : 1 < members.length ∨ ∃ a ∈ members, r a a

/-- Some lists are all the knots of a relation, each once. -/
structure ListsKnots (r : α → α → Prop) (found : List (List α)) : Prop where
  sound : ∀ members ∈ found, IsKnot r members
  complete : ∀ members, IsKnot r members → ∃ listed ∈ found, listed.Perm members
  disjoint : found.Pairwise List.Disjoint

theorem Mutual.symm {a b : α} (h : Mutual r a b) : Mutual r b a := ⟨h.2, h.1⟩

theorem Mutual.trans {a b c : α} (h : Mutual r a b) (h' : Mutual r b c) : Mutual r a c :=
  ⟨h.1.trans h'.1, h'.2.trans h.2⟩

/-- What leads to something else has a successor. -/
theorem exists_rel_of_ne {a b : α} (h : ReflTransGen r a b) (hne : a ≠ b) : ∃ c, r a c := by
  rcases ReflTransGen.cases_head h with rfl | ⟨c, hac, -⟩
  · exact absurd rfl hne
  · exact ⟨c, hac⟩

theorem IsKnot.mutual {members : List α} (h : IsKnot r members) {a b : α} (ha : a ∈ members)
    (hb : b ∈ members) : Mutual r a b := by
  obtain ⟨c, -, hc⟩ := h.component
  exact ((hc a).1 ha).symm.trans ((hc b).1 hb)

theorem IsKnot.mem_of_mutual {members : List α} (h : IsKnot r members) {a b : α}
    (ha : a ∈ members) (hab : Mutual r a b) : b ∈ members := by
  obtain ⟨c, -, hc⟩ := h.component
  exact (hc b).2 (((hc a).1 ha).trans hab)

/-- A knot has something other than a given thing, unless that is related to itself. -/
theorem IsKnot.self_or_exists_ne {members : List α} (h : IsKnot r members) (a : α) :
    r a a ∨ ∃ b ∈ members, b ≠ a := by
  by_cases hne : ∃ b ∈ members, b ≠ a
  · exact .inr hne
  · have hall : ∀ b ∈ members, b = a := fun b hb => by
      by_contra hba
      exact hne ⟨b, hb, hba⟩
    rcases h.cyclic with hlen | ⟨b, hb, hbb⟩
    · -- two members cannot both be this one
      have hle := h.nodup
      rw [List.eq_replicate_iff.2 ⟨rfl, hall⟩, List.nodup_replicate] at hle
      omega
    · exact .inl (hall b hb ▸ hbb)

/-- Every member of a knot has a successor. -/
theorem IsKnot.exists_rel {members : List α} (h : IsKnot r members) {a : α} (ha : a ∈ members) :
    ∃ b, r a b := by
  rcases h.self_or_exists_ne a with haa | ⟨b, hb, hne⟩
  · exact ⟨a, haa⟩
  · exact exists_rel_of_ne (h.mutual ha hb).1 hne.symm

/-- **Every member of a knot leads to itself.** -/
theorem IsKnot.transGen {members : List α} (h : IsKnot r members) {a : α} (ha : a ∈ members) :
    TransGen r a a := by
  rcases h.self_or_exists_ne a with haa | ⟨b, hb, hne⟩
  · exact .single haa
  · obtain ⟨hab, hba⟩ := h.mutual ha hb
    rcases Relation.reflTransGen_iff_eq_or_transGen.1 hab with heq | hab
    · exact absurd heq hne
    · exact hab.trans_left hba

/-- Where nothing leads to itself there are no knots. -/
theorem listsKnots_nil (h : ¬∃ a, TransGen r a a) : ListsKnots r [] where
  sound := by simp
  complete members hm := by
    obtain ⟨a, ha, -⟩ := hm.component
    exact absurd ⟨a, hm.transGen ha⟩ h
  disjoint := .nil

/-- Turning a relation around keeps what is mutual. -/
theorem mutual_swap {a b : α} : Mutual (fun a b => r b a) a b ↔ Mutual r a b := by
  have hswap : ∀ {a b}, ReflTransGen (fun a b => r b a) a b ↔ ReflTransGen r b a :=
    Relation.reflTransGen_swap
  rw [Mutual, hswap, hswap]
  exact and_comm

/-- Turning a relation around keeps its knots. -/
theorem isKnot_swap {members : List α} : IsKnot (fun a b => r b a) members ↔ IsKnot r members := by
  constructor
  · rintro ⟨hn, ⟨a, ha, hc⟩, hcyc⟩
    exact ⟨hn, ⟨a, ha, fun b => (hc b).trans mutual_swap⟩, hcyc⟩
  · rintro ⟨hn, ⟨a, ha, hc⟩, hcyc⟩
    exact ⟨hn, ⟨a, ha, fun b => (hc b).trans mutual_swap.symm⟩, hcyc⟩

theorem ListsKnots.swap {found : List (List α)} (h : ListsKnots (fun a b => r b a) found) :
    ListsKnots r found :=
  ⟨fun m hm => isKnot_swap.1 (h.sound m hm), fun m hm => h.complete m (isKnot_swap.2 hm),
    h.disjoint⟩

/-! ### Other names -/

/-- One relation is another one under other names, which are good for the things that the
other one is about. -/
structure Renames (r : α → α → Prop) (r' : β → β → Prop) (f : α → β) (p : α → Prop) : Prop where
  injective : ∀ a b, p a → p b → f a = f b → a = b
  left : ∀ a b, r a b → p a
  right : ∀ a b, r a b → p b
  rel : ∀ i j, r' i j ↔ ∃ a b, r a b ∧ f a = i ∧ f b = j

variable {r' : β → β → Prop} {f : α → β} {p : α → Prop} (h : Renames r r' f p)

include h in
theorem Renames.lead {a b : α} (hab : ReflTransGen r a b) : ReflTransGen r' (f a) (f b) := by
  induction hab with
  | refl => exact .refl
  | tail _ hstep ih => exact ih.tail ((h.rel _ _).2 ⟨_, _, hstep, rfl, rfl⟩)

include h in
/-- Whatever something leads to under other names has a name of its own. -/
theorem Renames.exists_lead {a : α} (ha : p a) {j : β} (hj : ReflTransGen r' (f a) j) :
    ∃ b, p b ∧ f b = j ∧ ReflTransGen r a b := by
  induction hj with
  | refl => exact ⟨a, ha, rfl, .refl⟩
  | tail _ hstep ih =>
    obtain ⟨b, hb, rfl, hab⟩ := ih
    obtain ⟨b', c, hbc, hname, rfl⟩ := (h.rel _ _).1 hstep
    obtain rfl := h.injective b' b (h.left _ _ hbc) hb hname
    exact ⟨c, h.right _ _ hbc, rfl, hab.tail hbc⟩

include h in
theorem Renames.mutual_iff {a b : α} (ha : p a) (hb : p b) :
    Mutual r' (f a) (f b) ↔ Mutual r a b := by
  have hlead : ∀ {a b}, p a → p b → ReflTransGen r' (f a) (f b) → ReflTransGen r a b := by
    intro a b ha hb hab
    obtain ⟨b', hb', hname, hab'⟩ := h.exists_lead ha hab
    exact h.injective b' b hb' hb hname ▸ hab'
  exact ⟨fun hm => ⟨hlead ha hb hm.1, hlead hb ha hm.2⟩, fun hm => ⟨h.lead hm.1, h.lead hm.2⟩⟩

include h in
/-- Something leads to itself under other names just when something does under its own. -/
theorem Renames.exists_transGen_iff : (∃ i, TransGen r' i i) ↔ ∃ a, TransGen r a a := by
  constructor
  · rintro ⟨i, hi⟩
    obtain ⟨j, hij, hji⟩ := TransGen.head'_iff.1 hi
    obtain ⟨a, b, hab, rfl, rfl⟩ := (h.rel _ _).1 hij
    obtain ⟨a', ha', hname, hba⟩ := h.exists_lead (h.right _ _ hab) hji
    obtain rfl := h.injective a' a ha' (h.left _ _ hab) hname
    exact ⟨a', .head' hab hba⟩
  · rintro ⟨a, ha⟩
    obtain ⟨b, hab, hba⟩ := TransGen.head'_iff.1 ha
    exact ⟨f a, .head' ((h.rel _ _).2 ⟨a, b, hab, rfl, rfl⟩) (h.lead hba)⟩

include h in
theorem Renames.of_mem {members : List α} (hm : IsKnot r members) {a : α} (ha : a ∈ members) :
    p a := by
  obtain ⟨b, hab⟩ := hm.exists_rel ha
  exact h.left a b hab

include h in
/-- A knot is a knot under other names. -/
theorem Renames.isKnot_map {members : List α} (hm : IsKnot r members) :
    IsKnot r' (members.map f) where
  nodup := hm.nodup.map_on fun a ha b hb => h.injective a b (h.of_mem hm ha) (h.of_mem hm hb)
  component := by
    obtain ⟨a, ha, -⟩ := hm.component
    refine ⟨f a, List.mem_map_of_mem ha, fun j => ⟨fun hj => ?_, fun hj => ?_⟩⟩
    · obtain ⟨b, hb, rfl⟩ := List.mem_map.1 hj
      exact (h.mutual_iff (h.of_mem hm ha) (h.of_mem hm hb)).2 (hm.mutual ha hb)
    · obtain ⟨b, hb, rfl, -⟩ := h.exists_lead (h.of_mem hm ha) hj.1
      exact List.mem_map_of_mem
        (hm.mem_of_mutual ha ((h.mutual_iff (h.of_mem hm ha) hb).1 hj))
  cyclic := by
    rw [List.length_map]
    refine hm.cyclic.imp_right ?_
    rintro ⟨a, ha, haa⟩
    exact ⟨f a, List.mem_map_of_mem ha, (h.rel _ _).2 ⟨a, a, haa, rfl, rfl⟩⟩

/-- Things that each have a name of their own are the list of those names. -/
theorem exists_map_eq {members : List β} (h : ∀ i ∈ members, ∃ a, p a ∧ f a = i) :
    ∃ named : List α, (∀ a ∈ named, p a) ∧ named.map f = members := by
  induction members with
  | nil => exact ⟨[], by simp⟩
  | cons i members ih =>
    obtain ⟨⟨a, ha, rfl⟩, hrest⟩ := List.forall_mem_cons.1 h
    obtain ⟨named, hp, rfl⟩ := ih hrest
    exact ⟨a :: named, List.forall_mem_cons.2 ⟨ha, hp⟩, rfl⟩

include h in
/-- A knot under other names is one under the own names. -/
theorem Renames.exists_isKnot {members : List β} (hm : IsKnot r' members) :
    ∃ named, IsKnot r named ∧ named.map f = members := by
  have hname : ∀ i ∈ members, ∃ a, p a ∧ f a = i := by
    intro i hi
    obtain ⟨j, hij⟩ := hm.exists_rel hi
    obtain ⟨a, b, hab, rfl, -⟩ := (h.rel _ _).1 hij
    exact ⟨a, h.left a b hab, rfl⟩
  obtain ⟨named, hp, rfl⟩ := exists_map_eq hname
  refine ⟨named, ⟨hm.nodup.of_map, ?_, ?_⟩, rfl⟩
  · obtain ⟨i, hi, -⟩ := hm.component
    obtain ⟨a, ha, rfl⟩ := List.mem_map.1 hi
    refine ⟨a, ha, fun b => ⟨fun hb => ?_, fun hb => ?_⟩⟩
    · exact (h.mutual_iff (hp a ha) (hp b hb)).1 (hm.mutual hi (List.mem_map_of_mem hb))
    · -- the member of that name is the one that is meant
      obtain ⟨c, hc, hname⟩ := List.mem_map.1
        (hm.mem_of_mutual hi ⟨h.lead hb.1, h.lead hb.2⟩)
      have hpb : p b := by
        by_cases hba : b = a
        · exact hba ▸ hp a ha
        · obtain ⟨d, hbd⟩ := exists_rel_of_ne hb.2 hba
          exact h.left b d hbd
      exact h.injective c b (hp c hc) hpb hname ▸ hc
  · have hcyc := hm.cyclic
    rw [List.length_map] at hcyc
    refine hcyc.imp_right ?_
    rintro ⟨i, hi, hii⟩
    obtain ⟨a, ha, rfl⟩ := List.mem_map.1 hi
    obtain ⟨b, c, hbc, hb, hc⟩ := (h.rel _ _).1 hii
    obtain rfl := h.injective b a (h.left _ _ hbc) (hp a ha) hb
    obtain rfl := h.injective c b (h.right _ _ hbc) (hp b ha) hc
    exact ⟨c, ha, hbc⟩

include h in
/-- **The knots under other names** are the knots under the own names. -/
theorem Renames.listsKnots {found : List (List α)} (hf : ListsKnots r found) :
    ListsKnots r' (found.map (List.map f)) where
  sound members hm := by
    obtain ⟨named, hnamed, rfl⟩ := List.mem_map.1 hm
    exact h.isKnot_map (hf.sound named hnamed)
  complete members hm := by
    obtain ⟨named, hnamed, rfl⟩ := h.exists_isKnot hm
    obtain ⟨listed, hlisted, hperm⟩ := hf.complete named hnamed
    exact ⟨listed.map f, List.mem_map_of_mem hlisted, hperm.map f⟩
  disjoint := by
    refine List.pairwise_map.2 (hf.disjoint.imp_of_mem fun {m m'} hm hm' hdis i hi hi' => ?_)
    obtain ⟨a, ha, rfl⟩ := List.mem_map.1 hi
    obtain ⟨b, hb, hname⟩ := List.mem_map.1 hi'
    have hpa := h.of_mem (hf.sound m hm) ha
    have hpb := h.of_mem (hf.sound m' hm') hb
    exact hdis ha (h.injective b a hpb hpa hname ▸ hb)

end Knots

/-! ### The knots of a step graph -/

namespace StepGraph

variable {g : StepGraph}

/-- The positions that lead to a position and that it leads to. -/
def componentOf (g : StepGraph) (n : ℕ) : List ℕ := (List.range g.size).filter (g.connected n)

theorem mem_componentOf (hg : g.WellFormed) {n m : ℕ} (hn : n < g.size) :
    m ∈ g.componentOf n ↔ Mutual (fun a b => g.precedes a b = true) n m := by
  rw [componentOf, List.mem_filter, List.mem_range]
  constructor
  · rintro ⟨hm, hc⟩
    exact (connected_iff hg hn hm).1 hc
  · intro h
    have hm : m < g.size := lt_size_of_leads hg hn h.1
    exact ⟨hm, (connected_iff hg hn hm).2 h⟩

/-- The components that are found are those of the positions that are looked at. -/
theorem mem_componentsOf_iff (hg : g.WellFormed) {l : List ℕ} (hl : ∀ m ∈ l, m < g.size)
    {members : List ℕ} :
    members ∈ g.componentsOf l ↔ ∃ n ∈ l, members = g.componentOf n := by
  constructor
  · intro h
    induction l with
    | nil => simp [componentsOf] at h
    | cons n l ih =>
      have htail := fun h => ih (fun m hm => hl m (List.mem_cons_of_mem _ hm)) h
      rw [componentsOf] at h
      split at h
      · obtain ⟨m, hm, rfl⟩ := htail h
        exact ⟨m, List.mem_cons_of_mem _ hm, rfl⟩
      · rcases List.mem_cons.1 h with rfl | h
        · exact ⟨n, List.mem_cons_self, rfl⟩
        · obtain ⟨m, hm, rfl⟩ := htail h
          exact ⟨m, List.mem_cons_of_mem _ hm, rfl⟩
  · rintro ⟨n, hn, rfl⟩
    obtain ⟨m, hm, hnm, hmem⟩ := exists_component hg hl hn
    -- connected positions have one component
    have hmut : Mutual (fun a b => g.precedes a b = true) n m :=
      (connected_iff hg (hl n hn) (hl m hm)).1 hnm
    have heq : g.componentOf n = g.componentOf m :=
      List.filter_congr fun k hk => by
        have hk := List.mem_range.1 hk
        rw [Bool.eq_iff_iff, connected_iff hg (hl n hn) hk, connected_iff hg (hl m hm) hk]
        exact ⟨fun h => hmut.symm.trans h, fun h => hmut.trans h⟩
    rw [heq]
    exact hmem

/-- No position is found in two components. -/
theorem disjoint_componentsOf (hg : g.WellFormed) {l : List ℕ} (hl : ∀ m ∈ l, m < g.size) :
    (g.componentsOf l).Pairwise List.Disjoint := by
  induction l with
  | nil => exact .nil
  | cons n l ih =>
    have hl' : ∀ m ∈ l, m < g.size := fun m hm => hl m (List.mem_cons_of_mem _ hm)
    rw [componentsOf]
    split
    · exact ih hl'
    · rename_i hno
      refine List.pairwise_cons.2 ⟨fun members hmem k hk hk' => hno ?_, ih hl'⟩
      obtain ⟨m, hm, rfl⟩ := (mem_componentsOf_iff hg hl').1 hmem
      have hn := hl n List.mem_cons_self
      refine List.any_eq_true.2 ⟨m, hm, (connected_iff hg hn (hl' m hm)).2 ?_⟩
      exact Mutual.trans ((mem_componentOf hg hn).1 hk)
        ((mem_componentOf hg (hl' m hm)).1 hk').symm

theorem isCycle_iff {members : List ℕ} : g.isCycle members = true ↔
    1 < members.length ∨ ∃ n, members = [n] ∧ g.precedes n n = true := by
  match members with
  | [] => simp [isCycle]
  | [n] => simp [isCycle, precedes]
  | m :: n :: l => simp [isCycle]

/-- **Kahn's method fails** exactly on the graphs with a cycle. -/
theorem order?_eq_none_iff (hg : g.WellFormed) : g.order? = none ↔ g.Cyclic := by
  rw [← not_iff_not, ← complete_iff_not_cyclic hg, ← ne_eq, Option.ne_none_iff_exists']
  exact ⟨fun ⟨steps, h⟩ => ((order?_eq_some_iff hg).1 h).1,
    fun h => ⟨_, (order?_eq_some_iff hg).2 ⟨h, rfl⟩⟩⟩

/-- A position that has a successor is one of the graph. -/
theorem lt_size_of_precedes (hg : g.WellFormed) {a b : ℕ} (h : g.precedes a b = true) :
    a < g.size := (hg.bound _ (precedes_iff.1 h)).1

/-- **The cycles that are found are the knots of the graph**, each once. -/
theorem listsKnots_components (hg : g.WellFormed) :
    ListsKnots (fun a b => g.precedes a b = true)
      ((g.componentsOf g.leavingOrder).filter g.isCycle) := by
  have hlt : ∀ m ∈ g.leavingOrder, m < g.size := fun m hm => (mem_leavingOrder_iff hg).1 hm
  refine ⟨fun members hm => ?_, fun members hm => ?_, (disjoint_componentsOf hg hlt).filter _⟩
  · obtain ⟨hmem, hcyc⟩ := List.mem_filter.1 hm
    obtain ⟨n, hn, rfl⟩ := (mem_componentsOf_iff hg hlt).1 hmem
    refine ⟨List.nodup_range.filter _, ⟨n, (mem_componentOf hg (hlt n hn)).2 ⟨.refl, .refl⟩,
      fun b => mem_componentOf hg (hlt n hn)⟩, (isCycle_iff.1 hcyc).imp_right ?_⟩
    rintro ⟨k, hk, hkk⟩
    exact ⟨k, by rw [hk]; exact List.mem_cons_self, hkk⟩
  · obtain ⟨a, ha, hc⟩ := hm.component
    have han : a < g.size := by
      obtain ⟨b, hab⟩ := hm.exists_rel ha
      exact lt_size_of_precedes hg hab
    have hperm : (g.componentOf a).Perm members :=
      (List.perm_ext_iff_of_nodup (List.nodup_range.filter _) hm.nodup).2 fun b => by
        rw [hc b]
        exact mem_componentOf hg han
    refine ⟨g.componentOf a, List.mem_filter.2
      ⟨(mem_componentsOf_iff hg hlt).2 ⟨a, (mem_leavingOrder_iff hg).2 han, rfl⟩, ?_⟩, hperm⟩
    rcases hm.cyclic with hlen | ⟨b, hb, hbb⟩
    · exact isCycle_iff.2 (.inl (by rw [hperm.length_eq]; exact hlen))
    · exact isCycle_of_mem (hperm.mem_iff.2 hb) (hperm.mem_iff.2 hb) hbb

end StepGraph

end SiteConfig
