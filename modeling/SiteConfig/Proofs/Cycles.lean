import Mathlib
import SiteConfig.Proofs.Plan

/-!
# Graphs without an order have cycles

When steps cannot be put in order, that is reported by the cycles among them. So a plan that
fails must come with at least one cycle: otherwise an import could pass the check for cycles
and still find no plan. This is what is shown here
(`SiteConfig.Requirements.ne_nil_of_plan_eq_error`).

There are two halves to it. The positions that are left when the schedule is stuck have each
a predecessor among them, so that one of them leads to itself
(`SiteConfig.Schedule.exists_cycle`). And the walks by which cycles are looked for find
everything that a position leads to, and nothing else
(`SiteConfig.StepGraph.mem_reachable_iff`).
-/

namespace SiteConfig

/-! ### A schedule that is stuck -/

namespace Schedule

variable {α : Type} [DecidableEq α] {before : α → α → Bool}

/-- When not everything can be taken, each of some items has to be preceded by another one
of them. -/
theorem exists_stuck {l : List α} (h : ¬Complete before l) :
    ∃ m : List α, m ≠ [] ∧ (∀ a ∈ m, a ∈ l) ∧ ∀ a ∈ m, ∃ b ∈ m, before b a = true := by
  induction l using order_induction before with
  | stuck l hn =>
    refine ⟨l, ?_, fun a ha => ha, fun a ha => next?_eq_none hn ha⟩
    rintro rfl
    exact h complete_nil
  | take l a ha ih =>
    obtain ⟨m, hne, hmem, hpre⟩ := ih fun hc => h (hc.cons ha)
    exact ⟨m, hne, fun b hb => List.mem_of_mem_erase (hmem b hb), hpre⟩

/-- **When not everything can be taken, some item has to precede itself**, directly or
through others. -/
theorem exists_cycle {l : List α} (h : ¬Complete before l) :
    ∃ a ∈ l, Relation.TransGen (fun a b => before a b = true) a a := by
  obtain ⟨m, hne, hmem, hpre⟩ := exists_stuck h
  obtain ⟨c, hc⟩ := List.exists_mem_of_ne_nil m hne
  choose f hf using fun a : {a // a ∈ m} => hpre a.1 a.2
  let pre : {a // a ∈ m} → {a // a ∈ m} := fun a => ⟨f a, (hf a).1⟩
  -- going back again and again among finitely many items comes to one of them twice
  obtain ⟨i, j, hij, heq⟩ := Finite.exists_ne_map_eq_of_infinite fun k : ℕ => pre^[k] ⟨c, hc⟩
  have hback : ∀ (a : {a // a ∈ m}) (k : ℕ),
      Relation.TransGen (fun a b => before a b = true) (pre^[k + 1] a).1 a.1 := by
    intro a k
    induction k generalizing a with
    | zero => exact .single (hf a).2
    | succ k ih =>
      rw [Function.iterate_succ_apply]
      exact (ih (pre a)).trans (.single (hf a).2)
  have hcycle : ∀ {i j : ℕ}, i < j → pre^[i] ⟨c, hc⟩ = pre^[j] ⟨c, hc⟩ →
      ∃ a ∈ l, Relation.TransGen (fun a b => before a b = true) a a := by
    intro i j hlt heq
    obtain ⟨k, rfl⟩ := Nat.exists_eq_add_of_lt hlt
    refine ⟨(pre^[i] ⟨c, hc⟩).1, hmem _ (pre^[i] ⟨c, hc⟩).2, ?_⟩
    have := hback (pre^[i] ⟨c, hc⟩) k
    rwa [← Function.iterate_add_apply, show k + 1 + i = i + k + 1 by omega, ← heq] at this
  rcases Nat.lt_or_gt_of_ne hij with hlt | hlt
  · exact hcycle hlt heq
  · exact hcycle hlt heq.symm

end Schedule

namespace StepGraph

variable {g : StepGraph}

/-- One position leads to another one along the edges. -/
def Leads (g : StepGraph) : ℕ → ℕ → Prop :=
  Relation.ReflTransGen fun a b => g.precedes a b = true

/-! ### Walks -/

/-- The positions that a walk has not seen. -/
def unseen (g : StepGraph) (w : Walk) : ℕ := ((Finset.range g.size).filter (· ∉ w.seen)).card

/-- **What a walk from some positions adds**: these positions, everything that follows what
it adds, and nothing that they do not lead to; and it leaves all that it adds. -/
structure Walk.Extends (g : StepGraph) (w w' : Walk) (starts : List ℕ) : Prop where
  mono : ∀ x ∈ w.seen, x ∈ w'.seen
  reached : ∀ n ∈ starts, n ∈ w'.seen
  closed : ∀ x ∈ w'.seen, x ∉ w.seen → ∀ y ∈ g.successors x, y ∈ w'.seen
  sound : ∀ x ∈ w'.seen, x ∈ w.seen ∨ ∃ n ∈ starts, g.Leads n x
  left_mono : ∀ x ∈ w.left, x ∈ w'.left
  left : ∀ x ∈ w'.seen, x ∈ w.seen ∨ x ∈ w'.left
  left_sound : ∀ x ∈ w'.left, x ∈ w.left ∨ x ∈ w'.seen

/-- A walk that has seen everything already adds nothing. -/
theorem Walk.Extends.refl {w : Walk} {starts : List ℕ} (h : ∀ n ∈ starts, n ∈ w.seen) :
    Walk.Extends g w w starts :=
  ⟨fun _ h => h, h, fun _ h h' => absurd h h', fun _ h => .inl h, fun _ h => h,
    fun _ h => .inl h, fun _ h => .inl h⟩

theorem Walk.Extends.cons {w w' w'' : Walk} {n : ℕ} {starts : List ℕ}
    (h : Walk.Extends g w w' [n]) (h' : Walk.Extends g w' w'' starts) :
    Walk.Extends g w w'' (n :: starts) where
  mono x hx := h'.mono x (h.mono x hx)
  reached m hm := by
    rcases List.mem_cons.1 hm with rfl | hm
    · exact h'.mono m (h.reached m (by simp))
    · exact h'.reached m hm
  closed x hx hno y hy := by
    -- what is new was found by the first walk or by the second one
    by_cases hx' : x ∈ w'.seen
    · exact h'.mono y (h.closed x hx' hno y hy)
    · exact h'.closed x hx hx' y hy
  sound x hx := by
    rcases h'.sound x hx with hx' | ⟨m, hm, hlead⟩
    · rcases h.sound x hx' with hx | ⟨m, hm, hlead⟩
      · exact .inl hx
      · exact .inr ⟨m, List.mem_cons.2 (.inl (by simpa using hm)), hlead⟩
    · exact .inr ⟨m, List.mem_cons_of_mem _ hm, hlead⟩
  left_mono x hx := h'.left_mono x (h.left_mono x hx)
  left x hx := by
    rcases h'.left x hx with hx' | hx'
    · exact (h.left x hx').imp_right (h'.left_mono x)
    · exact .inr hx'
  left_sound x hx := by
    rcases h'.left_sound x hx with hx' | hx'
    · exact (h.left_sound x hx').imp_right (h'.mono x)
    · exact .inr hx'

theorem unseen_mono {w w' : Walk} (h : ∀ x ∈ w.seen, x ∈ w'.seen) : g.unseen w' ≤ g.unseen w :=
  Finset.card_le_card fun x hx => by
    rw [Finset.mem_filter] at hx ⊢
    exact ⟨hx.1, fun hs => hx.2 (h x hs)⟩

theorem unseen_mark {w : Walk} {n : ℕ} (hn : n < g.size) (hs : n ∉ w.seen) :
    g.unseen { w with seen := n :: w.seen } < g.unseen w := by
  refine Finset.card_lt_card ⟨fun x hx => ?_, fun hsub => ?_⟩
  · rw [Finset.mem_filter] at hx ⊢
    exact ⟨hx.1, fun hs => hx.2 (List.mem_cons_of_mem _ hs)⟩
  · have := hsub (Finset.mem_filter.2 ⟨Finset.mem_range.2 hn, hs⟩)
    simp at this

theorem walk_foldl {fuel : ℕ}
    (hwalk : ∀ w n, n < g.size → g.unseen w ≤ fuel → Walk.Extends g w (g.walk fuel w n) [n])
    (starts : List ℕ) (hstarts : ∀ n ∈ starts, n < g.size) {w : Walk} (hfuel : g.unseen w ≤ fuel) :
    Walk.Extends g w (starts.foldl (g.walk fuel) w) starts := by
  induction starts generalizing w with
  | nil => exact .refl (by simp)
  | cons n starts ih =>
    have hfirst := hwalk w n (hstarts n (by simp)) hfuel
    exact hfirst.cons (ih (fun m hm => hstarts m (List.mem_cons_of_mem _ hm))
      ((unseen_mono hfirst.mono).trans hfuel))

theorem lt_size_of_mem_successors (hg : g.WellFormed) {n m : ℕ} (h : m ∈ g.successors n) :
    m < g.size := (hg.bound _ (mem_successors.1 h)).2

/-- **What one walk adds**, if it may go as deep as there are positions that it has not
seen. -/
theorem walk_extends (hg : g.WellFormed) (fuel : ℕ) (w : Walk) (n : ℕ) (hn : n < g.size)
    (hfuel : g.unseen w ≤ fuel) : Walk.Extends g w (g.walk fuel w n) [n] := by
  induction fuel generalizing w n with
  | zero =>
    -- everything has been seen
    have hseen : n ∈ w.seen := by
      by_contra hno
      have := Finset.card_eq_zero.1 (Nat.le_zero.1 hfuel)
      have hmem : n ∈ (Finset.range g.size).filter (· ∉ w.seen) :=
        Finset.mem_filter.2 ⟨Finset.mem_range.2 hn, hno⟩
      rw [this] at hmem
      exact absurd hmem (Finset.notMem_empty n)
    exact .refl fun m hm => by rwa [List.mem_singleton.1 hm]
  | succ fuel ih =>
    rw [walk]
    by_cases hseen : n ∈ w.seen
    · rw [if_pos (by simpa using hseen)]
      exact .refl fun m hm => by rwa [List.mem_singleton.1 hm]
    · rw [if_neg (by simpa using hseen)]
      have hmark := unseen_mark hn hseen
      have hin := walk_foldl ih (g.successors n).reverse
        (fun m hm => lt_size_of_mem_successors hg (List.mem_reverse.1 hm))
        (w := { w with seen := n :: w.seen }) (by omega)
      refine ⟨fun x hx => hin.mono x (List.mem_cons_of_mem _ hx), fun m hm => ?_,
        fun x hx hno y hy => ?_, fun x hx => ?_, fun x hx => List.mem_cons_of_mem _ (hin.left_mono x hx),
        fun x hx => ?_, fun x hx => ?_⟩
      · rw [List.mem_singleton.1 hm]
        exact hin.mono n List.mem_cons_self
      · by_cases hxn : x = n
        · subst hxn
          exact hin.reached y (List.mem_reverse.2 hy)
        · exact hin.closed x hx (by simp [hxn, hno]) y hy
      · rcases hin.sound x hx with hx | ⟨m, hm, hlead⟩
        · rcases List.mem_cons.1 hx with rfl | hx
          · exact .inr ⟨x, by simp, .refl⟩
          · exact .inl hx
        · refine .inr ⟨n, by simp, .head ?_ hlead⟩
          exact precedes_iff.2 (mem_successors.1 (List.mem_reverse.1 hm))
      · rcases hin.left x hx with hx | hx
        · rcases List.mem_cons.1 hx with rfl | hx
          · exact .inr List.mem_cons_self
          · exact .inl hx
        · exact .inr (List.mem_cons_of_mem _ hx)
      · rcases List.mem_cons.1 hx with rfl | hx
        · exact .inr (hin.mono x List.mem_cons_self)
        · exact hin.left_sound x hx

theorem unseen_le (w : Walk) : g.unseen w ≤ g.size :=
  (Finset.card_filter_le _ _).trans (le_of_eq (Finset.card_range _))

/-- **A walk reaches what its position leads to**, and nothing else. -/
theorem mem_reachable_iff (hg : g.WellFormed) {n m : ℕ} (hn : n < g.size) :
    m ∈ g.reachable n ↔ g.Leads n m := by
  have hwalk := walk_extends hg g.size ⟨[], []⟩ n hn (unseen_le _)
  constructor
  · intro h
    rcases hwalk.sound m h with h | ⟨n', hn', hlead⟩
    · cases h
    · rwa [List.mem_singleton.1 hn'] at hlead
  · intro h
    induction h with
    | refl => exact hwalk.reached n (by simp)
    | tail _ hstep ih =>
      exact hwalk.closed _ ih (by simp) _ (mem_successors.2 (precedes_iff.1 hstep))

theorem lt_size_of_leads (hg : g.WellFormed) {n m : ℕ} (hn : n < g.size) (h : g.Leads n m) :
    m < g.size := by
  induction h with
  | refl => exact hn
  | tail _ hstep _ => exact (hg.bound _ (precedes_iff.1 hstep)).2

/-- The positions that are left at last are all positions. -/
theorem mem_leavingOrder_iff (hg : g.WellFormed) {n : ℕ} : n ∈ g.leavingOrder ↔ n < g.size := by
  have hall := walk_foldl (walk_extends hg g.size) (List.range g.size)
    (fun m hm => List.mem_range.1 hm) (w := ⟨[], []⟩) (unseen_le _)
  rw [leavingOrder, List.mem_reverse]
  constructor
  · intro h
    rcases hall.left_sound n h with h | h
    · cases h
    · rcases hall.sound n h with h | ⟨m, hm, hlead⟩
      · cases h
      · exact lt_size_of_leads hg (List.mem_range.1 hm) hlead
  · intro hn
    rcases hall.left n (hall.reached n (List.mem_range.2 hn)) with h | h
    · cases h
    · exact h

/-! ### Components -/

theorem connected_iff (hg : g.WellFormed) {a b : ℕ} (ha : a < g.size) (hb : b < g.size) :
    g.connected a b = true ↔ g.Leads a b ∧ g.Leads b a := by
  rw [connected, Bool.and_eq_true, List.contains_iff_mem, List.contains_iff_mem,
    mem_reachable_iff hg ha, mem_reachable_iff hg hb]

/-- Every position has a component. -/
theorem exists_component (hg : g.WellFormed) {l : List ℕ} (hl : ∀ m ∈ l, m < g.size) {n : ℕ}
    (hn : n ∈ l) : ∃ m ∈ l, g.connected n m = true ∧
      (List.range g.size).filter (g.connected m) ∈ g.componentsOf l := by
  induction l generalizing n with
  | nil => cases hn
  | cons k l ih =>
    have hl' : ∀ m ∈ l, m < g.size := fun m hm => hl m (List.mem_cons_of_mem _ hm)
    have hk : k < g.size := hl k List.mem_cons_self
    rw [componentsOf]
    by_cases hany : l.any (g.connected k) = true
    · rw [if_pos hany]
      -- the component of the first position is that of a later one
      have htail : ∀ {n}, n ∈ l → ∃ m ∈ k :: l, g.connected n m = true ∧
          (List.range g.size).filter (g.connected m) ∈ g.componentsOf l := fun hn => by
        obtain ⟨m, hm, h⟩ := ih hl' hn
        exact ⟨m, List.mem_cons_of_mem _ hm, h⟩
      rcases List.mem_cons.1 hn with rfl | hn
      · obtain ⟨j, hj, hnj⟩ := List.any_eq_true.1 hany
        obtain ⟨m, hm, hjm, hcomp⟩ := htail hj
        refine ⟨m, hm, ?_, hcomp⟩
        rw [connected_iff hg hk (hl m hm)]
        have h₁ := (connected_iff hg hk (hl' j hj)).1 hnj
        have h₂ := (connected_iff hg (hl' j hj) (hl m hm)).1 hjm
        exact ⟨h₁.1.trans h₂.1, h₂.2.trans h₁.2⟩
      · exact htail hn
    · rw [if_neg hany]
      rcases List.mem_cons.1 hn with rfl | hn
      · exact ⟨n, List.mem_cons_self, (connected_iff hg hk hk).2 ⟨.refl, .refl⟩,
          List.mem_cons_self⟩
      · obtain ⟨m, hm, hnm, hcomp⟩ := ih hl' hn
        exact ⟨m, List.mem_cons_of_mem _ hm, hnm, List.mem_cons_of_mem _ hcomp⟩

/-! ### Cycles -/

theorem isCycle_of_mem {members : List ℕ} {a b : ℕ} (ha : a ∈ members) (hb : b ∈ members)
    (hab : g.precedes a b = true) : g.isCycle members = true := by
  match members with
  | [n] =>
    obtain rfl := List.mem_singleton.1 ha
    obtain rfl := List.mem_singleton.1 hb
    exact hab
  | x :: y :: l => simp [isCycle]

/-- **A position that leads to itself is on a cycle that is found.** -/
theorem cycles_ne_nil (hg : g.WellFormed) {a : ℕ} (ha : a < g.size)
    (hcycle : Relation.TransGen (fun a b => g.precedes a b = true) a a) : g.cycles ≠ [] := by
  obtain ⟨b, hab, hba⟩ := Relation.TransGen.head'_iff.1 hcycle
  have hb : b < g.size := (hg.bound _ (precedes_iff.1 hab)).2
  have hlt : ∀ m ∈ g.leavingOrder, m < g.size := fun m hm => (mem_leavingOrder_iff hg).1 hm
  obtain ⟨m, hm, ham, hcomp⟩ := exists_component hg hlt ((mem_leavingOrder_iff hg).2 ha)
  obtain ⟨ham, hma⟩ := (connected_iff hg ha (hlt m hm)).1 ham
  -- both ends of the first edge belong to the component
  have hmem : ∀ {n}, n < g.size → g.Leads m n → g.Leads n m →
      n ∈ (List.range g.size).filter (g.connected m) := fun hn h h' =>
    List.mem_filter.2 ⟨List.mem_range.2 hn, (connected_iff hg (hlt m hm) hn).2 ⟨h, h'⟩⟩
  have hcyc := isCycle_of_mem (hmem ha hma ham) (hmem hb (hma.tail hab) (hba.trans ham)) hab
  have hfound := List.mem_map_of_mem (f := g.subjects) (List.mem_filter.2 ⟨hcomp, hcyc⟩)
  exact List.ne_nil_of_mem hfound

theorem not_complete_of_order?_eq_none (hg : g.WellFormed) (h : g.order? = none) :
    ¬Schedule.Complete g.precedes (List.range g.size) := by
  intro hc
  rw [(order?_eq_some_iff hg).2 ⟨hc, rfl⟩] at h
  cases h

/-- **A graph without an order has a cycle.** -/
theorem cycles_ne_nil_of_order?_eq_none (hg : g.WellFormed) (h : g.order? = none) :
    g.cycles ≠ [] := by
  obtain ⟨a, ha, hcycle⟩ := Schedule.exists_cycle (not_complete_of_order?_eq_none hg h)
  exact cycles_ne_nil hg (List.mem_range.1 ha) hcycle

end StepGraph

namespace Requirements

variable {r : Requirements} {c : Changelist} {x : ExtensionChanges}

/-- **A plan does not fail without naming a cycle.** -/
theorem ne_nil_of_plan_eq_error (hc : c.Disjoint) (hx : x.Distinct) {found : List (List String)}
    (h : r.plan c x = .error found) : found ≠ [] := by
  have hr := StepGraph.cycles_ne_nil_of_order?_eq_none (graphs_removalGraph r hc hx).wellFormed
  have ha := StepGraph.cycles_ne_nil_of_order?_eq_none (graphs_additionGraph r hc hx).wellFormed
  rw [plan] at h
  rcases hro : (r.removalGraph c x).order? with _ | removed
  · rw [hro] at h
    cases h
    simp [hr hro]
  · rcases hao : (r.additionGraph c x).order? with _ | added
    · rw [hro, hao] at h
      cases h
      simp [ha hao]
    · rw [hro, hao] at h
      cases h

end Requirements

end SiteConfig
