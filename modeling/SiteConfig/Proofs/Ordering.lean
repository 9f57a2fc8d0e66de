import Mathlib
import SiteConfig.Proofs.Cycles

/-!
# The order of a step graph

The greedy schedule of increasing positions is the least one: of all lists that keep to what
has to precede what, it comes first in lexicographic order (`SiteConfig.Schedule.lex_order`).
The exchange argument behind this is short, because a schedule and its rival can be compared
one position at a time. Nothing has to precede the position that the rival begins with, so
that the schedule could have begun with it, too; if it did not, it took a smaller one.

For step graphs, however they are built, this tells which order Kahn's method finds
(`SiteConfig.StepGraph.sorts_built`). The method counts predecessors, and a counter that
should fall below zero would go unnoticed here, where numbers stop at zero; so it is shown
that whenever a position is released, its counter is positive
(`SiteConfig.StepGraph.Frontier.Sound.pos_of_releases`).
-/

namespace SiteConfig

/-! ### The least schedule -/

namespace Schedule

variable {before : ℕ → ℕ → Bool}

/-- A list keeps to what has to precede what. -/
structure Keeps (before : ℕ → ℕ → Bool) (l : List ℕ) : Prop where
  pairwise : l.Pairwise fun a b => before b a = false
  irrefl : ∀ a ∈ l, before a a = false

theorem Keeps.tail {a : ℕ} {l : List ℕ} (h : Keeps before (a :: l)) : Keeps before l :=
  ⟨(List.pairwise_cons.1 h.pairwise).2, fun b hb => h.irrefl b (List.mem_cons_of_mem _ hb)⟩

/-- Nothing in a list that keeps to the order has to precede its first item. -/
theorem Keeps.head {a b : ℕ} {l : List ℕ} (h : Keeps before (a :: l)) (hb : b ∈ a :: l) :
    before b a = false := by
  rcases List.mem_cons.1 hb with rfl | hb
  · exact h.irrefl b List.mem_cons_self
  · exact (List.pairwise_cons.1 h.pairwise).1 b hb

/-- The greedy schedule begins no later than with any item that could come first. -/
theorem exists_next?_le {l : List ℕ} (hl : l.Pairwise (· < ·)) {a : ℕ} (ha : a ∈ l)
    (hfree : ∀ b ∈ l, before b a = false) : ∃ c, next? before l = some c ∧ c ≤ a := by
  have hall : (l.all fun b => !before b a) = true :=
    List.all_eq_true.2 fun b hb => by simp [hfree b hb]
  obtain ⟨c, hc⟩ : ∃ c, next? before l = some c := by
    rw [← Option.isSome_iff_exists, next?, List.find?_isSome]
    exact ⟨a, ha, hall⟩
  refine ⟨c, hc, ?_⟩
  obtain ⟨-, earlier, later, hsplit, hno⟩ := List.find?_eq_some_iff_append.1 hc
  rw [hsplit] at ha hl
  -- the item is not among those that were passed over
  rcases List.mem_append.1 ha with hearlier | ha
  · have hstuck := hno a hearlier
    rw [hall] at hstuck
    cases hstuck
  · rcases List.mem_cons.1 ha with rfl | hlater
    · exact le_refl _
    · exact le_of_lt ((List.pairwise_cons.1 (List.pairwise_append.1 hl).2.1).1 a hlater)

/-- **The greedy schedule is the least**: a list of the same positions that keeps to the
order is the schedule, or comes after it lexicographically. -/
theorem lex_order {l m : List ℕ} (hl : l.Pairwise (· < ·)) (hm : m.Perm l)
    (hkeeps : Keeps before m) : order before l = m ∨ List.Lex (· < ·) (order before l) m := by
  induction m generalizing l with
  | nil =>
    obtain rfl := hm.nil_eq
    exact .inl order_nil
  | cons a m ih =>
    have ha : a ∈ l := hm.subset List.mem_cons_self
    obtain ⟨c, hc, hle⟩ := exists_next?_le hl ha fun b hb => hkeeps.head (hm.mem_iff.2 hb)
    rw [order_of_some hc]
    rcases Nat.lt_or_eq_of_le hle with hlt | rfl
    · exact .inr (.rel hlt)
    · -- both begin alike, and go on with the same positions
      have hrest := ih (hl.sublist List.erase_sublist) (List.cons_perm_iff_perm_erase.1 hm).2
        hkeeps.tail
      rcases hrest with heq | hlex
      · exact .inl (congrArg _ heq)
      · exact .inr (.cons hlex)

end Schedule

namespace StepGraph

variable {g : StepGraph}

/-! ### Topological orders -/

/-- Some position has to precede itself, directly or through others. -/
def Cyclic (g : StepGraph) : Prop :=
  ∃ a, Relation.TransGen (fun a b => g.precedes a b = true) a a

/-- **A topological order** has every position once, and each before all that it precedes. -/
structure IsOrder (g : StepGraph) (l : List ℕ) : Prop where
  perm : l.Perm (List.range g.size)
  ordered : ∀ a b, (a, b) ∈ g.edges → l.idxOf a < l.idxOf b

theorem IsOrder.keeps {l : List ℕ} (h : g.IsOrder l) : Schedule.Keeps g.precedes l := by
  have hn : l.Nodup := h.perm.nodup_iff.2 List.nodup_range
  refine ⟨List.pairwise_iff_getElem.2 fun i j hi hj hij => ?_, fun a _ => ?_⟩
  · rw [Bool.eq_false_iff]
    intro hji
    have hlt := h.ordered _ _ (precedes_iff.1 hji)
    rw [hn.idxOf_getElem, hn.idxOf_getElem] at hlt
    exact absurd hij (not_lt_of_gt hlt)
  · rw [Bool.eq_false_iff]
    exact fun haa => lt_irrefl _ (h.ordered _ _ (precedes_iff.1 haa))

/-- A graph with a topological order has no cycle: a position would come before itself. -/
theorem IsOrder.not_cyclic {l : List ℕ} (h : g.IsOrder l) : ¬g.Cyclic := by
  rintro ⟨a, ha⟩
  have hlt : ∀ b, Relation.TransGen (fun a b => g.precedes a b = true) a b →
      l.idxOf a < l.idxOf b := by
    intro b hb
    induction hb with
    | single hab => exact h.ordered _ _ (precedes_iff.1 hab)
    | tail _ hbc ih => exact ih.trans (h.ordered _ _ (precedes_iff.1 hbc))
  exact lt_irrefl _ (hlt a ha)

/-- A complete schedule of the positions is a topological order. -/
theorem isOrder_of_complete (hg : g.WellFormed)
    (h : Schedule.Complete g.precedes (List.range g.size)) :
    g.IsOrder (Schedule.order g.precedes (List.range g.size)) := by
  refine ⟨h.perm, fun a b hab => ?_⟩
  have hmem : ∀ {n}, n < g.size → n ∈ Schedule.order g.precedes (List.range g.size) :=
    fun hn => h.perm.mem_iff.2 (List.mem_range.2 hn)
  obtain ⟨ha, hb⟩ := hg.bound _ hab
  exact Schedule.lt_of_before (List.getElem?_idxOf (hmem ha)) (List.getElem?_idxOf (hmem hb))
    (precedes_iff.2 hab)

/-- **Exactly the graphs without a cycle have a complete schedule.** -/
theorem complete_iff_not_cyclic (hg : g.WellFormed) :
    Schedule.Complete g.precedes (List.range g.size) ↔ ¬g.Cyclic := by
  refine ⟨fun h => (isOrder_of_complete hg h).not_cyclic, fun h => ?_⟩
  by_contra hno
  obtain ⟨a, -, hcycle⟩ := Schedule.exists_cycle hno
  exact h ⟨a, hcycle⟩

/-! ### The rounds of Kahn's method -/

/-- In the round that follows a frontier, a position is about to be released; the second
frontier is the one of that moment. -/
def Frontier.Releases (g : StepGraph) (f f' : Frontier) (m : ℕ) : Prop :=
  ∃ n r earlier later, f.ready = n :: r ∧ g.successors n = earlier ++ m :: later ∧
    f' = earlier.foldl Frontier.release { f with ready := r, done := n :: f.done }

/-- **No counter falls below zero**: what is released has a predecessor that has not been
counted off. -/
theorem Frontier.Sound.pos_of_releases (hg : g.WellFormed) {f f' : Frontier} {rest : List ℕ}
    {m : ℕ} (hf : f.Sound g rest) (h : f.Releases g f' m) :
    m < f'.waiting.length ∧ 0 < f'.waiting.getD m 0 := by
  obtain ⟨n, r, earlier, later, hr, hsucc, rfl⟩ := h
  have hsub : earlier.Sublist (g.successors n) := hsucc ▸ List.sublist_append_left _ _
  have hrel := hf.released hg hr hsub
  have hm : m ∈ g.successors n := by rw [hsucc]; simp
  have hedge : g.precedes n m = true := precedes_iff.2 (mem_successors.1 hm)
  have hnrest : n ∈ rest := (hf.mem_ready.1 (hr ▸ List.mem_cons_self)).1
  have hmrest : m ∈ rest := hf.closed n hnrest m hedge
  refine ⟨?_, ?_⟩
  · rw [hrel.length, hf.length]
    exact hf.bound m hmrest
  · -- each successor is released once, so that nothing has been taken off its counter yet
    have hnew : m ∉ earlier := by
      have hnodup := nodup_successors hg n
      rw [hsucc, List.nodup_append] at hnodup
      exact fun hm => hnodup.2.2 m hm m List.mem_cons_self rfl
    rw [hrel.waiting, if_neg hnew, Nat.sub_zero, hf.waiting m hmrest, Nat.pos_iff_ne_zero]
    intro hzero
    rw [openIn_eq_zero.1 hzero n hnrest] at hedge
    cases hedge

/-- The invariant holds after any number of rounds, each of which runs a position unless
none is ready. -/
theorem Frontier.Sound.drain (hg : g.WellFormed) {f : Frontier} {rest : List ℕ}
    (hf : f.Sound g rest) (rounds : ℕ) :
    ∃ left, (g.drain rounds f).Sound g left ∧
      ((g.drain rounds f).ready = [] ∨ left.length + rounds = rest.length) := by
  induction rounds generalizing f rest with
  | zero => exact ⟨rest, hf, .inr (Nat.add_zero _)⟩
  | succ rounds ih =>
    rw [StepGraph.drain]
    rcases hn : Schedule.next? g.precedes rest with _ | n
    · have hready : f.ready = [] := by
        rwa [hf.next?_eq, List.head?_eq_none_iff] at hn
      have hstop : f.advance g = none := by rw [Frontier.advance, hready]
      rw [hstop]
      exact ⟨rest, hf, .inl hready⟩
    · obtain ⟨f', hadv, hf', -⟩ := hf.advance hg hn
      rw [hadv]
      obtain ⟨left, hleft, hend⟩ := ih hf'
      refine ⟨left, hleft, hend.imp_right fun h => ?_⟩
      have hmem := (Schedule.next?_eq_some hn).1
      have hpos := List.length_pos_of_mem hmem
      rw [List.length_erase_of_mem hmem] at h
      omega

/-- **The method ends by itself**: after as many rounds as there are positions nothing is
ready any more. -/
theorem advance_drain_eq_none (hg : g.WellFormed) : (g.drain g.size g.start).advance g = none := by
  obtain ⟨left, hleft, hend⟩ := (sound_start hg).drain hg g.size
  have hready : (g.drain g.size g.start).ready = [] := by
    refine hend.elim id fun h => ?_
    rw [List.length_range] at h
    obtain rfl : left = [] := List.length_eq_zero_iff.1 (by omega)
    rw [hleft.ready, List.filter_nil]
  rw [Frontier.advance, hready]

/-! ### Graphs as they are built -/

/-- A call that adds to a graph. -/
inductive Call where
  | add (i : Item) (s : Step)
  | before (first second : Item)

/-- What a call makes of a graph. -/
def Call.apply (g : StepGraph) : Call → StepGraph
  | .add i s => g.add i s
  | .before i j => g.before i j

/-- The graph that some calls build. -/
def built (calls : List Call) : StepGraph := calls.foldl Call.apply empty

theorem wellFormed_empty : empty.WellFormed := ⟨List.nodup_nil, by simp [empty]⟩

theorem WellFormed.add (hg : g.WellFormed) (i : Item) (s : Step) : (g.add i s).WellFormed := by
  unfold StepGraph.add
  split
  · exact hg
  · refine ⟨hg.nodup, fun e he => ?_⟩
    obtain ⟨h₁, h₂⟩ := hg.bound e he
    simp only [size, List.length_append, List.length_singleton] at h₁ h₂ ⊢
    omega

theorem WellFormed.apply (hg : g.WellFormed) (c : Call) : (c.apply g).WellFormed := by
  cases c with
  | add i s => exact hg.add i s
  | before i j => exact (Requirements.extends_before g i j).wellFormed hg

/-- Calls build nothing but well-formed graphs. -/
theorem wellFormed_built (calls : List Call) : (built calls).WellFormed := by
  suffices h : ∀ g : StepGraph, g.WellFormed → (calls.foldl Call.apply g).WellFormed from
    h empty wellFormed_empty
  induction calls with
  | nil => exact fun g hg => hg
  | cons c calls ih => exact fun g hg => ih _ (hg.apply c)

/-- **What ordering a graph does**: it counts down no counter that is zero already, ends by
itself, succeeds when there is no cycle, and finds the least topological order. -/
structure Sorts (g : StepGraph) : Prop where
  counts : ∀ (rounds : ℕ) (f : Frontier) (m : ℕ), (g.drain rounds g.start).Releases g f m →
    m < f.waiting.length ∧ 0 < f.waiting.getD m 0
  ends : (g.drain g.size g.start).advance g = none
  succeeds : (∃ steps, g.order? = some steps) ↔ ¬g.Cyclic
  least : ∀ steps, g.order? = some steps →
    ∃ l, g.IsOrder l ∧ steps.map some = l.map g.step? ∧
      ∀ l', g.IsOrder l' → l = l' ∨ List.Lex (· < ·) l l'

/-- Where a function has a value for everything in a list, nothing is passed over. -/
theorem map_some_filterMap {α β : Type} {f : α → Option β} {l : List α}
    (h : ∀ a ∈ l, ∃ b, f a = some b) : (l.filterMap f).map some = l.map f := by
  induction l with
  | nil => rfl
  | cons a l ih =>
    obtain ⟨⟨b, hb⟩, hrest⟩ := List.forall_mem_cons.1 h
    rw [List.filterMap_cons_some hb, List.map_cons, List.map_cons, hb, ih hrest]

theorem exists_step? {n : ℕ} (h : n < g.size) : ∃ s, g.step? n = some s := by
  have hn : n < g.nodes.length := h
  exact ⟨(g.nodes[n]).2, by simp [step?, hn]⟩

theorem WellFormed.sorts (hg : g.WellFormed) : g.Sorts where
  counts rounds f m h := by
    obtain ⟨left, hleft, -⟩ := (sound_start hg).drain hg rounds
    exact hleft.pos_of_releases hg h
  ends := advance_drain_eq_none hg
  succeeds := by
    rw [← complete_iff_not_cyclic hg]
    exact ⟨fun ⟨steps, h⟩ => ((order?_eq_some_iff hg).1 h).1,
      fun h => ⟨_, (order?_eq_some_iff hg).2 ⟨h, rfl⟩⟩⟩
  least steps h := by
    obtain ⟨hc, rfl⟩ := (order?_eq_some_iff hg).1 h
    refine ⟨_, isOrder_of_complete hg hc, map_some_filterMap fun n hn => ?_, fun l' hl' => ?_⟩
    · exact exists_step? (List.mem_range.1 (Schedule.mem_of_mem_order hn))
    · exact Schedule.lex_order List.pairwise_lt_range hl'.perm hl'.keeps

/-- **Every graph that is built from calls is sorted by Kahn's method.** -/
theorem sorts_built (calls : List Call) : (built calls).Sorts := (wellFormed_built calls).sorts

end StepGraph

end SiteConfig
