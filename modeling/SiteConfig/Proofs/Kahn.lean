import Mathlib
import SiteConfig.Plan.Graph
import SiteConfig.Proofs.Schedule

/-!
# Kahn's method makes the greedy schedule

A step graph is put in order by counting, for each position, the predecessors that have
not run, and by keeping the positions without any in increasing order. Nothing of that
bookkeeping shows in the result: the positions run in the greedy order of
`SiteConfig.Schedule.order`, in which the next position is the least one that none of
those left has to precede (`SiteConfig.StepGraph.orderedPositions_eq`).

The invariant `SiteConfig.StepGraph.Frontier.Sound` ties the bookkeeping to the positions
that are left. One part of it is easily overlooked: a successor of a position that is
left is itself left (`closed`). Without it, running a position could release one that has
run before.
-/

namespace SiteConfig.StepGraph

/-- Whether one position has to run directly before another one. -/
def precedes (g : StepGraph) (a b : ℕ) : Bool := g.edges.contains (a, b)

theorem precedes_iff {g : StepGraph} {a b : ℕ} : g.precedes a b = true ↔ (a, b) ∈ g.edges := by
  simp [precedes]

/-- Every edge joins positions of the graph, and is there once. -/
structure WellFormed (g : StepGraph) : Prop where
  nodup : g.edges.Nodup
  bound : ∀ e ∈ g.edges, e.1 < g.size ∧ e.2 < g.size

theorem mem_successors {g : StepGraph} {n m : ℕ} : m ∈ g.successors n ↔ (n, m) ∈ g.edges := by
  simp [successors]

theorem nodup_successors {g : StepGraph} (h : g.WellFormed) (n : ℕ) : (g.successors n).Nodup := by
  refine List.Nodup.map_on ?_ (h.nodup.filter _)
  rintro ⟨a, b⟩ ha ⟨c, d⟩ hc hbd
  simp only [List.mem_filter, beq_iff_eq] at ha hc
  rw [Prod.mk.injEq]
  exact ⟨ha.2.trans hc.2.symm, hbd⟩

/-! ### Counting predecessors -/

/-- The number of predecessors of a position among some others. -/
def openIn (g : StepGraph) (rest : List ℕ) (n : ℕ) : ℕ :=
  g.edges.countP fun e => e.2 == n && rest.contains e.1

theorem openIn_eq_zero {g : StepGraph} {rest : List ℕ} {n : ℕ} :
    g.openIn rest n = 0 ↔ ∀ p ∈ rest, g.precedes p n = false := by
  rw [openIn, List.countP_eq_zero]
  constructor
  · intro h p hp
    rw [Bool.eq_false_iff]
    intro hpn
    have := h (p, n) (precedes_iff.1 hpn)
    simp [hp] at this
  · rintro h ⟨p, m⟩ hpm
    simp only [Bool.and_eq_true, beq_iff_eq, List.contains_iff_mem, not_and]
    rintro rfl hp
    have := h p hp
    rw [precedes_iff.2 hpm] at this
    cases this

theorem countP_erase_add (edges : List (ℕ × ℕ)) {rest : List ℕ} (hrest : rest.Nodup) {a : ℕ}
    (ha : a ∈ rest) (n : ℕ) :
    edges.countP (fun e => e.2 == n && rest.contains e.1)
      = edges.countP (fun e => e.2 == n && (rest.erase a).contains e.1) + edges.count (a, n) := by
  induction edges with
  | nil => rfl
  | cons e edges ih =>
    obtain ⟨p, m⟩ := e
    rw [List.countP_cons, List.countP_cons, List.count_cons, ih]
    have hmem : p ∈ rest.erase a ↔ p ≠ a ∧ p ∈ rest := hrest.mem_erase_iff
    by_cases hm : m = n
    · by_cases hp : p = a
      · subst hm hp
        have : p ∉ rest.erase p := fun h => (hmem.1 h).1 rfl
        simp [ha, this]
        omega
      · simp [hm, hp, hmem]
        omega
    · simp [hm]

/-- Once a predecessor has run, one fewer is open. -/
theorem openIn_erase {g : StepGraph} (h : g.WellFormed) {rest : List ℕ} (hrest : rest.Nodup)
    {a : ℕ} (ha : a ∈ rest) (n : ℕ) :
    g.openIn (rest.erase a) n = g.openIn rest n - if n ∈ g.successors a then 1 else 0 := by
  have hcount := countP_erase_add g.edges hrest ha n
  rw [h.nodup.count] at hcount
  simp only [openIn, mem_successors]
  omega

/-! ### Releasing positions -/

theorem mem_insertReady {n m : ℕ} {l : List ℕ} : m ∈ insertReady n l ↔ m = n ∨ m ∈ l := by
  induction l with
  | nil => simp [insertReady]
  | cons k l ih =>
    rw [insertReady]
    split
    · simp
    · rw [List.mem_cons, ih, List.mem_cons]
      tauto

theorem pairwise_insertReady {n : ℕ} {l : List ℕ} (h : l.Pairwise (· < ·)) (hn : n ∉ l) :
    (insertReady n l).Pairwise (· < ·) := by
  induction l with
  | nil => simp [insertReady]
  | cons k l ih =>
    obtain ⟨hk, hl⟩ := List.pairwise_cons.1 h
    rw [insertReady]
    split
    · rename_i hlt
      refine List.pairwise_cons.2 ⟨fun m hm => ?_, h⟩
      rcases List.mem_cons.1 hm with rfl | hm
      · exact hlt
      · exact hlt.trans (hk m hm)
    · rename_i hnlt
      have hnk : k < n := by
        have : n ≠ k := fun e => hn (e ▸ List.mem_cons_self)
        omega
      refine List.pairwise_cons.2 ⟨fun m hm => ?_, ih hl fun hm => hn (List.mem_cons_of_mem _ hm)⟩
      rcases mem_insertReady.1 hm with rfl | hm
      · exact hnk
      · exact hk m hm

/-- What releasing some positions one by one makes of a frontier. -/
structure Released (f : Frontier) (ms : List ℕ) (f' : Frontier) : Prop where
  done : f'.done = f.done
  length : f'.waiting.length = f.waiting.length
  waiting : ∀ k, f'.waiting.getD k 0 = f.waiting.getD k 0 - if k ∈ ms then 1 else 0
  increasing : f'.ready.Pairwise (· < ·)
  mem_ready : ∀ k, k ∈ f'.ready ↔ k ∈ f.ready ∨ (k ∈ ms ∧ f.waiting.getD k 0 - 1 = 0)

/-- What releasing one position makes of a frontier. -/
theorem released_release {f : Frontier} {m : ℕ} (hm : m < f.waiting.length) (hready : m ∉ f.ready)
    (hincr : f.ready.Pairwise (· < ·)) : Released f [m] (f.release m) := by
  refine ⟨rfl, by simp [Frontier.release], fun k => ?_, ?_, fun k => ?_⟩
  · simp only [Frontier.release, List.getD_eq_getElem?_getD, List.getElem?_set]
    by_cases hk : m = k
    · simp [hk, hk ▸ hm]
    · simp [hk, Ne.symm hk]
  · simp only [Frontier.release]
    split
    · exact pairwise_insertReady hincr hready
    · exact hincr
  · simp only [Frontier.release, List.mem_singleton]
    split
    · -- nothing else has to be waited for
      rename_i hz
      rw [mem_insertReady]
      constructor
      · rintro (rfl | hk)
        · exact Or.inr ⟨rfl, hz⟩
        · exact Or.inl hk
      · rintro (hk | ⟨rfl, -⟩)
        · exact Or.inr hk
        · exact Or.inl rfl
    · rename_i hz
      refine ⟨Or.inl, ?_⟩
      rintro (hk | ⟨rfl, hz'⟩)
      · exact hk
      · exact absurd hz' hz

/-- Positions are released one after the other. -/
theorem Released.cons {f f₁ f₂ : Frontier} {m : ℕ} {ms : List ℕ} (h₁ : Released f [m] f₁)
    (h₂ : Released f₁ ms f₂) (hm : m ∉ ms) : Released f (m :: ms) f₂ := by
  refine ⟨h₂.done.trans h₁.done, h₂.length.trans h₁.length, fun k => ?_, h₂.increasing,
    fun k => ?_⟩
  · rw [h₂.waiting, h₁.waiting]
    by_cases hk : k = m
    · subst hk
      simp [hm]
    · simp [hk]
  · rw [h₂.mem_ready, h₁.mem_ready, h₁.waiting]
    by_cases hk : k = m
    · subst hk
      simp [hm]
    · simp [hk]

theorem released_foldl {ms : List ℕ} (hms : ms.Nodup) {f : Frontier}
    (hbound : ∀ m ∈ ms, m < f.waiting.length) (hready : ∀ m ∈ ms, m ∉ f.ready)
    (hincr : f.ready.Pairwise (· < ·)) : Released f ms (ms.foldl Frontier.release f) := by
  induction ms generalizing f with
  | nil => exact ⟨rfl, rfl, by simp, hincr, by simp⟩
  | cons m ms ih =>
    obtain ⟨hm, hms⟩ := List.nodup_cons.1 hms
    have hone := released_release (hbound m List.mem_cons_self) (hready m List.mem_cons_self) hincr
    refine hone.cons (ih hms (fun k hk => ?_) (fun k hk hkr => ?_) hone.increasing) hm
    · rw [hone.length]
      exact hbound k (List.mem_cons_of_mem _ hk)
    · rcases (hone.mem_ready k).1 hkr with h | ⟨hkm, -⟩
      · exact hready k (List.mem_cons_of_mem _ hk) h
      · exact hm (List.mem_singleton.1 hkm ▸ hk)

/-! ### The invariant -/

/-- A frontier is sound for the positions that are left: it counts their predecessors
among themselves, and those without any are ready. -/
structure Frontier.Sound (g : StepGraph) (f : Frontier) (rest : List ℕ) : Prop where
  increasing : rest.Pairwise (· < ·)
  bound : ∀ n ∈ rest, n < g.size
  closed : ∀ p ∈ rest, ∀ n, g.precedes p n = true → n ∈ rest
  length : f.waiting.length = g.size
  waiting : ∀ n ∈ rest, f.waiting.getD n 0 = g.openIn rest n
  ready : f.ready = rest.filter fun n => rest.all fun p => !g.precedes p n

variable {g : StepGraph}

theorem Frontier.Sound.pairwise_ready {f : Frontier} {rest : List ℕ} (hf : f.Sound g rest) :
    f.ready.Pairwise (· < ·) := by
  rw [hf.ready]
  exact hf.increasing.filter _

theorem Frontier.Sound.mem_ready {f : Frontier} {rest : List ℕ} (hf : f.Sound g rest) {n : ℕ} :
    n ∈ f.ready ↔ n ∈ rest ∧ g.openIn rest n = 0 := by
  rw [hf.ready, List.mem_filter, openIn_eq_zero, List.all_eq_true]
  simp only [Bool.not_eq_true']

theorem Frontier.Sound.next?_eq {f : Frontier} {rest : List ℕ} (hf : f.Sound g rest) :
    Schedule.next? g.precedes rest = f.ready.head? := by
  rw [hf.ready, List.head?_filter]
  rfl

theorem sound_start (h : g.WellFormed) : g.start.Sound g (List.range g.size) := by
  have hopen : ∀ n, g.inDegree n = g.openIn (List.range g.size) n := by
    intro n
    rw [inDegree, openIn, ← List.countP_eq_length_filter]
    refine List.countP_congr fun e he => ?_
    simp [(h.bound e he).1]
  refine ⟨List.pairwise_lt_range, fun n hn => List.mem_range.1 hn, fun p _ n hpn => ?_, ?_, ?_, ?_⟩
  · exact List.mem_range.2 (h.bound _ (precedes_iff.1 hpn)).2
  · simp [start]
  · intro n hn
    rw [← hopen]
    simp [start, List.getD_eq_getElem?_getD, List.mem_range.1 hn]
  · refine List.filter_congr fun n _ => ?_
    rw [Bool.eq_iff_iff, beq_iff_eq, hopen, openIn_eq_zero, List.all_eq_true]
    simp only [Bool.not_eq_true']

section Advance

variable {f f' : Frontier} {rest r : List ℕ} {n : ℕ}

/-- What the first position has to precede is left when it has run. -/
theorem Frontier.Sound.mem_erase_of_precedes (hf : f.Sound g rest)
    (hn : Schedule.next? g.precedes rest = some n) {p m : ℕ} (hp : p ∈ rest)
    (hedge : g.precedes p m = true) : m ∈ rest.erase n := by
  have hnodup : rest.Nodup := hf.increasing.imp ne_of_lt
  refine hnodup.mem_erase_iff.2 ⟨?_, hf.closed p hp m hedge⟩
  rintro rfl
  rw [(Schedule.next?_eq_some hn).2 p hp] at hedge
  cases hedge

/-- The other ready positions are those of the others that have no predecessor left. -/
theorem Frontier.Sound.mem_tail_ready (hf : f.Sound g rest) (hr : f.ready = n :: r) {k : ℕ} :
    k ∈ r ↔ k ≠ n ∧ k ∈ rest ∧ g.openIn rest k = 0 := by
  have hincr : (n :: r).Pairwise (· < ·) := hr ▸ hf.pairwise_ready
  have hk := hf.mem_ready (n := k)
  rw [hr, List.mem_cons] at hk
  constructor
  · intro hkr
    refine ⟨?_, hk.1 (Or.inr hkr)⟩
    rintro rfl
    exact lt_irrefl _ ((List.pairwise_cons.1 hincr).1 k hkr)
  · rintro ⟨hne, hkrest⟩
    exact (hk.2 hkrest).resolve_left hne

/-- What releasing the successors of the first position makes of a sound frontier is sound for
the other positions. -/
theorem Frontier.Sound.of_released (h : g.WellFormed) (hf : f.Sound g rest)
    (hn : Schedule.next? g.precedes rest = some n) (hr : f.ready = n :: r)
    (hrel : Released { f with ready := r, done := n :: f.done } (g.successors n) f') :
    f'.Sound g (rest.erase n) := by
  have hnrest := (Schedule.next?_eq_some hn).1
  have hnodup : rest.Nodup := hf.increasing.imp ne_of_lt
  have hincr := hf.increasing.sublist (List.erase_sublist (a := n))
  refine ⟨hincr, fun m hm => hf.bound m (List.mem_of_mem_erase hm),
    fun p hp m hpm => hf.mem_erase_of_precedes hn (List.mem_of_mem_erase hp) hpm,
    hrel.length.trans hf.length, fun m hm => ?_, ?_⟩
  · rw [hrel.waiting, hf.waiting m (List.mem_of_mem_erase hm), openIn_erase h hnodup hnrest]
  · -- both lists are increasing, so that only their members have to be compared
    refine hrel.increasing.eq_of_mem_iff (hincr.filter _) fun k => ?_
    have hleft : (∀ p ∈ rest.erase n, (!g.precedes p k) = true)
        ↔ g.openIn rest k - (if k ∈ g.successors n then 1 else 0) = 0 := by
      rw [← openIn_erase h hnodup hnrest, openIn_eq_zero]
      simp only [Bool.not_eq_true']
    rw [hrel.mem_ready, List.mem_filter, List.all_eq_true, hleft, hf.mem_tail_ready hr,
      hnodup.mem_erase_iff]
    constructor
    · rintro (⟨hne, hk, hz⟩ | ⟨hk, hz⟩)
      · exact ⟨⟨hne, hk⟩, by omega⟩
      · have hk' := hnodup.mem_erase_iff.1
          (hf.mem_erase_of_precedes hn hnrest (precedes_iff.2 (mem_successors.1 hk)))
        rw [hf.waiting k hk'.2] at hz
        exact ⟨hk', by rw [if_pos hk]; exact hz⟩
    · rintro ⟨⟨hne, hk⟩, hz⟩
      by_cases hs : k ∈ g.successors n
      · rw [if_pos hs] at hz
        exact Or.inr ⟨hs, by rw [hf.waiting k hk]; exact hz⟩
      · rw [if_neg hs] at hz
        exact Or.inl ⟨hne, hk, hz⟩

/-- While the successors of the first position are released, each of those that has been
released counts one predecessor fewer, and nothing else has changed. -/
theorem Frontier.Sound.released (h : g.WellFormed) (hf : f.Sound g rest) (hr : f.ready = n :: r)
    {ms : List ℕ} (hms : ms.Sublist (g.successors n)) :
    Released { f with ready := r, done := n :: f.done } ms
      (ms.foldl Frontier.release { f with ready := r, done := n :: f.done }) := by
  have hnrest : n ∈ rest := (hf.mem_ready.1 (hr ▸ List.mem_cons_self)).1
  have hincr : (n :: r).Pairwise (· < ·) := hr ▸ hf.pairwise_ready
  have hedge : ∀ m ∈ ms, g.precedes n m = true := fun m hm =>
    precedes_iff.2 (mem_successors.1 (hms.subset hm))
  refine released_foldl (hms.nodup (nodup_successors h n)) (fun m hm => ?_) (fun m hm hmr => ?_)
    (List.pairwise_cons.1 hincr).2
  · rw [hf.length]
    exact hf.bound m (hf.closed n hnrest m (hedge m hm))
  · -- a ready position has no predecessor left, but `n` is one
    have hzero := openIn_eq_zero.1 ((hf.mem_tail_ready hr).1 hmr).2.2 n hnrest
    rw [hedge m hm] at hzero
    cases hzero

/-- **One step of the method** runs the first position that none of those left has to
precede, and keeps the invariant. -/
theorem Frontier.Sound.advance (h : g.WellFormed) (hf : f.Sound g rest)
    (hn : Schedule.next? g.precedes rest = some n) :
    ∃ f', f.advance g = some f' ∧ f'.Sound g (rest.erase n) ∧ f'.done = n :: f.done := by
  obtain ⟨r, hr⟩ : ∃ r, f.ready = n :: r := by
    rw [hf.next?_eq, List.head?_eq_some_iff] at hn
    exact hn
  have hrel := hf.released h hr (List.Sublist.refl _)
  exact ⟨_, by rw [Frontier.advance, hr], hf.of_released h hn hr hrel, hrel.done⟩

end Advance

/-- What has run when no more can is what had run, followed by the greedy schedule of the
positions that were left. -/
theorem Frontier.Sound.done_drain (h : g.WellFormed) {rest : List ℕ} {f : Frontier}
    (hf : f.Sound g rest) {fuel : ℕ} (hfuel : rest.length ≤ fuel) :
    (g.drain fuel f).done = (Schedule.order g.precedes rest).reverse ++ f.done := by
  induction fuel generalizing f rest with
  | zero =>
    obtain rfl := List.length_eq_zero_iff.1 (Nat.le_zero.1 hfuel)
    simp [drain]
  | succ fuel ih =>
    rcases hn : Schedule.next? g.precedes rest with _ | n
    · have hready : f.ready = [] := by
        rwa [hf.next?_eq, List.head?_eq_none_iff] at hn
      simp [drain, Frontier.advance, hready, Schedule.order_of_none hn]
    · -- a round does what the schedule does
      obtain ⟨f', hadv, hf', hdone⟩ := hf.advance h hn
      have hmem := (Schedule.next?_eq_some hn).1
      have hpos := List.length_pos_of_mem hmem
      have hlen : (rest.erase n).length ≤ fuel := by
        rw [List.length_erase_of_mem hmem]
        omega
      rw [drain, hadv]
      simp only
      rw [ih hf' hlen, hdone, Schedule.order_of_some hn, List.reverse_cons, List.append_assoc]
      rfl

/-- **Kahn's method makes the greedy schedule** of the positions. -/
theorem orderedPositions_eq (h : g.WellFormed) :
    g.orderedPositions = Schedule.order g.precedes (List.range g.size) := by
  rw [orderedPositions, (sound_start h).done_drain h (by simp)]
  simp [start]

/-- The steps are in order when every position runs. -/
theorem order?_eq_some_iff (h : g.WellFormed) {steps : List Step} :
    g.order? = some steps ↔ Schedule.Complete g.precedes (List.range g.size) ∧
      steps = (Schedule.order g.precedes (List.range g.size)).filterMap g.step? := by
  have hle : (Schedule.order g.precedes (List.range g.size)).length ≤ (List.range g.size).length :=
    Schedule.length_order_le _
  rw [List.length_range] at hle
  simp only [order?, orderedPositions_eq h, Schedule.Complete, List.length_range]
  split
  · rename_i hlt
    simp only [reduceCtorEq, false_iff, not_and]
    intro heq
    omega
  · rename_i hge
    rw [Option.some.injEq]
    exact ⟨fun he => ⟨by omega, he.symm⟩, fun he => he.2.symm⟩

end SiteConfig.StepGraph
