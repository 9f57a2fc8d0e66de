import Mathlib
import SiteConfig.ImportError
import SiteConfig.Proofs.Components
import SiteConfig.Proofs.NameMap
import SiteConfig.Proofs.Plan

/-!
# Which cycles are reported

A plan fails when the pending removals depend on one another in a circle, or the pending
additions do, and for no other reason (`SiteConfig.Requirements.plan_error`). What is then
reported are the knots of what is pending: an item that merely depends on a cycle is in no
knot, and what is not pending is not in the relation at all.

Unlike the order of a plan, this holds of every changelist, also of one in which a name
stands twice. An item that is filed twice keeps its first step, which is then the one that
the report shows (`SiteConfig.Requirements.Shows`).

A step graph is about positions and a report is about items. What is said of positions
carries over because each item has one position (`SiteConfig.Requirements.Draws.renames`).
Dependent removals come first and dependent additions come last, so that the graph of the
additions runs against the dependencies; a relation that is turned around has the same knots.
-/

namespace SiteConfig.Requirements

open Relation (TransGen)

/-! ### What depends on what -/

/-- The items that an item to be removed depends on. -/
def neededToRemove (r : Requirements) : Item → List Item
  | .document n => r.neededByDeleted n
  | .extension e => r.neededByExtension e

/-- The items that an item to be added or changed depends on. -/
def neededToAdd (r : Requirements) : Item → List Item
  | .document n => r.neededByWritten n
  | .extension e => r.neededByExtension e

/-- Of two items that are both pending, the first depends on the second. -/
def Among (pending : List (Item × Step)) (needs : Item → List Item) (i j : Item) : Prop :=
  i ∈ pending.map (·.1) ∧ j ∈ pending.map (·.1) ∧ j ∈ needs i

/-- One pending removal depends on another one. -/
def RemovalNeeds (r : Requirements) (c : Changelist) (x : ExtensionChanges) :
    Item → Item → Prop := Among (removals c x) r.neededToRemove

/-- One pending addition depends on another one. -/
def AdditionNeeds (r : Requirements) (c : Changelist) (x : ExtensionChanges) :
    Item → Item → Prop := Among (additions c x) r.neededToAdd

/-- **How a report shows some pending items**: the subjects of their steps, sorted and
joined. -/
def Shows (pending : List (Item × Step)) (members : List Item) (text : String) : Prop :=
  ∃ subjects : List String, text = ", ".intercalate subjects ∧ subjects.Pairwise (· ≤ ·) ∧
    (subjects.map some).Perm (members.map fun i => (pending.lookup i).map Step.subject)

/-- **A report of the cycles among pending items**: each knot is shown, once. -/
def Reports (pending : List (Item × Step)) (needs : Item → Item → Prop) (texts : List String) :
    Prop :=
  ∃ knots, ListsKnots needs knots ∧ List.Forall₂ (Shows pending) knots texts

/-! ### Filing steps -/

open StepGraph

variable {g : StepGraph} {steps : List (Item × Step)}

/-- A graph has each of the items of some steps, under the first step of that item. -/
structure Files (g : StepGraph) (steps : List (Item × Step)) : Prop where
  nodup : (g.nodes.map (·.1)).Nodup
  lookup : ∀ i, g.nodes.lookup i = steps.lookup i

theorem mem_items_iff {i : Item} : i ∈ steps.map (·.1) ↔ (steps.lookup i).isSome = true := by
  rw [List.lookup_isSome_iff, List.mem_map]
  exact exists_congr fun s => and_congr_right fun _ => by rw [beq_iff_eq, eq_comm]

theorem Files.mem_items_iff (h : Files g steps) {i : Item} :
    i ∈ g.nodes.map (·.1) ↔ i ∈ steps.map (·.1) := by
  rw [Requirements.mem_items_iff, h.lookup, Requirements.mem_items_iff]

theorem files_empty : Files .empty [] := ⟨List.nodup_nil, fun _ => rfl⟩

/-- A step of an item that is there already changes nothing, and would not be looked up. -/
theorem Files.add (h : Files g steps) (i : Item) (s : Step) :
    Files (g.add i s) (steps ++ [(i, s)]) := by
  unfold StepGraph.add
  split
  · rename_i hany
    have hi : i ∈ g.nodes.map (·.1) := by simpa using hany
    refine ⟨h.nodup, fun j => ?_⟩
    rw [List.lookup_append, h.lookup]
    by_cases hj : j = i
    · subst hj
      obtain ⟨t, ht⟩ := Option.isSome_iff_exists.1
        (Requirements.mem_items_iff.1 (h.mem_items_iff.1 hi))
      rw [ht, Option.some_or]
    · simp [List.lookup_cons, beq_false_of_ne hj]
  · rename_i hany
    have hi : i ∉ g.nodes.map (·.1) := by simpa using hany
    refine ⟨?_, fun j => ?_⟩
    · rw [List.map_append, List.map_singleton]
      refine List.nodup_append.2 ⟨h.nodup, List.nodup_singleton _, ?_⟩
      rintro j hj k hk rfl
      obtain rfl : j = i := List.mem_singleton.1 hk
      exact hi hj
    · rw [List.lookup_append, List.lookup_append, h.lookup]

theorem files_addAll (steps : List (Item × Step)) : Files (addAll .empty steps) steps := by
  suffices h : ∀ (g : StepGraph) (filed : List (Item × Step)), Files g filed →
      Files (addAll g steps) (filed ++ steps) from h .empty [] files_empty
  induction steps with
  | nil => exact fun g filed h => by simpa [addAll] using h
  | cons s steps ih =>
    intro g filed h
    simpa [addAll] using ih _ _ (h.add s.1 s.2)

theorem edges_addAll (g : StepGraph) (steps : List (Item × Step)) :
    (addAll g steps).edges = g.edges := by
  induction steps generalizing g with
  | nil => rfl
  | cons s steps ih =>
    have hadd : (g.add s.1 s.2).edges = g.edges := by
      unfold StepGraph.add
      split <;> rfl
    exact (ih (g.add s.1 s.2)).trans hadd

/-! ### Items and their positions -/

/-- The item at a position; what it gives outside of the graph does not matter. -/
def itemAt (g : StepGraph) (a : ℕ) : Item := (g.nodes.map (·.1)).getD a (.document "")

theorem itemAt_eq {a : ℕ} (h : a < g.nodes.length) : itemAt g a = (g.nodes[a]).1 := by
  simp [itemAt, h]

theorem getElem_items {a : ℕ} (h : a < (g.nodes.map (·.1)).length) :
    (g.nodes.map (·.1))[a] = itemAt g a := by
  rw [itemAt, List.getD_eq_getElem _ _ h]

/-- The position of an item is where it stands. -/
theorem index?_iff_itemAt (hn : (g.nodes.map (·.1)).Nodup) {i : Item} {a : ℕ} :
    g.index? i = some a ↔ a < g.size ∧ itemAt g a = i := by
  have hindex : g.index? i = (g.nodes.map (·.1)).findIdx? (· == i) := by
    rw [List.findIdx?_map]
    rfl
  have hsize : (g.nodes.map (·.1)).length = g.size := List.length_map _
  rw [hindex, List.findIdx?_eq_some_iff_getElem]
  constructor
  · rintro ⟨ha, hi, -⟩
    rw [beq_iff_eq, getElem_items ha] at hi
    exact ⟨hsize ▸ ha, hi⟩
  · rintro ⟨ha, hi⟩
    have ha := hsize.symm ▸ ha
    refine ⟨ha, by rw [beq_iff_eq, getElem_items ha, hi], fun b hb => ?_⟩
    rw [beq_iff_eq, ← hi, ← getElem_items ha]
    exact fun heq => absurd ((hn.getElem_inj_iff).1 heq) (Nat.ne_of_lt hb)

theorem itemAt_injective (hn : (g.nodes.map (·.1)).Nodup) {a b : ℕ} (ha : a < g.size)
    (hb : b < g.size) (h : itemAt g a = itemAt g b) : a = b := by
  have ha := (index?_iff_itemAt hn).2 ⟨ha, h⟩
  rw [(index?_iff_itemAt hn).2 ⟨hb, rfl⟩, Option.some.injEq] at ha
  exact ha.symm

/-- The step at a position is the one that its item is looked up by. -/
theorem Files.step?_eq (h : Files g steps) {a : ℕ} (ha : a < g.size) :
    g.step? a = steps.lookup (itemAt g a) := by
  have hlen : a < g.nodes.length := ha
  have hitem := itemAt_eq hlen
  have hstep : g.step? a = some (g.nodes[a]).2 := by simp [step?, hlen]
  rw [hstep, ← h.lookup, hitem, eq_comm, List.lookup_eq_some_iff]
  refine ⟨g.nodes.take a, g.nodes.drop (a + 1), ?_, fun p hp => ?_⟩
  · rw [Prod.mk.eta, ← List.drop_eq_getElem_cons hlen, List.take_append_drop]
  · -- no other position has that item
    obtain ⟨b, hb, rfl⟩ := List.getElem_of_mem hp
    have hba : b < a := (List.length_take ▸ hb).trans_le (Nat.min_le_left _ _)
    rw [bne_iff_ne, List.getElem_take, ← hitem, ← itemAt_eq (hba.trans hlen)]
    exact fun heq => absurd (itemAt_injective h.nodup ha (hba.trans ha) heq) hba.ne'

/-! ### Graphs of pending items -/

/-- A graph files some steps and has an edge from one item to another just when the first
has to come before the second. -/
structure Draws (g : StepGraph) (steps : List (Item × Step)) (first : Item → Item → Prop) :
    Prop extends Files g steps where
  wellFormed : g.WellFormed
  left : ∀ i j, first i j → i ∈ steps.map (·.1)
  right : ∀ i j, first i j → j ∈ steps.map (·.1)
  mem_edges : ∀ e, e ∈ g.edges ↔ ∃ i j, first i j ∧ Joins g i j e

variable {first : Item → Item → Prop}

/-- The items are other names of the positions. -/
theorem Draws.renames (h : Draws g steps first) :
    Renames (fun a b => g.precedes a b = true) first (itemAt g) (· < g.size) where
  injective a b ha hb := itemAt_injective h.nodup ha hb
  left a b hab := (h.wellFormed.bound _ (precedes_iff.1 hab)).1
  right a b hab := (h.wellFormed.bound _ (precedes_iff.1 hab)).2
  rel i j := by
    have hpos : ∀ {i}, i ∈ steps.map (·.1) → ∃ a, a < g.size ∧ itemAt g a = i := by
      intro i hi
      obtain ⟨a, ha, rfl⟩ := List.getElem_of_mem (h.mem_items_iff.2 hi)
      exact ⟨a, by simpa [size] using ha, (getElem_items ha).symm⟩
    constructor
    · intro hij
      obtain ⟨a, ha, rfl⟩ := hpos (h.left i j hij)
      obtain ⟨b, hb, rfl⟩ := hpos (h.right _ j hij)
      exact ⟨a, b, precedes_iff.2 ((h.mem_edges _).2 ⟨_, _, hij,
        (index?_iff_itemAt h.nodup).2 ⟨ha, rfl⟩, (index?_iff_itemAt h.nodup).2 ⟨hb, rfl⟩⟩),
        rfl, rfl⟩
    · rintro ⟨a, b, hab, rfl, rfl⟩
      obtain ⟨i, j, hij, hi, hj⟩ := (h.mem_edges _).1 (precedes_iff.1 hab)
      rw [((index?_iff_itemAt h.nodup).1 hi).2, ((index?_iff_itemAt h.nodup).1 hj).2]
      exact hij

/-- **A graph of items has no order** just when some item has to come before itself. -/
theorem Draws.order?_eq_none_iff (h : Draws g steps first) :
    g.order? = Option.none ↔ ∃ i, TransGen first i i :=
  (StepGraph.order?_eq_none_iff h.wellFormed).trans h.renames.exists_transGen_iff.symm

/-- The subjects at some positions of a graph, for its report. -/
theorem Files.shows (h : Files g steps) {members : List ℕ} (hm : ∀ a ∈ members, a < g.size) :
    Shows steps (members.map (itemAt g)) (ImportError.cycleText (g.subjects members)) := by
  refine ⟨g.subjects members, rfl, ?_, ?_⟩
  · exact NameMap.sorted_mergeSort _
  · have hsubject : ∀ a ∈ members, (g.step? a).map (·.subject)
        = ((steps.lookup (itemAt g a)).map (·.subject)) := fun a ha => by
      rw [h.step?_eq (hm a ha)]
    have hall : ∀ a ∈ members, ∃ s, (g.step? a).map (·.subject) = some s := fun a ha => by
      obtain ⟨s, hs⟩ := exists_step? (hm a ha)
      exact ⟨s.subject, by rw [hs, Option.map_some]⟩
    rw [List.map_map]
    refine ((List.mergeSort_perm _ _).map some).trans (.of_eq ?_)
    rw [map_some_filterMap hall]
    exact List.map_congr_left hsubject

/-- **A graph of items reports its knots.** -/
theorem Draws.reports (h : Draws g steps first) :
    Reports steps first (g.cycles.map ImportError.cycleText) := by
  have hknots := listsKnots_components h.wellFormed
  refine ⟨_, h.renames.listsKnots hknots, ?_⟩
  rw [cycles, List.map_map, List.forall₂_map_left_iff, List.forall₂_map_right_iff,
    List.forall₂_same]
  exact fun members hm => h.shows fun a ha => h.renames.of_mem (hknots.sound members hm) ha

/-- A graph that has an order has nothing to report. -/
theorem Draws.reports_unordered (h : Draws g steps first) :
    Reports steps first ((if g.order?.isNone then g.cycles else []).map ImportError.cycleText) := by
  by_cases hno : g.order? = Option.none
  · rw [hno, Option.isNone_none, if_pos rfl]
    exact h.reports
  · rw [if_neg (by simpa using hno)]
    exact ⟨[], listsKnots_nil fun hcycle => hno (h.order?_eq_none_iff.2 hcycle), .nil⟩

theorem Reports.swap {texts : List String} (h : Reports steps (fun i j => first j i) texts) :
    Reports steps first texts := by
  obtain ⟨knots, hknots, htexts⟩ := h
  exact ⟨knots, hknots.swap, htexts⟩

theorem exists_transGen_swap :
    (∃ i, TransGen (fun i j => first j i) i i) ↔ ∃ i, TransGen first i i :=
  exists_congr fun _ => Relation.transGen_swap

/-! ### The two graphs of a plan -/

/-- Filing steps and then drawing the edges of a relation makes the graph of that relation. -/
theorem draws_of_extends (hleft : ∀ i j, first i j → i ∈ steps.map (·.1))
    (hright : ∀ i j, first i j → j ∈ steps.map (·.1))
    (h : Extends (addAll .empty steps) g fun e =>
      ∃ i j, first i j ∧ Joins (addAll .empty steps) i j e) : Draws g steps first where
  nodup := by rw [h.nodes]; exact (files_addAll steps).nodup
  lookup := by rw [h.nodes]; exact (files_addAll steps).lookup
  wellFormed := h.wellFormed
    ⟨by rw [edges_addAll]; exact List.nodup_nil, by simp [edges_addAll, StepGraph.empty]⟩
  left := hleft
  right := hright
  mem_edges e := by
    rw [h.mem_edges, edges_addAll]
    simp [StepGraph.empty, joins_congr h.nodes]

/-- An item that an edge ends at is pending. -/
theorem mem_items_of_index? {i : Item} {a : ℕ} (h : (addAll .empty steps).index? i = some a) :
    i ∈ steps.map (·.1) := by
  have hf := files_addAll steps
  obtain ⟨ha, rfl⟩ := (index?_iff_itemAt hf.nodup).1 h
  have ha' : a < ((addAll .empty steps).nodes.map (·.1)).length := by simpa [size] using ha
  rw [← hf.mem_items_iff, ← getElem_items ha']
  exact List.getElem_mem ha'

variable (r : Requirements) (c : Changelist) (x : ExtensionChanges)

theorem exists_mem_items_removals {P : Item → Prop} : (∃ i ∈ (removals c x).map (·.1), P i)
    ↔ (∃ n ∈ c.delete, P (.document n)) ∨ ∃ e ∈ x.uninstall, P (.extension e) := by
  simp [removals, or_and_right, exists_or]

theorem exists_mem_items_additions {P : Item → Prop} : (∃ i ∈ (additions c x).map (·.1), P i)
    ↔ (∃ e ∈ x.install, P (.extension e)) ∨ ∃ n ∈ c.writtenNames, P (.document n) := by
  rw [exists_writtenNames]
  simp [additions, or_and_right, exists_or]

theorem draws_removalGraph :
    Draws (r.removalGraph c x) (removals c x) (r.RemovalNeeds c x) := by
  refine draws_of_extends (fun i j h => h.1) (fun i j h => h.2.1) ?_
  have hdel := extends_beforeAll (g := addAll .empty (removals c x)) rfl Item.document
    r.neededByDeleted c.delete
  have hun := extends_beforeAll hdel.nodes Item.extension r.neededByExtension x.uninstall
  refine (hdel.trans hun).congr fun e => ?_
  refine (exists_mem_items_removals c x (P := fun i => ∃ o ∈ r.neededToRemove i,
    Joins (addAll .empty (removals c x)) i o e)).symm.trans ?_
  constructor
  · rintro ⟨i, hi, o, ho, hjoin⟩
    exact ⟨i, o, ⟨hi, mem_items_of_index? hjoin.2, ho⟩, hjoin⟩
  · rintro ⟨i, j, ⟨hi, -, hj⟩, hjoin⟩
    exact ⟨i, hi, j, hj, hjoin⟩

theorem draws_additionGraph :
    Draws (r.additionGraph c x) (additions c x) fun i j => r.AdditionNeeds c x j i := by
  refine draws_of_extends (fun i j h => h.2.1) (fun i j h => h.1) ?_
  have hins := extends_afterAll (g := addAll .empty (additions c x)) rfl Item.extension
    r.neededByExtension x.install
  have hwr := extends_afterAll hins.nodes Item.document r.neededByWritten c.writtenNames
  refine (hins.trans hwr).congr fun e => ?_
  refine (exists_mem_items_additions c x (P := fun i => ∃ o ∈ r.neededToAdd i,
    Joins (addAll .empty (additions c x)) o i e)).symm.trans ?_
  constructor
  · rintro ⟨i, hi, o, ho, hjoin⟩
    exact ⟨o, i, ⟨hi, mem_items_of_index? hjoin.1, ho⟩, hjoin⟩
  · rintro ⟨i, j, ⟨hj, -, hi⟩, hjoin⟩
    exact ⟨j, hj, i, hi, hjoin⟩

/-! ### When a plan fails -/

variable {r c x}

/-- A plan fails where one of its graphs has no order, and reports the cycles of each that
has none. -/
theorem plan_eq_error_iff {found : List (List String)} : r.plan c x = .error found ↔
    ((r.removalGraph c x).order? = Option.none ∨ (r.additionGraph c x).order? = Option.none) ∧
      found = (if (r.removalGraph c x).order?.isNone then (r.removalGraph c x).cycles else [])
        ++ (if (r.additionGraph c x).order?.isNone then (r.additionGraph c x).cycles else []) := by
  rw [plan]
  rcases (r.removalGraph c x).order? with _ | removed <;>
    rcases (r.additionGraph c x).order? with _ | added <;> simp [eq_comm]

variable (r c x)

/-- **When a plan fails, and what it reports**: it fails just when pending removals or pending
additions depend on one another in a circle, and then it shows the knots of the removals
and after them those of the additions. -/
theorem plan_error :
    ((∃ found, r.plan c x = .error found) ↔
      (∃ i, TransGen (r.RemovalNeeds c x) i i) ∨ ∃ i, TransGen (r.AdditionNeeds c x) i i) ∧
    ∀ found, r.plan c x = .error found → ∃ removing adding,
      found.map ImportError.cycleText = removing ++ adding ∧
        Reports (removals c x) (r.RemovalNeeds c x) removing ∧
        Reports (additions c x) (r.AdditionNeeds c x) adding := by
  have hr := r.draws_removalGraph c x
  have ha := r.draws_additionGraph c x
  constructor
  · have hswap := ha.order?_eq_none_iff.trans exists_transGen_swap
    rw [← hr.order?_eq_none_iff, ← hswap]
    exact ⟨fun ⟨_, h⟩ => (plan_eq_error_iff.1 h).1, fun h => ⟨_, plan_eq_error_iff.2 ⟨h, rfl⟩⟩⟩
  · intro found h
    obtain ⟨-, rfl⟩ := plan_eq_error_iff.1 h
    exact ⟨_, _, List.map_append, hr.reports_unordered, ha.reports_unordered.swap⟩

end SiteConfig.Requirements
