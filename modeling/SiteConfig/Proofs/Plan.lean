import Mathlib
import SiteConfig.Plan
import SiteConfig.Proofs.Changelist
import SiteConfig.Proofs.Kahn

/-!
# The order of a plan

A plan is the greedy schedule of the removals followed by the greedy schedule of the
additions (`SiteConfig.Requirements.plan_eq_ok_iff`). A removal has to run before the
removals of what it depends on, an addition after the additions of what it depends on.

The four phases of a plan – deletions, uninstallations, installations, writes – are said
nowhere in it. They come about because documents depend on extensions but no extension
depends on a document: nothing of a later phase ever has to precede something of an
earlier one, and among equals the schedule follows the lists, in which the earlier phase
stands first (`SiteConfig.Requirements.schedules_append`).
-/

namespace SiteConfig

namespace Step

/-- The item that a step changes; a renamed document is known by its new name. -/
def item : Step → Item
  | .create n => .document n
  | .update n => .document n
  | .delete n => .document n
  | .rename _ n => .document n
  | .install e => .extension e
  | .uninstall e => .extension e

/-- The phase of a plan that a step belongs to: deletions, uninstallations, installations,
and last everything that writes a document. -/
def phase : Step → ℕ
  | .delete _ => 0
  | .uninstall _ => 1
  | .install _ => 2
  | .create _ => 3
  | .update _ => 3
  | .rename .. => 3

/-- Whether a step takes something away. -/
def isRemoval (s : Step) : Bool := s.phase < 2

end Step

/-- Whether a step comes before another one wherever both of them stand in a list. -/
def Step.Precedes (steps : List Step) (s t : Step) : Prop :=
  ∀ i j : ℕ, steps[i]? = some s → steps[j]? = some t → i < j

/-! ### Pending steps -/

namespace Changelist

/-- The deletions. -/
def deletions (c : Changelist) : List Step := c.delete.map .delete

/-- The steps that write documents. -/
def writes (c : Changelist) : List Step :=
  c.create.map .create ++ c.rename.map (fun r => .rename r.source r.target) ++
    c.update.map .update

end Changelist

namespace ExtensionChanges

/-- No extension is to be installed twice, and none to be uninstalled twice. -/
def Distinct (x : ExtensionChanges) : Prop := x.install.Nodup ∧ x.uninstall.Nodup

/-- The installations. -/
def installations (x : ExtensionChanges) : List Step := x.install.map .install

/-- The uninstallations. -/
def uninstallations (x : ExtensionChanges) : List Step := x.uninstall.map .uninstall

end ExtensionChanges

namespace Requirements

/-- The steps that remove something, in the order of the lists. -/
def removalSteps (c : Changelist) (x : ExtensionChanges) : List Step :=
  c.deletions ++ x.uninstallations

/-- The steps that add or change something, in the order of the lists. -/
def additionSteps (c : Changelist) (x : ExtensionChanges) : List Step :=
  x.installations ++ c.writes

/-- Every pending step. -/
def pendingSteps (c : Changelist) (x : ExtensionChanges) : List Step :=
  removalSteps c x ++ additionSteps c x

theorem removals_eq (c : Changelist) (x : ExtensionChanges) :
    removals c x = (removalSteps c x).map fun s => (s.item, s) := by
  simp [removals, removalSteps, Changelist.deletions, ExtensionChanges.uninstallations, Step.item,
    Function.comp_def]

theorem additions_eq (c : Changelist) (x : ExtensionChanges) :
    additions c x = (additionSteps c x).map fun s => (s.item, s) := by
  simp [additions, additionSteps, Changelist.writes, ExtensionChanges.installations, Step.item,
    Function.comp_def]

theorem isRemoval_of_mem {c : Changelist} {x : ExtensionChanges} {s : Step}
    (h : s ∈ removalSteps c x) : s.isRemoval = true := by
  simp only [removalSteps, Changelist.deletions, ExtensionChanges.uninstallations, List.mem_append,
    List.mem_map] at h
  rcases h with ⟨n, -, rfl⟩ | ⟨e, -, rfl⟩ <;> rfl

theorem not_isRemoval_of_mem {c : Changelist} {x : ExtensionChanges} {s : Step}
    (h : s ∈ additionSteps c x) : s.isRemoval = false := by
  simp only [additionSteps, Changelist.writes, ExtensionChanges.installations, List.mem_append,
    List.mem_map] at h
  rcases h with ⟨e, -, rfl⟩ | (⟨n, -, rfl⟩ | ⟨r, -, rfl⟩) | ⟨n, -, rfl⟩ <;> rfl

/-! ### Disjoint changes give distinct items -/

theorem nodup_items_removalSteps {c : Changelist} {x : ExtensionChanges} (hc : c.Disjoint)
    (hx : x.Distinct) : ((removalSteps c x).map Step.item).Nodup := by
  have hdel : c.delete.Nodup := by
    have := hc
    simp only [Changelist.Disjoint, List.nodup_append] at this
    exact this.1.1.2.1
  rw [removalSteps, List.map_append, Changelist.deletions, ExtensionChanges.uninstallations,
    List.map_map, List.map_map]
  refine List.nodup_append.2 ⟨hdel.map fun a b h => ?_, hx.2.map fun a b h => ?_, ?_⟩
  · simpa [Step.item] using h
  · simpa [Step.item] using h
  · rintro i hi j hj rfl
    obtain ⟨n, -, rfl⟩ := List.mem_map.1 hi
    simp [Step.item] at hj

theorem nodup_items_additionSteps {c : Changelist} {x : ExtensionChanges} (hc : c.Disjoint)
    (hx : x.Distinct) : ((additionSteps c x).map Step.item).Nodup := by
  have hnames : (c.create ++ c.rename.map (·.target) ++ c.update).Nodup := by
    have := hc
    simp only [Changelist.Disjoint, List.nodup_append, List.mem_append] at this ⊢
    grind
  have hitems : (additionSteps c x).map Step.item
      = x.install.map .extension
        ++ (c.create ++ c.rename.map (·.target) ++ c.update).map .document := by
    simp [additionSteps, Changelist.writes, ExtensionChanges.installations, Step.item,
      Function.comp_def]
  rw [hitems]
  refine List.nodup_append.2 ⟨hx.1.map fun a b h => by simpa using h,
    hnames.map fun a b h => by simpa using h, ?_⟩
  rintro i hi j hj rfl
  obtain ⟨e, -, rfl⟩ := List.mem_map.1 hi
  simp at hj

/-! ### What has to precede what -/

/-- The items that a pending step declares to depend on: a deletion by the document of the
target, a write by that of the source. -/
def declared (r : Requirements) : Step → List Item
  | .delete n => r.neededByDeleted n
  | .create n => r.neededByWritten n
  | .update n => r.neededByWritten n
  | .rename _ n => r.neededByWritten n
  | .install e => r.neededByExtension e
  | .uninstall e => r.neededByExtension e

/-- Whether a step depends on what another one changes. -/
def DependsOn (r : Requirements) (s t : Step) : Prop := t.item ∈ r.declared s

/-- Of two removals, the one that depends on the other has to come first. -/
def removedFirst (r : Requirements) (s t : Step) : Bool := (r.declared s).contains t.item

/-- Of two additions, the one that the other depends on has to come first. -/
def addedFirst (r : Requirements) (s t : Step) : Bool := (r.declared t).contains s.item

/-! ### The graphs of a plan -/

section Graphs

open StepGraph

/-- What one graph has more than another one on the same positions: some edges. -/
structure Extends (g g' : StepGraph) (new : ℕ × ℕ → Prop) : Prop where
  nodes : g'.nodes = g.nodes
  wellFormed : g.WellFormed → g'.WellFormed
  mem_edges : ∀ e, e ∈ g'.edges ↔ e ∈ g.edges ∨ new e

/-- An edge joins the positions of two items. -/
def Joins (g : StepGraph) (i j : Item) (e : ℕ × ℕ) : Prop :=
  g.index? i = some e.1 ∧ g.index? j = some e.2

theorem lt_size_of_index? {g : StepGraph} {i : Item} {n : ℕ} (h : g.index? i = some n) :
    n < g.size := (List.findIdx?_eq_some_iff_getElem.1 h).1

theorem Extends.refl (g : StepGraph) : Extends g g fun _ => False :=
  ⟨rfl, id, by simp⟩

theorem Extends.trans {g g' g'' : StepGraph} {new new' : ℕ × ℕ → Prop} (h : Extends g g' new)
    (h' : Extends g' g'' new') : Extends g g'' fun e => new e ∨ new' e :=
  ⟨h'.nodes.trans h.nodes, fun hg => h'.wellFormed (h.wellFormed hg), fun e => by
    rw [h'.mem_edges, h.mem_edges, or_assoc]⟩

theorem Extends.congr {g g' : StepGraph} {new new' : ℕ × ℕ → Prop} (h : Extends g g' new)
    (hnew : ∀ e, new e ↔ new' e) : Extends g g' new' :=
  ⟨h.nodes, h.wellFormed, fun e => by rw [h.mem_edges, hnew]⟩

theorem extends_before (g : StepGraph) (i j : Item) : Extends g (g.before i j) (Joins g i j) := by
  unfold StepGraph.before Joins
  rcases hi : g.index? i with _ | a
  · exact (Extends.refl g).congr (by simp)
  rcases hj : g.index? j with _ | b
  · exact (Extends.refl g).congr (by simp)
  simp only
  split
  · rename_i hab
    -- the edge is there already
    refine ⟨rfl, id, fun e => ⟨.inl, ?_⟩⟩
    rintro (h | ⟨h₁, h₂⟩)
    · exact h
    · obtain ⟨a', b'⟩ := e
      cases h₁
      cases h₂
      simpa using hab
  · rename_i hab
    -- the edge is new
    have hnew : (a, b) ∉ g.edges := by simpa using hab
    refine ⟨rfl, fun hg => ⟨?_, ?_⟩, fun e => ?_⟩
    · exact List.nodup_append.2 ⟨hg.nodup, List.nodup_singleton _, fun e he f hf hef => by
        rw [List.mem_singleton] at hf
        exact hnew (hf ▸ hef ▸ he)⟩
    · intro e he
      rcases List.mem_append.1 he with he | he
      · exact hg.bound e he
      · rw [List.mem_singleton] at he
        subst he
        exact ⟨lt_size_of_index? (g := g) hi, lt_size_of_index? (g := g) hj⟩
    · obtain ⟨a', b'⟩ := e
      simp only [List.mem_append, List.mem_singleton, Prod.mk.injEq, Option.some.injEq]
      exact or_congr_right ⟨fun h => ⟨h.1.symm, h.2.symm⟩, fun h => ⟨h.1.symm, h.2.symm⟩⟩

/-- Extending a graph again and again, by what its positions alone determine. -/
theorem extends_foldl {α : Type} {f : StepGraph → α → StepGraph} {new : α → ℕ × ℕ → Prop}
    {g : StepGraph} (hf : ∀ g', g'.nodes = g.nodes → ∀ a, Extends g' (f g' a) (new a))
    (l : List α) : Extends g (l.foldl f g) fun e => ∃ a ∈ l, new a e := by
  suffices h : ∀ g', g'.nodes = g.nodes → Extends g' (l.foldl f g') fun e => ∃ a ∈ l, new a e from
    h g rfl
  induction l with
  | nil => exact fun g' _ => (Extends.refl g').congr (by simp)
  | cons a l ih =>
    intro g' hg'
    have hstep := hf g' hg' a
    exact (hstep.trans (ih _ (hstep.nodes.trans hg'))).congr fun e => by simp

theorem joins_congr {g g' : StepGraph} (h : g'.nodes = g.nodes) (i j : Item) :
    Joins g' i j = Joins g i j := by
  funext e
  simp only [Joins, index?, h]

/-- Drawing, for each of some things, edges from its item to others. -/
theorem extends_beforeAll {α : Type} {g g' : StepGraph} (hg : g'.nodes = g.nodes) (item : α → Item)
    (others : α → List Item) (l : List α) :
    Extends g' (l.foldl (fun g a => beforeAll g (item a) (others a)) g') fun e =>
      ∃ a ∈ l, ∃ o ∈ others a, Joins g (item a) o e :=
  extends_foldl (fun _ hk a => extends_foldl (fun k' hk' o =>
    joins_congr (hk'.trans (hk.trans hg)) (item a) o ▸ extends_before k' (item a) o) (others a)) l

/-- Drawing, for each of some things, edges to its item from others. -/
theorem extends_afterAll {α : Type} {g g' : StepGraph} (hg : g'.nodes = g.nodes) (item : α → Item)
    (others : α → List Item) (l : List α) :
    Extends g' (l.foldl (fun g a => afterAll g (item a) (others a)) g') fun e =>
      ∃ a ∈ l, ∃ o ∈ others a, Joins g o (item a) e :=
  extends_foldl (fun _ hk a => extends_foldl (fun k' hk' o =>
    joins_congr (hk'.trans (hk.trans hg)) o (item a) ▸ extends_before k' o (item a)) (others a)) l

/-- Steps of distinct items are filed one after the other. -/
theorem addAll_eq {g : StepGraph} {steps : List (Item × Step)}
    (h : ((g.nodes ++ steps).map (·.1)).Nodup) :
    addAll g steps = { g with nodes := g.nodes ++ steps } := by
  induction steps generalizing g with
  | nil => simp [addAll]
  | cons s steps ih =>
    have hs : g.nodes.any (fun m => m.1 == s.1) = false := by
      rw [List.any_eq_false]
      intro m hm
      rw [List.map_append, List.nodup_append] at h
      simpa using h.2.2 m.1 (List.mem_map_of_mem hm) s.1 (by simp)
    have hadd : g.add s.1 s.2 = { g with nodes := g.nodes ++ [s] } := by
      simp [StepGraph.add, hs]
    have hrest := ih (g := g.add s.1 s.2) (by rw [hadd]; simpa using h)
    rw [hadd] at hrest
    simpa [addAll, hadd] using hrest

/-- The graph of some steps, each filed under its item, without edges. -/
def filed (steps : List Step) : StepGraph := addAll .empty (steps.map fun s => (s.item, s))

theorem filed_eq {steps : List Step} (hn : (steps.map Step.item).Nodup) :
    filed steps = ⟨steps.map fun s => (s.item, s), []⟩ := by
  rw [filed, addAll_eq]
  · simp [StepGraph.empty]
  · simpa [StepGraph.empty, Function.comp_def] using hn

/-- A graph of some steps, in which a position has an edge to another one just when the
one step has to come before the other. -/
structure Graphs (g : StepGraph) (steps : List Step) (first : Step → Step → Bool) : Prop where
  nodes : g.nodes = steps.map fun s => (s.item, s)
  wellFormed : g.WellFormed
  precedes : ∀ (a b : ℕ) (s t : Step), steps[a]? = some s → steps[b]? = some t →
    g.precedes a b = first s t

variable {steps : List Step}

/-- With distinct items, each step is at the position of its item. -/
theorem index?_eq_some_iff {g : StepGraph} (hg : g.nodes = steps.map fun s => (s.item, s))
    (hn : (steps.map Step.item).Nodup) {i : Item} {a : ℕ} :
    g.index? i = some a ↔ ∃ s, steps[a]? = some s ∧ s.item = i := by
  rw [index?, hg, List.findIdx?_map]
  constructor
  · intro h
    obtain ⟨hlt, hp, -⟩ := List.findIdx?_eq_some_iff_getElem.1 h
    exact ⟨steps[a], List.getElem?_eq_getElem hlt, by simpa using hp⟩
  · rintro ⟨s, hs, rfl⟩
    obtain ⟨hlt, rfl⟩ := List.getElem?_eq_some_iff.1 hs
    refine List.findIdx?_eq_some_iff_getElem.2 ⟨hlt, by simp, fun j hj => ?_⟩
    have hne := List.pairwise_iff_getElem.1 hn j a (by simpa using hj.trans hlt)
      (by simpa using hlt) hj
    rw [List.getElem_map, List.getElem_map] at hne
    simpa using hne

/-- An item at a position is that of a step. -/
theorem index?_filed_eq_some_iff (hn : (steps.map Step.item).Nodup) {i : Item} {a : ℕ} :
    (filed steps).index? i = some a ↔ ∃ s, steps[a]? = some s ∧ s.item = i :=
  index?_eq_some_iff (by rw [filed_eq hn]) hn

/-- Whoever files steps of distinct items and then draws the edges of a relation gets the
graph of that relation. -/
theorem graphs_of_extends {g : StepGraph} {first : Step → Step → Bool}
    (hn : (steps.map Step.item).Nodup)
    (hg : Extends (filed steps) g fun e =>
      ∃ s ∈ steps, ∃ t ∈ steps, first s t = true ∧ Joins (filed steps) s.item t.item e) :
    Graphs g steps first := by
  have hnodes : g.nodes = steps.map fun s => (s.item, s) := by rw [hg.nodes, filed_eq hn]
  have hedges : (filed steps).edges = [] := by rw [filed_eq hn]
  refine ⟨hnodes, hg.wellFormed ⟨by rw [hedges]; exact List.nodup_nil, by simp [hedges]⟩,
    fun a b s t hs ht => ?_⟩
  -- no two steps are about one item, so that edges between items are edges between steps
  have hinj : ∀ {s' t' : Step}, s' ∈ steps → t' ∈ steps → s'.item = t'.item → s' = t' :=
    fun h h' he => List.inj_on_of_nodup_map hn h h' he
  rw [Bool.eq_iff_iff, precedes_iff, hg.mem_edges, hedges]
  simp only [List.not_mem_nil, false_or, Joins, index?_filed_eq_some_iff hn]
  constructor
  · rintro ⟨s', hs', t', ht', hfirst, ⟨u, hu, hus⟩, v, hv, hvt⟩
    rw [hs, Option.some.injEq] at hu
    rw [ht, Option.some.injEq] at hv
    obtain rfl := hinj hs' (hu ▸ List.mem_of_getElem? hs) hus.symm
    obtain rfl := hinj ht' (hv ▸ List.mem_of_getElem? ht) hvt.symm
    rw [hu, hv]
    exact hfirst
  · intro hfirst
    exact ⟨s, List.mem_of_getElem? hs, t, List.mem_of_getElem? ht, hfirst, ⟨s, hs, rfl⟩, t, ht, rfl⟩

/-- **The order of a graph of steps** is their greedy schedule. -/
theorem Graphs.order?_eq_some_iff {g : StepGraph} {first : Step → Step → Bool}
    (hg : Graphs g steps first) (hn : steps.Nodup) (out : List Step) :
    g.order? = some out ↔ Schedule.Complete first steps ∧ out = Schedule.order first steps := by
  have hsize : g.size = steps.length := by rw [StepGraph.size, hg.nodes, List.length_map]
  -- the step at a position; what it gives outside of the list does not matter
  let at' (a : ℕ) : Step := steps.getD a (.create "")
  have hat : ∀ a ∈ List.range g.size, steps[a]? = some (at' a) := by
    intro a ha
    rw [hsize, List.mem_range] at ha
    simp [at', List.getD_eq_getElem?_getD, ha]
  have hmap : (List.range g.size).map at' = steps := by
    refine List.ext_getElem? fun a => ?_
    by_cases ha : a < steps.length
    · rw [List.getElem?_map, List.getElem?_range (hsize ▸ ha), Option.map_some,
        ← hat a (List.mem_range.2 (hsize ▸ ha))]
    · simp [hsize, ha]
  have hinj : ∀ a ∈ List.range g.size, ∀ b ∈ List.range g.size, at' a = at' b → a = b := by
    intro a ha b hb hab
    obtain ⟨hal, ha'⟩ := List.getElem?_eq_some_iff.1 (hat a ha)
    obtain ⟨hbl, hb'⟩ := List.getElem?_eq_some_iff.1 (hat b hb)
    exact (hn.getElem_inj_iff).1 (ha'.trans (hab.trans hb'.symm))
  have horder : Schedule.order first steps
      = (Schedule.order g.precedes (List.range g.size)).map at' := by
    conv_lhs => rw [← hmap]
    exact Schedule.order_map hinj fun a ha b hb =>
      (hg.precedes a b _ _ (hat a ha) (hat b hb)).symm
  have hsteps : (Schedule.order g.precedes (List.range g.size)).filterMap g.step?
      = (Schedule.order g.precedes (List.range g.size)).map at' := by
    rw [← List.filterMap_eq_map]
    refine List.filterMap_congr fun a ha => ?_
    have := hat a (Schedule.mem_of_mem_order ha)
    rw [StepGraph.step?, hg.nodes, List.getElem?_map, this]
    rfl
  rw [StepGraph.order?_eq_some_iff hg.wellFormed, hsteps, ← horder]
  refine and_congr_left fun _ => ?_
  rw [Schedule.Complete, Schedule.Complete, horder, List.length_map, List.length_range, hsize]

variable (r : Requirements) {c : Changelist} {x : ExtensionChanges}

/-- An edge that a removal draws to something that it depends on is one to another removal. -/
theorem exists_declared_removal (hn : (steps.map Step.item).Nodup) (s : Step) (e : ℕ × ℕ) :
    (∃ o ∈ r.declared s, Joins (filed steps) s.item o e)
      ↔ ∃ t ∈ steps, r.removedFirst s t = true ∧ Joins (filed steps) s.item t.item e := by
  constructor
  · rintro ⟨o, ho, hjoin⟩
    obtain ⟨t, ht, rfl⟩ := (index?_filed_eq_some_iff hn).1 hjoin.2
    exact ⟨t, List.mem_of_getElem? ht, by simpa [removedFirst] using ho, hjoin⟩
  · rintro ⟨t, -, hfirst, hjoin⟩
    exact ⟨t.item, by simpa [removedFirst] using hfirst, hjoin⟩

/-- An edge that an addition draws from something that it depends on is one from another
addition. -/
theorem exists_declared_addition (hn : (steps.map Step.item).Nodup) (t : Step) (e : ℕ × ℕ) :
    (∃ o ∈ r.declared t, Joins (filed steps) o t.item e)
      ↔ ∃ s ∈ steps, r.addedFirst s t = true ∧ Joins (filed steps) s.item t.item e := by
  constructor
  · rintro ⟨o, ho, hjoin⟩
    obtain ⟨s, hs, rfl⟩ := (index?_filed_eq_some_iff hn).1 hjoin.1
    exact ⟨s, List.mem_of_getElem? hs, by simpa [addedFirst] using ho, hjoin⟩
  · rintro ⟨s, -, hfirst, hjoin⟩
    exact ⟨s.item, by simpa [addedFirst] using hfirst, hjoin⟩

theorem exists_removalSteps {P : Step → Prop} : (∃ s ∈ removalSteps c x, P s)
    ↔ (∃ n ∈ c.delete, P (.delete n)) ∨ ∃ e ∈ x.uninstall, P (.uninstall e) := by
  simp [removalSteps, Changelist.deletions, ExtensionChanges.uninstallations, or_and_right,
    exists_or]

theorem exists_additionSteps {P : Step → Prop} : (∃ s ∈ additionSteps c x, P s)
    ↔ (∃ e ∈ x.install, P (.install e)) ∨ (∃ n ∈ c.create, P (.create n)) ∨
      (∃ m ∈ c.rename, P (.rename m.source m.target)) ∨ ∃ n ∈ c.update, P (.update n) := by
  simp only [additionSteps, Changelist.writes, ExtensionChanges.installations, List.mem_append,
    or_and_right, exists_or, List.mem_map, exists_exists_and_eq_and, or_assoc]

theorem exists_writtenNames {P : String → Prop} : (∃ n ∈ c.writtenNames, P n)
    ↔ (∃ n ∈ c.create, P n) ∨ (∃ m ∈ c.rename, P m.target) ∨ ∃ n ∈ c.update, P n := by
  simp only [Changelist.writtenNames, List.mem_append, or_and_right, exists_or, List.mem_map,
    exists_exists_and_eq_and, or_assoc]
  exact or_congr_right or_comm

/-- The removals are graphed with dependents before what they depend on. -/
theorem graphs_removalGraph (hc : c.Disjoint) (hx : x.Distinct) :
    Graphs (r.removalGraph c x) (removalSteps c x) r.removedFirst := by
  have hn := nodup_items_removalSteps hc hx
  refine graphs_of_extends hn ?_
  have hdel := extends_beforeAll (g := filed (removalSteps c x)) rfl Item.document
    r.neededByDeleted c.delete
  have hun := extends_beforeAll hdel.nodes Item.extension r.neededByExtension x.uninstall
  rw [removalGraph, removals_eq]
  refine (hdel.trans hun).congr fun e => ?_
  rw [exists_removalSteps]
  exact or_congr
    (exists_congr fun n => and_congr_right fun _ => r.exists_declared_removal hn (.delete n) e)
    (exists_congr fun f => and_congr_right fun _ => r.exists_declared_removal hn (.uninstall f) e)

/-- The additions are graphed with dependents after what they depend on. -/
theorem graphs_additionGraph (hc : c.Disjoint) (hx : x.Distinct) :
    Graphs (r.additionGraph c x) (additionSteps c x) r.addedFirst := by
  have hn := nodup_items_additionSteps hc hx
  refine graphs_of_extends hn ?_
  have hins := extends_afterAll (g := filed (additionSteps c x)) rfl Item.extension
    r.neededByExtension x.install
  have hwr := extends_afterAll hins.nodes Item.document r.neededByWritten c.writtenNames
  -- edges are declared by the later step
  have hswap : ∀ e, (∃ s ∈ additionSteps c x, ∃ t ∈ additionSteps c x, r.addedFirst s t = true ∧
        Joins (filed (additionSteps c x)) s.item t.item e)
      ↔ ∃ t ∈ additionSteps c x, ∃ s ∈ additionSteps c x, r.addedFirst s t = true ∧
        Joins (filed (additionSteps c x)) s.item t.item e := fun e =>
    ⟨fun ⟨s, hs, t, ht, h⟩ => ⟨t, ht, s, hs, h⟩, fun ⟨t, ht, s, hs, h⟩ => ⟨s, hs, t, ht, h⟩⟩
  rw [additionGraph, additions_eq]
  refine (hins.trans hwr).congr fun e => ?_
  rw [hswap, exists_additionSteps, exists_writtenNames]
  exact or_congr
    (exists_congr fun f => and_congr_right fun _ => r.exists_declared_addition hn (.install f) e)
    (or_congr
      (exists_congr fun n => and_congr_right fun _ => r.exists_declared_addition hn (.create n) e)
      (or_congr
        (exists_congr fun m => and_congr_right fun _ =>
          r.exists_declared_addition hn (.rename m.source m.target) e)
        (exists_congr fun n => and_congr_right fun _ =>
          r.exists_declared_addition hn (.update n) e)))

end Graphs

/-! ### The plan -/

variable {r : Requirements} {c : Changelist} {x : ExtensionChanges}

/-- **A plan is two schedules**: that of the removals and that of the additions, when both
are complete. -/
theorem plan_eq_ok_iff (hc : c.Disjoint) (hx : x.Distinct) {steps : List Step} :
    r.plan c x = .ok steps ↔
      (Schedule.Complete r.removedFirst (removalSteps c x) ∧
        Schedule.Complete r.addedFirst (additionSteps c x)) ∧
      steps = Schedule.order r.removedFirst (removalSteps c x)
        ++ Schedule.order r.addedFirst (additionSteps c x) := by
  have hr := (graphs_removalGraph r hc hx).order?_eq_some_iff
    (nodup_items_removalSteps hc hx).of_map
  have ha := (graphs_additionGraph r hc hx).order?_eq_some_iff
    (nodup_items_additionSteps hc hx).of_map
  -- either graph may have a cycle
  rcases hro : (r.removalGraph c x).order? with _ | removed
  · rw [plan, hro]
    refine iff_of_false (by simp) fun h => ?_
    rw [(hr _).2 ⟨h.1.1, rfl⟩] at hro
    cases hro
  rcases hao : (r.additionGraph c x).order? with _ | added
  · rw [plan, hro, hao]
    refine iff_of_false (by simp) fun h => ?_
    rw [(ha _).2 ⟨h.1.2, rfl⟩] at hao
    cases hao
  rw [plan, hro, hao]
  obtain ⟨hrc, rfl⟩ := (hr _).1 hro
  obtain ⟨hac, rfl⟩ := (ha _).1 hao
  simp only [Except.ok.injEq]
  exact ⟨fun h => ⟨⟨hrc, hac⟩, h.symm⟩, fun h => h.2.symm⟩

/-! ### The phases of a plan -/

/-- No extension depends on a document. -/
theorem document_notMem_neededByExtension (r : Requirements) (e : Extension) (n : String) :
    Item.document n ∉ r.neededByExtension e := by
  simp [neededByExtension]

/-- No uninstallation has to precede a deletion. -/
theorem removedFirst_uninstallation_deletion {s t : Step} (hs : s ∈ c.deletions)
    (ht : t ∈ x.uninstallations) : r.removedFirst t s = false := by
  obtain ⟨n, -, rfl⟩ := List.mem_map.1 hs
  obtain ⟨e, -, rfl⟩ := List.mem_map.1 ht
  simpa [removedFirst, declared, Step.item] using document_notMem_neededByExtension r e n

/-- The item of a step that writes a document is that document. -/
theorem item_of_mem_writes {s : Step} (h : s ∈ c.writes) : ∃ n, s.item = .document n := by
  simp only [Changelist.writes, List.mem_append, List.mem_map] at h
  rcases h with (⟨n, -, rfl⟩ | ⟨m, -, rfl⟩) | ⟨n, -, rfl⟩
  exacts [⟨n, rfl⟩, ⟨m.target, rfl⟩, ⟨n, rfl⟩]

/-- No write has to precede an installation. -/
theorem addedFirst_write_installation {s t : Step} (hs : s ∈ x.installations)
    (ht : t ∈ c.writes) : r.addedFirst t s = false := by
  obtain ⟨e, -, rfl⟩ := List.mem_map.1 hs
  obtain ⟨n, hn⟩ := item_of_mem_writes ht
  simpa [addedFirst, declared, hn] using document_notMem_neededByExtension r e n

/-- **The four phases**: each kind of step is scheduled by itself, the deletions first and
the writes last. -/
theorem schedules_append (hr : Schedule.Complete r.removedFirst (removalSteps c x))
    (ha : Schedule.Complete r.addedFirst (additionSteps c x)) :
    Schedule.order r.removedFirst (removalSteps c x)
        = Schedule.order r.removedFirst c.deletions
          ++ Schedule.order r.removedFirst x.uninstallations ∧
      Schedule.order r.addedFirst (additionSteps c x)
        = Schedule.order r.addedFirst x.installations ++ Schedule.order r.addedFirst c.writes :=
  ⟨(Schedule.order_append
      (fun _ hs _ ht => removedFirst_uninstallation_deletion hs ht) hr).1,
    (Schedule.order_append (fun _ hs _ ht => addedFirst_write_installation hs ht) ha).1⟩

theorem phase_of_mem_deletions {s : Step} (h : s ∈ c.deletions) : s.phase = 0 := by
  obtain ⟨n, -, rfl⟩ := List.mem_map.1 h
  rfl

theorem phase_of_mem_uninstallations {s : Step} (h : s ∈ x.uninstallations) : s.phase = 1 := by
  obtain ⟨e, -, rfl⟩ := List.mem_map.1 h
  rfl

theorem phase_of_mem_installations {s : Step} (h : s ∈ x.installations) : s.phase = 2 := by
  obtain ⟨e, -, rfl⟩ := List.mem_map.1 h
  rfl

theorem phase_of_mem_writes {s : Step} (h : s ∈ c.writes) : s.phase = 3 := by
  simp only [Changelist.writes, List.mem_append, List.mem_map] at h
  rcases h with (⟨n, -, rfl⟩ | ⟨m, -, rfl⟩) | ⟨n, -, rfl⟩ <;> rfl

/-- The steps of a plan never fall back to an earlier phase. -/
theorem plan_phases (hc : c.Disjoint) (hx : x.Distinct) {steps : List Step}
    (h : r.plan c x = .ok steps) : steps.Pairwise fun s t => s.phase ≤ t.phase := by
  obtain ⟨⟨hr, ha⟩, rfl⟩ := (plan_eq_ok_iff hc hx).1 h
  obtain ⟨hro, hao⟩ := schedules_append hr ha
  -- steps of one phase may stand in any order
  have const : ∀ {before : Step → Step → Bool} {l : List Step} {k : ℕ},
      (∀ s ∈ l, s.phase = k) →
        (Schedule.order before l).Pairwise fun s t => s.phase ≤ t.phase := fun hk =>
    List.pairwise_of_forall_mem_list fun s hs t ht =>
      (hk s (Schedule.mem_of_mem_order hs)).trans_le
        (hk t (Schedule.mem_of_mem_order ht)).ge
  have hdel : ∀ s ∈ Schedule.order r.removedFirst c.deletions, s.phase = 0 :=
    fun s hs => phase_of_mem_deletions (Schedule.mem_of_mem_order hs)
  have hun : ∀ s ∈ Schedule.order r.removedFirst x.uninstallations, s.phase = 1 :=
    fun s hs => phase_of_mem_uninstallations (Schedule.mem_of_mem_order hs)
  have hin : ∀ s ∈ Schedule.order r.addedFirst x.installations, s.phase = 2 :=
    fun s hs => phase_of_mem_installations (Schedule.mem_of_mem_order hs)
  have hwr : ∀ s ∈ Schedule.order r.addedFirst c.writes, s.phase = 3 :=
    fun s hs => phase_of_mem_writes (Schedule.mem_of_mem_order hs)
  rw [hro, hao]
  simp only [List.pairwise_append, List.mem_append]
  refine ⟨⟨const fun s => phase_of_mem_deletions, const fun s => phase_of_mem_uninstallations,
    fun s hs t ht => by rw [hdel s hs]; exact Nat.zero_le _⟩,
    ⟨const fun s => phase_of_mem_installations, const fun s => phase_of_mem_writes,
      fun s hs t ht => by rw [hin s hs, hwr t ht]; decide⟩, ?_⟩
  rintro s (hs | hs) t (ht | ht)
  · rw [hdel s hs]; exact Nat.zero_le _
  · rw [hdel s hs]; exact Nat.zero_le _
  · rw [hun s hs, hin t ht]; decide
  · rw [hun s hs, hwr t ht]; decide

/-! ### The plan, for its caller -/

/-- A step that belongs to an earlier phase comes earlier. -/
theorem precedes_of_phase_lt {steps : List Step}
    (h : steps.Pairwise fun s t => s.phase ≤ t.phase) {s t : Step} (hst : s.phase < t.phase) :
    s.Precedes steps t := by
  intro i j hi hj
  obtain ⟨hil, rfl⟩ := List.getElem?_eq_some_iff.1 hi
  obtain ⟨hjl, rfl⟩ := List.getElem?_eq_some_iff.1 hj
  rcases Nat.lt_trichotomy i j with hlt | rfl | hgt
  · exact hlt
  · exact absurd hst (lt_irrefl _)
  · exact absurd (List.pairwise_iff_getElem.1 h j i hjl hil hgt) (by omega)

theorem pendingSteps_perm_of_plan (hc : c.Disjoint) (hx : x.Distinct) {steps : List Step}
    (h : r.plan c x = .ok steps) : steps.Perm (pendingSteps c x) := by
  obtain ⟨⟨hr, ha⟩, rfl⟩ := (plan_eq_ok_iff hc hx).1 h
  exact hr.perm.append ha.perm

/-- Among the removals a step comes before those that it depends on. -/
theorem precedes_of_removal_dependsOn (hc : c.Disjoint) (hx : x.Distinct) {steps : List Step}
    (h : r.plan c x = .ok steps) {s t : Step} (hs : s.isRemoval = true) (ht : t.isRemoval = true)
    (hst : r.DependsOn s t) : s.Precedes steps t := by
  obtain ⟨-, rfl⟩ := (plan_eq_ok_iff hc hx).1 h
  -- both steps stand in the first schedule
  have hleft : ∀ {u : Step} {i : ℕ}, u.isRemoval = true →
      (Schedule.order r.removedFirst (removalSteps c x)
        ++ Schedule.order r.addedFirst (additionSteps c x))[i]? = some u →
      (Schedule.order r.removedFirst (removalSteps c x))[i]? = some u := by
    intro u i hu hi
    rcases Nat.lt_or_ge i (Schedule.order r.removedFirst (removalSteps c x)).length with hlt | hge
    · rwa [List.getElem?_append_left hlt] at hi
    · rw [List.getElem?_append_right hge] at hi
      have := not_isRemoval_of_mem (Schedule.mem_of_mem_order (List.mem_of_getElem? hi))
      rw [hu] at this
      cases this
  intro i j hi hj
  exact Schedule.lt_of_before (hleft hs hi) (hleft ht hj) (by simpa [removedFirst, DependsOn] using hst)

/-- Among the additions a step comes after those that it depends on. -/
theorem precedes_of_addition_dependsOn (hc : c.Disjoint) (hx : x.Distinct) {steps : List Step}
    (h : r.plan c x = .ok steps) {s t : Step} (hs : s.isRemoval = false)
    (ht : t.isRemoval = false) (hst : r.DependsOn s t) : t.Precedes steps s := by
  obtain ⟨-, rfl⟩ := (plan_eq_ok_iff hc hx).1 h
  -- both steps stand in the second schedule, behind the first one
  have hright : ∀ {u : Step} {i : ℕ}, u.isRemoval = false →
      (Schedule.order r.removedFirst (removalSteps c x)
        ++ Schedule.order r.addedFirst (additionSteps c x))[i]? = some u →
      (Schedule.order r.removedFirst (removalSteps c x)).length ≤ i ∧
        (Schedule.order r.addedFirst (additionSteps c x))[
          i - (Schedule.order r.removedFirst (removalSteps c x)).length]? = some u := by
    intro u i hu hi
    rcases Nat.lt_or_ge i (Schedule.order r.removedFirst (removalSteps c x)).length with hlt | hge
    · rw [List.getElem?_append_left hlt] at hi
      have := isRemoval_of_mem (Schedule.mem_of_mem_order (List.mem_of_getElem? hi))
      rw [hu] at this
      cases this
    · rw [List.getElem?_append_right hge] at hi
      exact ⟨hge, hi⟩
  intro i j hi hj
  obtain ⟨hile, hi'⟩ := hright ht hi
  obtain ⟨hjle, hj'⟩ := hright hs hj
  have := Schedule.lt_of_before hi' hj' (by simpa [addedFirst, DependsOn] using hst)
  omega

/-- **A plan carries out every pending change once, in a safe order**: its steps are those
of the changelist and of the changes of extensions, neither more nor fewer; deletions come
before uninstallations, these before installations, these before everything that writes a
document; a removal comes before those that it depends on, an addition after those that it
depends on. -/
theorem plan_sound (hc : c.Disjoint) (hx : x.Distinct) {steps : List Step}
    (h : r.plan c x = .ok steps) :
    steps.Perm (pendingSteps c x) ∧
      (∀ s ∈ steps, ∀ t ∈ steps, s.phase < t.phase → s.Precedes steps t) ∧
      (∀ s ∈ steps, ∀ t ∈ steps, s.isRemoval = true → t.isRemoval = true →
        r.DependsOn s t → s.Precedes steps t) ∧
      ∀ s ∈ steps, ∀ t ∈ steps, s.isRemoval = false → t.isRemoval = false →
        r.DependsOn s t → t.Precedes steps s :=
  ⟨pendingSteps_perm_of_plan hc hx h,
    fun _ _ _ _ hst => precedes_of_phase_lt (plan_phases hc hx h) hst,
    fun _ _ _ _ hs ht hst => precedes_of_removal_dependsOn hc hx h hs ht hst,
    fun _ _ _ _ hs ht hst => precedes_of_addition_dependsOn hc hx h hs ht hst⟩

/-- Requirements of two new pages, of which the first needs a module and the second, and of
two old ones, of which the second needs the first. -/
def pageRequirements : Requirements :=
  { written := .ofList [("a.page", ⟨["views"], [], ["b.page"], []⟩)]
    deleted := .ofList [("y.page", ⟨[], [], ["x.page"], []⟩)]
    extensions := [] }

/-- The changes of pages: two new ones, two old ones, and one that moves. -/
def pageChanges : Changelist :=
  ⟨["a.page", "b.page"], [], ["x.page", "y.page"], [⟨"m.old", "m.new", false⟩]⟩

theorem plan_sound_pages :
    [Step.delete "y.page", .delete "x.page", .uninstall (.theme "plain"), .install (.module "views"),
        .create "b.page", .create "a.page", .rename "m.old" "m.new"].Perm
      (pendingSteps pageChanges ⟨[.module "views"], [.theme "plain"]⟩) := by
  have hc : pageChanges.Disjoint := by unfold Changelist.Disjoint; decide
  have hx : ExtensionChanges.Distinct ⟨[.module "views"], [.theme "plain"]⟩ := by
    unfold ExtensionChanges.Distinct; decide
  have h : pageRequirements.plan pageChanges ⟨[.module "views"], [.theme "plain"]⟩
      = .ok [.delete "y.page", .delete "x.page", .uninstall (.theme "plain"),
          .install (.module "views"), .create "b.page", .create "a.page",
          .rename "m.old" "m.new"] := by rfl
  exact (plan_sound hc hx h).1

end Requirements

end SiteConfig
