import Mathlib
import SiteConfig.Proofs.Plan

/-!
# Pending steps, and what they touch

Every pending step touches some items: the document or extension that it is filed under
and, for a rename, also the document that goes away. No two pending steps touch the same
item (`SiteConfig.Requirements.touched_disjoint`), so that once a step has been carried out
exactly that step is gone from the changes that are still to be made
(`SiteConfig.Requirements.removalSteps_without`, `SiteConfig.Requirements.additionSteps_without`).
-/

namespace SiteConfig

namespace Step

/-- The names of the documents that a step writes or deletes. -/
def names : Step → List String
  | .create n => [n]
  | .update n => [n]
  | .delete n => [n]
  | .rename m n => [m, n]
  | .install _ => []
  | .uninstall _ => []

/-- The extensions that a step installs or uninstalls. -/
def extensions : Step → List Extension
  | .install e => [e]
  | .uninstall e => [e]
  | _ => []

/-- The items that a step changes. -/
def touched (s : Step) : List Item := s.names.map .document ++ s.extensions.map .extension

theorem document_mem_touched {s : Step} {n : String} :
    Item.document n ∈ s.touched ↔ n ∈ s.names := by
  simp [touched]

theorem extension_mem_touched {s : Step} {e : Extension} :
    Item.extension e ∈ s.touched ↔ e ∈ s.extensions := by
  simp [touched]

theorem item_mem_touched (s : Step) : s.item ∈ s.touched := by
  cases s <;> simp [touched, item, names, extensions]

end Step

namespace ExtensionChanges

/-- No extension occurs twice, not even once in each list. -/
def Disjoint (x : ExtensionChanges) : Prop := (x.install ++ x.uninstall).Nodup

theorem Disjoint.distinct {x : ExtensionChanges} (h : x.Disjoint) : x.Distinct :=
  ⟨(List.nodup_append.1 h).1, (List.nodup_append.1 h).2.1⟩

/-- The changes that do not concern some extensions. -/
def without (x : ExtensionChanges) (es : List Extension) : ExtensionChanges :=
  { install := x.install.filter fun e => !es.contains e
    uninstall := x.uninstall.filter fun e => !es.contains e }

end ExtensionChanges

namespace Requirements

variable {c : Changelist} {x : ExtensionChanges}

/-! ### No two steps touch the same item -/

theorem flatMap_pair_perm {α β : Type} (f g : α → β) (l : List α) :
    (l.flatMap fun a => [f a, g a]).Perm (l.map f ++ l.map g) := by
  induction l with
  | nil => simp
  | cons a l ih =>
    rw [List.flatMap_cons, List.map_cons, List.map_cons, List.cons_append]
    exact ((ih.cons (g a)).trans List.perm_middle.symm).cons (f a)

/-- What the pending steps touch, all together, are the names and extensions of the
changes. -/
theorem flatMap_touched_perm (c : Changelist) (x : ExtensionChanges) :
    ((pendingSteps c x).flatMap Step.touched).Perm
      ((c.create ++ c.update ++ c.delete ++ c.rename.map (·.source)
          ++ c.rename.map (·.target)).map .document
        ++ (x.install ++ x.uninstall).map .extension) := by
  have hrename : (c.rename.flatMap fun m => [Item.document m.source, .document m.target]).Perm
      (c.rename.map (fun m => .document m.source) ++ c.rename.map fun m => .document m.target) :=
    flatMap_pair_perm _ _ _
  have hflat : (pendingSteps c x).flatMap Step.touched
      = c.delete.map .document ++ x.uninstall.map .extension ++ (x.install.map .extension ++
          (c.create.map .document
            ++ (c.rename.flatMap fun m => [Item.document m.source, .document m.target])
            ++ c.update.map .document)) := by
    simp [pendingSteps, removalSteps, additionSteps, Changelist.deletions, Changelist.writes,
      ExtensionChanges.installations, ExtensionChanges.uninstallations, List.flatMap_map,
      Step.touched, Step.names, Step.extensions, ← List.map_eq_flatMap]
  -- only the order differs, and counting does not see it
  rw [hflat, List.perm_iff_count]
  intro i
  have hcount := List.perm_iff_count.1 hrename i
  simp only [List.count_append, List.map_append, List.map_map, Function.comp_def] at hcount ⊢
  omega

theorem nodup_touched (hc : c.Disjoint) (hx : x.Disjoint) :
    ((pendingSteps c x).flatMap Step.touched).Nodup := by
  rw [(flatMap_touched_perm c x).nodup_iff, List.nodup_append]
  refine ⟨hc.map fun a b h => by simpa using h, hx.map fun a b h => by simpa using h, ?_⟩
  rintro i hi j hj rfl
  obtain ⟨n, -, rfl⟩ := List.mem_map.1 hi
  simp at hj

/-- **Pending steps do not interfere**: no item is touched by two of them. -/
theorem touched_disjoint (hc : c.Disjoint) (hx : x.Disjoint) {s t : Step}
    (hs : s ∈ pendingSteps c x) (ht : t ∈ pendingSteps c x) (hne : s ≠ t) :
    s.touched.Disjoint t.touched := by
  have hpair := (List.nodup_flatMap.1 (nodup_touched hc hx)).2
  have : Std.Symm (Function.onFun List.Disjoint Step.touched) := ⟨fun _ _ h => h.symm⟩
  exact hpair.forall hs ht hne

/-- A pending step is another one than a given one if its item is not touched by that. -/
theorem ne_iff_item_notMem (hc : c.Disjoint) (hx : x.Disjoint) {s t : Step}
    (hs : s ∈ pendingSteps c x) (ht : t ∈ pendingSteps c x) :
    s ≠ t ↔ s.item ∉ t.touched := by
  constructor
  · exact fun hne h => touched_disjoint hc hx hs ht hne s.item_mem_touched h
  · rintro h rfl
    exact h s.item_mem_touched

/-! ### The changes without a step -/

/-- The changes that are left when a step has been carried out leave out that step alone. -/
theorem map_filter_eq_erase {α : Type} {l : List α} {f : α → Step} {p : α → Bool} {st : Step}
    (hl : (l.map f).Nodup) (hp : ∀ a ∈ l, p a = true ↔ f a ≠ st) :
    (l.filter p).map f = (l.map f).erase st := by
  rw [hl.erase_eq_filter, List.filter_map]
  refine congrArg _ (List.filter_congr fun a ha => ?_)
  rw [Bool.eq_iff_iff, hp a ha]
  simp

theorem erase_append_eq {l m : List Step} {st : Step} (h : (l ++ m).Nodup) :
    (l ++ m).erase st = l.erase st ++ m.erase st := by
  obtain ⟨hl, hm, -⟩ := List.nodup_append.1 h
  rw [h.erase_eq_filter, hl.erase_eq_filter, hm.erase_eq_filter, List.filter_append]

section Without

variable (hc : c.Disjoint) (hx : x.Disjoint) {st : Step} (hst : st ∈ pendingSteps c x)

include hc hx hst in
theorem document_step_iff {s : Step} {n : String} (hs : s ∈ pendingSteps c x)
    (hi : s.item = .document n) : (!st.names.contains n) = true ↔ s ≠ st := by
  rw [ne_iff_item_notMem hc hx hs hst, hi, Step.document_mem_touched]
  simp

include hc hx hst in
theorem extension_step_iff {s : Step} {e : Extension} (hs : s ∈ pendingSteps c x)
    (hi : s.item = .extension e) : (!st.extensions.contains e) = true ↔ s ≠ st := by
  rw [ne_iff_item_notMem hc hx hs hst, hi, Step.extension_mem_touched]
  simp

include hc hx in
theorem nodup_removalSteps : (removalSteps c x).Nodup :=
  (nodup_items_removalSteps hc hx.distinct).of_map

include hc hx in
theorem nodup_additionSteps : (additionSteps c x).Nodup :=
  (nodup_items_additionSteps hc hx.distinct).of_map

include hc hx hst in
/-- The removals that are left when a step has been carried out. -/
theorem removalSteps_without :
    removalSteps (c.without st.names) (x.without st.extensions) = (removalSteps c x).erase st := by
  have hn := nodup_removalSteps hc hx
  have hmem : ∀ {s}, s ∈ removalSteps c x → s ∈ pendingSteps c x := List.mem_append_left _
  obtain ⟨hdel, hun, -⟩ := List.nodup_append.1 hn
  refine Eq.trans ?_ (erase_append_eq hn).symm
  rw [removalSteps]
  refine congrArg₂ _ ?_ ?_
  · exact map_filter_eq_erase hdel fun n h =>
      document_step_iff hc hx hst (hmem (List.mem_append_left _ (List.mem_map_of_mem h))) rfl
  · exact map_filter_eq_erase hun fun e h =>
      extension_step_iff hc hx hst (hmem (List.mem_append_right _ (List.mem_map_of_mem h))) rfl

include hc hx hst in
/-- The additions that are left when a step has been carried out. -/
theorem additionSteps_without :
    additionSteps (c.without st.names) (x.without st.extensions)
      = (additionSteps c x).erase st := by
  have hn := nodup_additionSteps hc hx
  have hmem : ∀ {s}, s ∈ additionSteps c x → s ∈ pendingSteps c x := List.mem_append_right _
  obtain ⟨hins, hwr, -⟩ := List.nodup_append.1 hn
  obtain ⟨hcm, hup, -⟩ := List.nodup_append.1 hwr
  obtain ⟨hcr, hre, -⟩ := List.nodup_append.1 hcm
  -- no step occurs twice, so that it is erased from its own list only
  refine Eq.trans ?_ (erase_append_eq hn).symm
  rw [additionSteps, Changelist.writes, show c.writes.erase st = _ from (erase_append_eq hwr).trans
    (congrArg (· ++ _) (erase_append_eq hcm))]
  refine congrArg₂ _ ?_ (congrArg₂ _ (congrArg₂ _ ?_ ?_) ?_)
  · exact map_filter_eq_erase hins fun e h =>
      extension_step_iff hc hx hst (hmem (List.mem_append_left _ (List.mem_map_of_mem h))) rfl
  · exact map_filter_eq_erase hcr fun n h =>
      document_step_iff hc hx hst (hmem (List.mem_append_right _ (List.mem_append_left _
        (List.mem_append_left _ (List.mem_map_of_mem h))))) rfl
  · exact map_filter_eq_erase hre fun m h =>
      document_step_iff hc hx hst (hmem (List.mem_append_right _ (List.mem_append_left _
        (List.mem_append_right _ (List.mem_map.2 ⟨m, h, rfl⟩))))) rfl
  · exact map_filter_eq_erase hup fun n h =>
      document_step_iff hc hx hst (hmem (List.mem_append_right _ (List.mem_append_right _
        (List.mem_map_of_mem h)))) rfl

/-- What is pending after a step was pending before, and is not that step. -/
theorem mem_pendingSteps_without (hc : c.Disjoint) (hx : x.Disjoint) {st : Step}
    (hst : st ∈ pendingSteps c x) {s : Step} :
    s ∈ pendingSteps (c.without st.names) (x.without st.extensions)
      ↔ s ∈ pendingSteps c x ∧ s ≠ st := by
  rw [pendingSteps, removalSteps_without hc hx hst, additionSteps_without hc hx hst,
    List.mem_append, (nodup_removalSteps hc hx).mem_erase_iff,
    (nodup_additionSteps hc hx).mem_erase_iff, pendingSteps, List.mem_append]
  constructor
  · rintro (⟨hne, h⟩ | ⟨hne, h⟩)
    exacts [⟨.inl h, hne⟩, ⟨.inr h, hne⟩]
  · rintro ⟨h | h, hne⟩
    exacts [.inl ⟨hne, h⟩, .inr ⟨hne, h⟩]

end Without

end Requirements

end SiteConfig
