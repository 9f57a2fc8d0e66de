import Mathlib
import SiteConfig.Extension.Manifest
import SiteConfig.Lifecycle.Basic
import SiteConfig.Proofs.Pending

/-!
# Lists of installed extensions

Extensions are listed in order: modules before themes, each kind in the order of names. A
list in this order is determined by its members (`SiteConfig.Extension.eq_of_mem_iff`), and
so is the list that an import leads to: an installation puts an extension at its place, an
uninstallation takes one out, and what `core.extension` states is in order already
(`SiteConfig.CoreExtension.extensions_sorted`).
-/

namespace SiteConfig

namespace Extension

/-! ### The order of extensions -/

theorem before_irrefl (a : Extension) : a.before a = false := by
  obtain ⟨k, n⟩ := a
  cases k <;> simp [before, -String.lt_iff_ltb]

theorem before_trans {a b c : Extension} (h : a.before b = true) (h' : b.before c = true) :
    a.before c = true := by
  obtain ⟨k, l⟩ := a
  obtain ⟨k', m⟩ := b
  obtain ⟨k'', n⟩ := c
  cases k <;> cases k' <;> cases k'' <;>
    simp only [before, decide_eq_true_eq, Bool.false_eq_true] at h h' ⊢
  all_goals exact lt_trans h h'

theorem eq_of_not_before {a b : Extension} (h : a.before b = false) (h' : b.before a = false) :
    a = b := by
  obtain ⟨k, m⟩ := a
  obtain ⟨k', n⟩ := b
  cases k <;> cases k' <;>
    simp only [before, decide_eq_false_iff_not, Bool.true_eq_false] at h h' <;>
    rw [le_antisymm (not_lt.1 h') (not_lt.1 h)]

/-- A list in order, with nothing twice. -/
def Sorted (l : List Extension) : Prop := l.Pairwise fun a b => a.before b = true

theorem Sorted.nodup {l : List Extension} (h : Sorted l) : l.Nodup := by
  refine h.imp fun {a b} hab he => ?_
  rw [he, before_irrefl] at hab
  cases hab

/-- Lists in order with the same members are equal. -/
theorem eq_of_mem_iff {l m : List Extension} (hl : Sorted l) (hm : Sorted m)
    (h : ∀ e, e ∈ l ↔ e ∈ m) : l = m := by
  refine List.Perm.eq_of_pairwise (fun a b _ _ hab hba => ?_) hl hm
    ((List.perm_ext_iff_of_nodup hl.nodup hm.nodup).2 h)
  have := before_trans hab hba
  rw [before_irrefl] at this
  cases this

/-- **Modules and then themes**, each by the names of a map, are in order. -/
theorem sorted_keys_append {α β : Type} (modules : NameMap α) (themes : NameMap β) :
    Sorted (modules.keys.map .module ++ themes.keys.map .theme) := by
  refine List.pairwise_append.2 ⟨?_, ?_, ?_⟩
  · exact List.pairwise_map.2 (modules.keys_sorted.imp fun h => decide_eq_true h)
  · exact List.pairwise_map.2 (themes.keys_sorted.imp fun h => decide_eq_true h)
  · rintro a ha b hb
    obtain ⟨m, -, rfl⟩ := List.mem_map.1 ha
    obtain ⟨n, -, rfl⟩ := List.mem_map.1 hb
    rfl

end Extension

open Extension

/-! ### What `core.extension` and a manifest state -/

theorem CoreExtension.extensions_sorted (c : CoreExtension) : Sorted c.extensions :=
  sorted_keys_append c.module c.theme

theorem Manifest.extensions_sorted (m : Manifest) : Sorted m.extensions :=
  sorted_keys_append m.module m.theme

/-! ### Changing a list in order -/

namespace Lifecycle

theorem mem_insertExtension {e f : Extension} {l : List Extension} :
    f ∈ insertExtension e l ↔ f = e ∨ f ∈ l := by
  induction l with
  | nil => simp [insertExtension]
  | cons g r ih =>
    rw [insertExtension]
    split
    · rename_i h
      simp [h]
    · split
      · simp
      · rw [List.mem_cons, ih, List.mem_cons]
        exact or_left_comm

theorem sorted_insertExtension (e : Extension) {l : List Extension} (h : Sorted l) :
    Sorted (insertExtension e l) := by
  induction l with
  | nil => exact List.pairwise_singleton _ _
  | cons g r ih =>
    obtain ⟨hg, hr⟩ := List.pairwise_cons.1 h
    rw [insertExtension]
    split
    · exact h
    · rename_i hne
      split
      · rename_i heg
        refine List.pairwise_cons.2 ⟨fun f hf => ?_, h⟩
        rcases List.mem_cons.1 hf with rfl | hf
        · exact heg
        · exact before_trans heg (hg f hf)
      · rename_i heg
        refine List.pairwise_cons.2 ⟨fun f hf => ?_, ih hr⟩
        rcases mem_insertExtension.1 hf with rfl | hf
        · -- the order is total: what comes neither before nor after is the same
          by_contra hge
          exact hne (eq_of_not_before (by simpa using heg) (by simpa using hge))
        · exact hg f hf

/-- An extension that does not pass a test is inserted without notice. -/
theorem filter_insertExtension {p : Extension → Bool} {e : Extension} (he : p e = false)
    (l : List Extension) : (insertExtension e l).filter p = l.filter p := by
  induction l with
  | nil => simp [insertExtension, he]
  | cons g r ih =>
    rw [insertExtension]
    split
    · rfl
    · split
      · rw [List.filter_cons, he]
        simp
      · rw [List.filter_cons, List.filter_cons, ih]

end Lifecycle

/-- The installed extensions after a step. -/
def Step.installedAfter (s : Step) (l : List Extension) : List Extension :=
  match s with
  | .install e => Lifecycle.insertExtension e l
  | .uninstall e => l.filter (· != e)
  | _ => l

theorem Step.sorted_installedAfter (s : Step) {l : List Extension} (h : Sorted l) :
    Sorted (s.installedAfter l) := by
  cases s with
  | install e => exact Lifecycle.sorted_insertExtension e h
  | uninstall e => exact h.filter _
  | _ => exact h

/-! ### The changes that are left -/

namespace ExtensionChanges

variable {wanted installed : List Extension}

theorem mem_install_iff {e : Extension} :
    e ∈ (between wanted installed).install ↔ e ∈ wanted ∧ e ∉ installed := by simp [between]

theorem mem_uninstall_iff {e : Extension} :
    e ∈ (between wanted installed).uninstall ↔ e ∈ installed ∧ e ∉ wanted := by simp [between]

theorem disjoint_between (hw : wanted.Nodup) (hi : installed.Nodup) :
    (between wanted installed).Disjoint := by
  refine List.nodup_append.2 ⟨hw.filter _, hi.filter _, ?_⟩
  rintro a ha b hb rfl
  exact (mem_install_iff.1 ha).2 (mem_uninstall_iff.1 hb).1

theorem disjoint_empty : empty.Disjoint := List.nodup_nil

theorem without_nil (x : ExtensionChanges) : x.without [] = x := by
  obtain ⟨a, b⟩ := x
  simp [without]

/-- What is left to install and uninstall after an extension has been installed. -/
theorem between_install {e : Extension} (he : e ∈ wanted) :
    between wanted (Lifecycle.insertExtension e installed)
      = (between wanted installed).without [e] := by
  rw [between, without, mk.injEq]
  refine ⟨?_, ?_⟩
  · rw [between, List.filter_filter]
    refine List.filter_congr fun f _ => ?_
    rw [Bool.eq_iff_iff]
    simp [Lifecycle.mem_insertExtension]
  · rw [between, Lifecycle.filter_insertExtension (by simpa using he), List.filter_filter]
    refine List.filter_congr fun f _ => ?_
    by_cases hf : f = e
    · simp [hf, he]
    · simp [hf]

/-- What is left to install and uninstall after an extension has been uninstalled. -/
theorem between_uninstall {e : Extension} (he : e ∉ wanted) :
    between wanted (installed.filter (· != e)) = (between wanted installed).without [e] := by
  rw [between, without, mk.injEq]
  refine ⟨?_, ?_⟩
  · rw [between, List.filter_filter]
    refine List.filter_congr fun f hf => ?_
    have hne : f ≠ e := fun h => he (h ▸ hf)
    simp [hne]
  · rw [between, List.filter_filter, List.filter_filter]
    refine List.filter_congr fun f _ => ?_
    by_cases hf : f = e <;> simp [hf]

end ExtensionChanges

end SiteConfig
