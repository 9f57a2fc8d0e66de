import Mathlib

/-!
# Greedy schedules

Some items have to be put in order, and for some pairs of them the first has to come
before the second. The **greedy schedule** takes, again and again, the first item that
none of those left has to precede, until there is no such item
(`SiteConfig.Schedule.order`). It is **complete** when it takes every item
(`SiteConfig.Schedule.Complete`).

The schedule is stated on the items themselves, with no counters and no queue, so that
what it does when the items change can be read off:

* what follows the first item of a schedule is the schedule of the other items
  (`SiteConfig.Schedule.order_eq_cons`);
* items that none of the later ones has to precede are scheduled by themselves, before
  all later ones (`SiteConfig.Schedule.order_append`).
-/

namespace SiteConfig.Schedule

variable {α β : Type} {before before' : α → α → Bool}

/-- The first of some items that none of them has to precede. -/
def next? (before : α → α → Bool) (l : List α) : Option α :=
  l.find? fun a => l.all fun b => !before b a

theorem next?_eq_some {l : List α} {a : α} (h : next? before l = some a) :
    a ∈ l ∧ ∀ b ∈ l, before b a = false := by
  refine ⟨List.mem_of_find?_eq_some h, fun b hb => ?_⟩
  have hall := List.find?_some h
  simp only [List.all_eq_true] at hall
  simpa using hall b hb

theorem next?_eq_none {l : List α} (h : next? before l = none) {a : α} (ha : a ∈ l) :
    ∃ b ∈ l, before b a = true := by
  have := List.find?_eq_none.1 h a ha
  simpa using this

theorem next?_congr {l : List α} (h : ∀ a ∈ l, ∀ b ∈ l, before a b = before' a b) :
    next? before l = next? before' l := by
  refine List.find?_congr fun a ha => ?_
  rw [Bool.eq_iff_iff, List.all_eq_true, List.all_eq_true]
  exact forall₂_congr fun b hb => by rw [h b hb a ha]

theorem next?_map {f : α → β} {beforeβ : β → β → Bool} {l : List α}
    (h : ∀ a ∈ l, ∀ b ∈ l, beforeβ (f a) (f b) = before a b) :
    next? beforeβ (l.map f) = (next? before l).map f := by
  unfold next?
  rw [List.find?_map]
  refine congrArg _ (List.find?_congr fun a ha => ?_)
  rw [Bool.eq_iff_iff, Function.comp_apply, List.all_map, List.all_eq_true, List.all_eq_true]
  exact forall₂_congr fun b hb => by rw [Function.comp_apply, h b hb a ha]

variable [DecidableEq α] [DecidableEq β]

/-- **The greedy schedule**: the first item that none has to precede, and so on with the
others. -/
def order (before : α → α → Bool) (l : List α) : List α :=
  match _h : next? before l with
  | none => []
  | some a => a :: order before (l.erase a)
termination_by l.length
decreasing_by
  have ha := (next?_eq_some _h).1
  have hpos := List.length_pos_of_mem ha
  rw [List.length_erase_of_mem ha]
  omega

/-- A schedule is complete when it takes every item. -/
def Complete (before : α → α → Bool) (l : List α) : Prop :=
  (order before l).length = l.length

theorem order_of_none {l : List α} (h : next? before l = none) : order before l = [] := by
  rw [order]
  split
  · rfl
  · simp_all

theorem order_of_some {l : List α} {a : α} (h : next? before l = some a) :
    order before l = a :: order before (l.erase a) := by
  rw [order]
  split
  · simp_all
  · rename_i b hb
    rw [h] at hb
    cases hb
    rfl

@[simp] theorem order_nil : order before ([] : List α) = [] := order_of_none rfl

theorem complete_nil : Complete before ([] : List α) := by simp [Complete]

/-- Induction along a schedule: nothing can be taken, or an item is taken and the others
are scheduled. -/
theorem order_induction (before : α → α → Bool) {motive : List α → Prop}
    (stuck : ∀ l, next? before l = none → motive l)
    (take : ∀ l a, next? before l = some a → motive (l.erase a) → motive l) (l : List α) :
    motive l := by
  induction hn : l.length using Nat.strong_induction_on generalizing l with
  | _ n ih =>
    rcases h : next? before l with _ | a
    · exact stuck l h
    · have ha := (next?_eq_some h).1
      have hpos := List.length_pos_of_mem ha
      refine take l a h (ih _ ?_ (l.erase a) rfl)
      rw [← hn, List.length_erase_of_mem ha]
      omega

/-! ### What is taken -/

theorem order_subperm (l : List α) : (order before l).Subperm l := by
  induction l using order_induction before with
  | stuck l h => rw [order_of_none h]; exact List.nil_subperm
  | take l a h ih =>
    rw [order_of_some h]
    exact ((List.subperm_cons a).2 ih).trans (List.perm_cons_erase (next?_eq_some h).1).symm.subperm

theorem mem_of_mem_order {l : List α} {a : α} (h : a ∈ order before l) : a ∈ l :=
  (order_subperm l).subset h

theorem length_order_le (l : List α) : (order before l).length ≤ l.length :=
  (order_subperm l).length_le

/-- A complete schedule has every item, as often as it was given. -/
theorem Complete.perm {l : List α} (h : Complete before l) : (order before l).Perm l :=
  (order_subperm l).perm_of_length_le (le_of_eq h.symm)

theorem Complete.erase {l : List α} {a : α} (h : Complete before l) (ha : next? before l = some a) :
    Complete before (l.erase a) := by
  have hmem := (next?_eq_some ha).1
  have hpos := List.length_pos_of_mem hmem
  unfold Complete at h ⊢
  rw [order_of_some ha, List.length_cons] at h
  rw [List.length_erase_of_mem hmem]
  omega

theorem Complete.cons {l : List α} {a : α} (ha : next? before l = some a)
    (h : Complete before (l.erase a)) : Complete before l := by
  have hmem := (next?_eq_some ha).1
  have hpos := List.length_pos_of_mem hmem
  unfold Complete at h ⊢
  rw [order_of_some ha, List.length_cons, h, List.length_erase_of_mem hmem]
  omega

/-! ### In which order -/

/-- No item is taken before one that has to precede it. -/
theorem pairwise_order (l : List α) :
    (order before l).Pairwise fun a b => before b a = false := by
  induction l using order_induction before with
  | stuck l h => rw [order_of_none h]; exact .nil
  | take l a h ih =>
    rw [order_of_some h]
    refine List.pairwise_cons.2 ⟨fun b hb => ?_, ih⟩
    exact (next?_eq_some h).2 b (List.mem_of_mem_erase (mem_of_mem_order hb))

/-- No item that is taken has to precede itself. -/
theorem before_self_of_mem_order {l : List α} {a : α} (h : a ∈ order before l) :
    before a a = false := by
  induction l using order_induction before with
  | stuck l hn => simp [order_of_none hn] at h
  | take l b hb ih =>
    rw [order_of_some hb] at h
    rcases List.mem_cons.1 h with rfl | h
    · exact (next?_eq_some hb).2 a (next?_eq_some hb).1
    · exact ih h

/-- An item that has to precede another one is taken earlier. -/
theorem lt_of_before {l : List α} {a b : α} {i j : ℕ} (hi : (order before l)[i]? = some a)
    (hj : (order before l)[j]? = some b) (h : before a b = true) : i < j := by
  obtain ⟨hil, rfl⟩ := List.getElem?_eq_some_iff.1 hi
  obtain ⟨hjl, rfl⟩ := List.getElem?_eq_some_iff.1 hj
  rcases Nat.lt_trichotomy i j with hlt | rfl | hgt
  · exact hlt
  · rw [before_self_of_mem_order (List.getElem_mem hil)] at h
    cases h
  · rw [List.pairwise_iff_getElem.1 (pairwise_order l) j i hjl hil hgt] at h
    cases h

/-- Among any items of a complete schedule there is one that none of them has to
precede: the one that is taken first. -/
theorem Complete.exists_free {l m : List α} (h : Complete before l) (hm : ∀ a ∈ m, a ∈ l)
    (hne : m ≠ []) : ∃ a ∈ m, ∀ b ∈ m, before b a = false := by
  obtain ⟨c, hc⟩ := List.exists_mem_of_ne_nil m hne
  have hmem : ∀ {a}, a ∈ m → a ∈ order before l := fun ha => h.perm.mem_iff.2 (hm _ ha)
  obtain ⟨a, ha⟩ : ∃ a, (order before l).find? (fun a => decide (a ∈ m)) = some a := by
    rw [← Option.isSome_iff_exists, List.find?_isSome]
    exact ⟨c, hmem hc, by simpa using hc⟩
  obtain ⟨ham, as, bs, hsplit, has⟩ := List.find?_eq_some_iff_append.1 ha
  have ham : a ∈ m := by simpa using ham
  refine ⟨a, ham, fun b hb => ?_⟩
  have hb' : b ∈ as ++ a :: bs := hsplit ▸ hmem hb
  have hpair : (as ++ a :: bs).Pairwise fun a b => before b a = false :=
    hsplit ▸ pairwise_order l
  rcases List.mem_append.1 hb' with hbas | hbtail
  · have := has b hbas
    simp [hb] at this
  · rcases List.mem_cons.1 hbtail with rfl | hbbs
    · exact before_self_of_mem_order (hmem hb)
    · exact (List.pairwise_cons.1 (List.pairwise_append.1 hpair).2.1).1 b hbbs

/-! ### Schedules of other items -/

/-- Only what has to precede what among the items counts. -/
theorem order_congr {l : List α} (h : ∀ a ∈ l, ∀ b ∈ l, before a b = before' a b) :
    order before l = order before' l := by
  induction l using order_induction before with
  | stuck l hn => rw [order_of_none hn, order_of_none (next?_congr h ▸ hn)]
  | take l a ha ih =>
    have ha' : next? before' l = some a := next?_congr h ▸ ha
    rw [order_of_some ha, order_of_some ha', ih]
    exact fun b hb c hc => h b (List.mem_of_mem_erase hb) c (List.mem_of_mem_erase hc)

theorem Complete.congr {l : List α} (h : ∀ a ∈ l, ∀ b ∈ l, before a b = before' a b)
    (hc : Complete before l) : Complete before' l := by
  unfold Complete at hc ⊢
  rw [← order_congr h, hc]

theorem map_erase_of_injOn {f : α → β} {l : List α} (hf : ∀ a ∈ l, ∀ b ∈ l, f a = f b → a = b)
    {a : α} (ha : a ∈ l) : (l.erase a).map f = (l.map f).erase (f a) := by
  induction l with
  | nil => cases ha
  | cons b l ih =>
    by_cases hb : b = a
    · simp [hb]
    · have hal : a ∈ l := (List.mem_cons.1 ha).resolve_left (Ne.symm hb)
      have hfb : f b ≠ f a := fun h =>
        hb (hf b List.mem_cons_self a (List.mem_cons_of_mem _ hal) h)
      have hfl : ∀ x ∈ l, ∀ y ∈ l, f x = f y → x = y := fun x hx y hy =>
        hf x (List.mem_cons_of_mem _ hx) y (List.mem_cons_of_mem _ hy)
      rw [List.erase_cons_tail (by simpa using hb), List.map_cons, List.map_cons,
        List.erase_cons_tail (by simpa using hfb), ih hfl hal]

/-- Items known by other names are scheduled alike. -/
theorem order_map {f : α → β} {beforeβ : β → β → Bool} {l : List α}
    (hf : ∀ a ∈ l, ∀ b ∈ l, f a = f b → a = b)
    (h : ∀ a ∈ l, ∀ b ∈ l, beforeβ (f a) (f b) = before a b) :
    order beforeβ (l.map f) = (order before l).map f := by
  induction l using order_induction before with
  | stuck l hn =>
    rw [order_of_none hn, order_of_none (by rw [next?_map h, hn]; rfl), List.map_nil]
  | take l a ha ih =>
    have hnext : next? beforeβ (l.map f) = some (f a) := by rw [next?_map h, ha]; rfl
    have hmem := (next?_eq_some ha).1
    rw [order_of_some ha, order_of_some hnext, List.map_cons, ← map_erase_of_injOn hf hmem, ih]
    · exact fun b hb c hc => hf b (List.mem_of_mem_erase hb) c (List.mem_of_mem_erase hc)
    · exact fun b hb c hc => h b (List.mem_of_mem_erase hb) c (List.mem_of_mem_erase hc)

/-- What follows the first item of a schedule is the schedule of the other items. -/
theorem order_eq_cons {l r : List α} {a : α} (h : order before l = a :: r) :
    next? before l = some a ∧ r = order before (l.erase a) := by
  rcases hn : next? before l with _ | b
  · rw [order_of_none hn] at h
    cases h
  · rw [order_of_some hn] at h
    cases h
    exact ⟨rfl, rfl⟩

/-- What follows the first item of two complete schedules, one after the other, are the
complete schedules of the other items. -/
theorem order_append_eq_cons {l m r : List α} {a : α} (hl : Complete before l)
    (hm : Complete before' m) (hlm : l.Disjoint m)
    (h : order before l ++ order before' m = a :: r) :
    (Complete before (l.erase a) ∧ Complete before' (m.erase a)) ∧
      r = order before (l.erase a) ++ order before' (m.erase a) := by
  rcases ho : order before l with _ | ⟨b, q⟩
  · obtain rfl : l = [] := List.length_eq_zero_iff.1 (by rw [← hl, ho]; rfl)
    rw [ho, List.nil_append] at h
    obtain ⟨hnext, rfl⟩ := order_eq_cons h
    exact ⟨⟨hl, hm.erase hnext⟩, by rw [List.erase_nil, order_nil, List.nil_append]⟩
  · rw [ho, List.cons_append, List.cons.injEq] at h
    obtain ⟨rfl, rfl⟩ := h
    obtain ⟨hnext, rfl⟩ := order_eq_cons ho
    have hbm : b ∉ m := fun hb => hlm (next?_eq_some hnext).1 hb
    rw [List.erase_of_not_mem hbm]
    exact ⟨⟨hl.erase hnext, hm⟩, rfl⟩

/-- **Items that none of the later ones has to precede** are scheduled first, by
themselves, and the later ones by themselves. -/
theorem order_append {l m : List α} (hlm : ∀ a ∈ l, ∀ b ∈ m, before b a = false)
    (h : Complete before (l ++ m)) :
    order before (l ++ m) = order before l ++ order before m ∧
      Complete before l ∧ Complete before m := by
  induction hn : l.length generalizing l with
  | zero =>
    obtain rfl := List.length_eq_zero_iff.1 hn
    simpa using ⟨complete_nil, h⟩
  | succ n ih =>
    have hne : l ≠ [] := fun h => by simp [h] at hn
    obtain ⟨c, hc, hfree⟩ := h.exists_free (m := l) (fun a ha => List.mem_append_left m ha) hne
    -- nothing of `m` has to precede anything of `l`, so the choice is made within `l`
    have hall : ∀ a ∈ l, ((l ++ m).all fun b => !before b a) = l.all fun b => !before b a := by
      intro a ha
      rw [List.all_append, Bool.and_eq_left_iff_imp]
      exact fun _ => List.all_eq_true.2 fun b hb => by simp [hlm a ha b hb]
    have hsome : (next? before l).isSome := by
      rw [next?, List.find?_isSome]
      exact ⟨c, hc, List.all_eq_true.2 fun b hb => by simp [hfree b hb]⟩
    obtain ⟨a, ha⟩ := Option.isSome_iff_exists.1 hsome
    have hal := (next?_eq_some ha).1
    have hnext : next? before (l ++ m) = some a := by
      rw [next?, List.find?_append, List.find?_congr hall]
      simp [show l.find? (fun a => l.all fun b => !before b a) = some a from ha]
    have herase : (l ++ m).erase a = l.erase a ++ m := List.erase_append_left m hal
    have hrest := ih (l := l.erase a) (fun b hb => hlm b (List.mem_of_mem_erase hb))
      (herase ▸ h.erase hnext)
      (by rw [List.length_erase_of_mem hal]; omega)
    obtain ⟨horder, hl, hm⟩ := hrest
    refine ⟨?_, hl.cons ha, hm⟩
    rw [order_of_some hnext, herase, horder, order_of_some ha, List.cons_append]

end SiteConfig.Schedule
