import Mathlib
import SiteConfig.Storage.Overlay

/-!
# Looking for a name

Sorted names are searched by halves. The window that is left in the end holds the name if it is there
at all, and where the window begins is known too: what has been cut off on the left comes before the
name, and what has been cut off on the right comes after it
(`SiteConfig.Storage.exists_narrow_eq`). So a search that is in vain still parts the names, and
tells where the name has to be put so that they stay sorted (`SiteConfig.Storage.searchSorted_cases`).

Where names are not sorted nothing is said about what is found, but a name is never lost, and a
name that is found is there.
-/

namespace SiteConfig.Storage

variable {names window old : List String} {n k : String} {base count : Nat}

/-! ### Halving -/

/-- There are enough halvings, since each of them makes a window of several names smaller. -/
theorem length_narrow (h : window.length ≤ count + 1) :
    (narrow n count base window).2.length ≤ 1 := by
  induction count generalizing base window with
  | zero => exact h
  | succ count ih =>
    rw [narrow]
    split
    · assumption
    · simp only
      split
      · refine ih ?_
        rw [List.length_take]
        omega
      · refine ih ?_
        rw [List.length_drop]
        omega

section Middle

variable {half place : Nat} {m : String} {upper : List String} (h : window.Pairwise (· < ·))
  (hmiddle : window.drop half = m :: upper)

include h hmiddle in
/-- If the middle is beyond the name, then so is all that comes after it. -/
theorem lt_of_mem_drop (hn : n < m) (hplace : half ≤ place) (hk : k ∈ window.drop place) :
    n < k := by
  have hk : k ∈ m :: upper := hmiddle ▸ List.drop_subset_drop_left _ hplace hk
  have hupper : (m :: upper).Pairwise (· < ·) := hmiddle ▸ h.sublist (List.drop_sublist _ _)
  rcases List.mem_cons.1 hk with rfl | hk
  · exact hn
  · exact hn.trans ((List.pairwise_cons.1 hupper).1 k hk)

include h hmiddle in
/-- If the middle is not beyond the name, then all that comes before it is before the name. -/
theorem lt_of_mem_take (hn : m ≤ n) (hk : k ∈ window.take half) : k < n := by
  rw [← List.take_append_drop half window, hmiddle, List.pairwise_append] at h
  exact (h.2.2 k hk m List.mem_cons_self).trans_le hn

end Middle

/-- **A window is halved on the side of the name.** What is cut off on its left moves the base; and
if the names are sorted, then the name comes after all of that, and before all that is cut off on
the right. -/
theorem exists_narrow_eq (n : String) (count base : Nat) (window : List String) :
    ∃ left right, window = left ++ (narrow n count base window).2 ++ right ∧
      (narrow n count base window).1 = base + left.length ∧
      (window.Pairwise (· < ·) → (∀ k ∈ left, k < n) ∧ ∀ k ∈ right, n < k) := by
  induction count generalizing base window with
  | zero => exact ⟨[], [], by simp [narrow], rfl, fun _ => by simp⟩
  | succ count ih =>
    rw [narrow]
    split
    · exact ⟨[], [], by simp, rfl, fun _ => by simp⟩
    · rename_i hlength
      obtain ⟨m, upper, hupper⟩ : ∃ m upper, window.drop (window.length / 2) = m :: upper :=
        List.exists_cons_of_ne_nil (by simp; omega)
      simp only
      rw [hupper, List.head?_cons, Option.any_some]
      split
      · -- the middle is beyond the name, and so is all that is cut off
        rename_i hlt
        obtain ⟨left, right, hwindow, hbase, hparts⟩ :=
          ih base (window.take (window.length - window.length / 2))
        refine ⟨left, right ++ window.drop (window.length - window.length / 2), ?_, hbase,
          fun hsorted => ?_⟩
        · rw [← List.append_assoc, ← hwindow, List.take_append_drop]
        · obtain ⟨hleft, hright⟩ := hparts (hsorted.sublist (List.take_sublist _ _))
          refine ⟨hleft, fun k hk => (List.mem_append.1 hk).elim (hright k) fun hk => ?_⟩
          exact lt_of_mem_drop hsorted hupper (of_decide_eq_true hlt) (by omega) hk
      · -- the middle is not beyond the name, and all that is cut off is before the middle
        rename_i hge
        obtain ⟨left, right, hwindow, hbase, hparts⟩ := ih (base + window.length / 2) (m :: upper)
        refine ⟨window.take (window.length / 2) ++ left, right, ?_, ?_, fun hsorted => ?_⟩
        · rw [List.append_assoc, List.append_assoc, ← List.append_assoc left, ← hwindow, ← hupper,
            List.take_append_drop]
        · rw [hbase, List.length_append, List.length_take]
          omega
        · have hge : m ≤ n := not_lt.1 fun hlt => hge (decide_eq_true hlt)
          obtain ⟨hleft, hright⟩ := hparts (hupper ▸ hsorted.sublist (List.drop_sublist _ _))
          refine ⟨fun k hk => (List.mem_append.1 hk).elim (fun hk => ?_) (hleft k), hright⟩
          exact lt_of_mem_take hsorted hupper hge hk

/-! ### Finding -/

/-- **What a search finds.** Either the name is where it says, or the name is missing from sorted
names, and parts them there. -/
theorem searchSorted_cases (names : List String) (n : String) :
    (∃ left right, names = left ++ n :: right ∧ searchSorted names n = .ok left.length) ∨
      ∃ left right, names = left ++ right ∧ searchSorted names n = .error left.length ∧
        (names.Pairwise (· < ·) → (∀ k ∈ left, k < n) ∧ ∀ k ∈ right, n < k) := by
  obtain ⟨left, right, hnames, hbase, hparts⟩ := exists_narrow_eq n names.length 0 names
  have hlength : (narrow n names.length 0 names).2.length ≤ 1 := length_narrow (Nat.le_succ _)
  rw [searchSorted]
  rcases hn : narrow n names.length 0 names with ⟨base, _ | ⟨m, rest⟩⟩ <;>
    rw [hn] at hnames hbase hlength <;>
    simp only [Nat.zero_add] at hnames hbase hlength ⊢ <;> subst hbase
  · exact .inr ⟨left, right, by simpa using hnames, rfl, hparts⟩
  · obtain rfl : rest = [] := List.length_eq_zero_iff.1 (by simpa using hlength)
    split
    · rename_i heq
      subst heq
      exact .inl ⟨left, right, by simpa using hnames, rfl⟩
    · rename_i hne
      split
      · rename_i hlt
        refine .inr ⟨left ++ [m], right, hnames, by simp, fun hsorted => ?_⟩
        obtain ⟨hleft, hright⟩ := hparts hsorted
        exact ⟨fun k hk => (List.mem_append.1 hk).elim (hleft k)
          fun hk => List.mem_singleton.1 hk ▸ hlt, hright⟩
      · rename_i hge
        refine .inr ⟨left, m :: right, by simpa using hnames, rfl, fun hsorted => ?_⟩
        obtain ⟨hleft, hright⟩ := hparts hsorted
        refine ⟨hleft, fun k hk => (List.mem_cons.1 hk).elim (fun hk => ?_) (hright k)⟩
        exact hk ▸ lt_of_le_of_ne (not_lt.1 hge) hne

/-- **Binary search finds just the names that are there**, as long as they are sorted. -/
theorem isOk_searchSorted_iff (h : names.Pairwise (· < ·)) :
    (searchSorted names n).isOk = true ↔ n ∈ names := by
  rcases searchSorted_cases names n with ⟨left, right, rfl, hs⟩ | ⟨left, right, rfl, hs, hparts⟩
  · simp [hs, Except.isOk, Except.toBool]
  · obtain ⟨hleft, hright⟩ := hparts h
    simp only [hs, Except.isOk, Except.toBool, List.mem_append, Bool.false_eq_true, false_iff]
    rintro (hn | hn)
    · exact lt_irrefl _ (hleft n hn)
    · exact lt_irrefl _ (hright n hn)

/-- **The names that are looked for in vain** are those that are not there. -/
theorem mem_filter_searchSorted_iff (h : names.Pairwise (· < ·)) :
    n ∈ old.filter (fun n => !(searchSorted names n).isOk) ↔ n ∈ old ∧ n ∉ names := by
  rw [List.mem_filter, Bool.not_eq_true', Bool.eq_false_iff, ne_eq, isOk_searchSorted_iff h]

/-! ### Putting a name in -/

theorem insertIdx_length_append (left right : List String) (n : String) :
    (left ++ right).insertIdx left.length n = left ++ n :: right := by
  induction left with
  | nil => rfl
  | cons m left ih => simp [ih]

theorem mem_insertName_iff : k ∈ insertName n names ↔ k = n ∨ k ∈ names := by
  rw [insertName]
  rcases searchSorted_cases names n with ⟨left, right, rfl, hs⟩ | ⟨left, right, rfl, hs, -⟩
  · rw [hs]
    simp only [List.mem_append, List.mem_cons]
    tauto
  · rw [hs]
    exact List.mem_insertIdx (by simp)

/-- **A name that is put into a list** in order leaves it in order. -/
theorem sorted_insertName (h : names.Pairwise (· < ·)) :
    (insertName n names).Pairwise (· < ·) := by
  rw [insertName]
  rcases searchSorted_cases names n with ⟨left, right, -, hs⟩ | ⟨left, right, rfl, hs, hparts⟩
  · rw [hs]
    exact h
  · rw [hs]
    simp only [insertIdx_length_append]
    obtain ⟨hleft, hright⟩ := hparts h
    obtain ⟨hl, hr, hcross⟩ := List.pairwise_append.1 h
    refine List.pairwise_append.2 ⟨hl, List.pairwise_cons.2 ⟨hright, hr⟩, fun k hk j hj => ?_⟩
    rcases List.mem_cons.1 hj with rfl | hj
    · exact hleft k hk
    · exact hcross k hk j hj

theorem mem_foldl_insertName_iff {new : List String} :
    k ∈ new.foldl (fun acc n => insertName n acc) names ↔ k ∈ new ∨ k ∈ names := by
  induction new generalizing names with
  | nil => simp
  | cons n new ih =>
    rw [List.foldl_cons, ih, mem_insertName_iff, List.mem_cons]
    tauto

theorem sorted_foldl_insertName {new : List String} (h : names.Pairwise (· < ·)) :
    (new.foldl (fun acc n => insertName n acc) names).Pairwise (· < ·) := by
  induction new generalizing names with
  | nil => exact h
  | cons n new ih => exact ih (sorted_insertName h)

end SiteConfig.Storage
