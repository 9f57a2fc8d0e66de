import Mathlib
import SiteConfig.Proofs.Recording
import SiteConfig.Proofs.Summary

/-!
# Histories of runs

A ledger is shared by many runs, whose envelopes stand between one another in any order. Its
history (`SiteConfig.Ledger.History`) has one summary for each of them, which is the one that a
ledger of nothing but the run's own envelopes gives: a run does not notice the others. The summaries
stand in the order of the first envelopes, first by time and then by place.

Two ledgers that agree about each run have the same summaries, however the runs are woven together
(`SiteConfig.Ledger.history_runs`). Their order may differ, but only where runs began at the same
time.
-/

namespace SiteConfig

/-! ### Points in time are linearly ordered -/

namespace Timestamp

variable {a b c : Timestamp}

theorem before_iff : a.before b = true ↔
    a.seconds < b.seconds ∨ a.seconds = b.seconds ∧ a.nanos < b.nanos := by
  simp [before]

theorem eq_of_not_before (hab : ¬a.before b = true) (hba : ¬b.before a = true) : a = b := by
  rw [before_iff] at hab hba
  obtain ⟨s, n⟩ := a
  obtain ⟨s', n'⟩ := b
  simp only [mk.injEq] at hab hba ⊢
  omega

theorem not_before_trans (hab : (!b.before a) = true) (hbc : (!c.before b) = true) :
    (!c.before a) = true := by
  rw [Bool.not_eq_true', Bool.eq_false_iff, ne_eq, before_iff] at *
  omega

theorem not_before_total (a b : Timestamp) : (!b.before a || !a.before b) = true := by
  rw [Bool.or_eq_true, Bool.not_eq_true', Bool.not_eq_true', Bool.eq_false_iff, Bool.eq_false_iff,
    ne_eq, ne_eq, before_iff, before_iff]
  omega

end Timestamp

/-! ### Gathering -/

namespace Run

variable {r : Run} {runs : List Run} {e : Envelope} {es rest : List Envelope} {run : String}

theorem gather_concat (es : List Envelope) (e : Envelope) :
    gather (es ++ [e]) = record (gather es) e := List.foldl_concat _ _ _ _

/-- Adding an envelope adds its run at the end, unless the run is there. -/
theorem map_id_record (runs : List Run) (e : Envelope) :
    (record runs e).map (·.id) = if e.run ∈ runs.map (·.id) then runs.map (·.id)
      else runs.map (·.id) ++ [e.run] := by
  induction runs with
  | nil => simp [record]
  | cons r runs ih =>
    rw [record_cons]
    by_cases hown : r.id = e.run
    · simp [hown]
    · rw [if_neg hown, List.map_cons, ih, List.map_cons]
      by_cases hmem : e.run ∈ runs.map (·.id)
      · rw [if_pos hmem, if_pos (List.mem_cons_of_mem _ hmem)]
      · rw [if_neg hmem, if_neg (List.not_mem_cons_of_ne_of_not_mem (Ne.symm hown) hmem)]
        rfl

/-- **The runs that are gathered** are those of the envelopes. -/
theorem mem_map_id_gather_iff : run ∈ (gather es).map (·.id) ↔ ∃ e ∈ es, e.run = run := by
  induction es using List.reverseRecOn with
  | nil => simp [gather]
  | append_singleton es e ih =>
    rw [gather_concat, map_id_record]
    have hlast : (∃ x ∈ es ++ [e], x.run = run) ↔ (∃ x ∈ es, x.run = run) ∨ e.run = run := by
      simp only [List.mem_append, List.mem_singleton, or_and_right, exists_or, exists_eq_left]
    rw [hlast, ← ih]
    split
    · rename_i hmem
      exact ⟨.inl, fun h => h.elim (fun hrun => hrun) fun heq => heq ▸ hmem⟩
    · rw [List.mem_append, List.mem_singleton, @eq_comm _ run]

/-- The place of the first envelope of a run. -/
def firstPlace (es : List Envelope) (run : String) : Nat := es.findIdx (·.run == run)

/-- A run that has been recorded is not begun again. -/
theorem firstPlace_concat (h : ∃ x ∈ es, x.run = run) (e : Envelope) :
    firstPlace (es ++ [e]) run = firstPlace es run := by
  have hlt : es.findIdx (·.run == run) < es.length :=
    List.findIdx_lt_length.2 (h.imp fun _ hx => ⟨hx.1, beq_iff_eq.2 hx.2⟩)
  rw [firstPlace, List.findIdx_append, if_pos hlt, firstPlace]

/-- **Runs are gathered in the order of their first envelopes**, so that each is gathered once. -/
theorem pairwise_gather (es : List Envelope) :
    ((gather es).map (·.id)).Pairwise fun a b => firstPlace es a < firstPlace es b := by
  induction es using List.reverseRecOn with
  | nil => exact .nil
  | append_singleton es e ih =>
    have hkept : ((gather es).map (·.id)).Pairwise fun a b =>
        firstPlace (es ++ [e]) a < firstPlace (es ++ [e]) b := by
      refine ih.imp_of_mem fun ha hb hab => ?_
      rwa [firstPlace_concat (mem_map_id_gather_iff.1 ha),
        firstPlace_concat (mem_map_id_gather_iff.1 hb)]
    rw [gather_concat, map_id_record]
    split
    · exact hkept
    · rename_i hnew
      refine List.pairwise_append.2 ⟨hkept, List.pairwise_singleton _ _, fun a ha b hb => ?_⟩
      obtain rfl := List.mem_singleton.1 hb
      have hrun := mem_map_id_gather_iff.1 ha
      have hlt : firstPlace es a < es.length :=
        List.findIdx_lt_length.2 (hrun.imp fun _ hx => ⟨hx.1, beq_iff_eq.2 hx.2⟩)
      have hlength : firstPlace es e.run = es.length :=
        List.findIdx_eq_length.2 fun x hx => beq_false_of_ne fun heq =>
          hnew (mem_map_id_gather_iff.2 ⟨x, hx, heq⟩)
      have hplace : firstPlace (es ++ [e]) e.run = es.length := by
        have hnot : ¬es.findIdx (·.run == e.run) < es.length := by
          rw [← firstPlace, hlength]
          exact lt_irrefl _
        rw [firstPlace, List.findIdx_append, if_neg hnot]
        simp
      rw [firstPlace_concat hrun, hplace]
      exact hlt

theorem nodup_gather (es : List Envelope) : ((gather es).map (·.id)).Nodup :=
  (pairwise_gather es).imp fun hab heq => by
    rw [heq] at hab
    exact lt_irrefl _ hab

/-- **A summary that is gathered** is gathered alone from the envelopes of its run. -/
theorem gather_own (h : r ∈ gather es) : gather (es.filter (·.run == r.id)) = [r] := by
  rw [← filter_gather]
  obtain ⟨before, after, hsplit⟩ := List.append_of_mem h
  have hnodup := nodup_gather es
  rw [hsplit, List.map_append, List.map_cons] at hnodup
  have hother : ∀ x ∈ before ++ after, ¬(x.id == r.id) = true := by
    intro x hx heq
    have hnot := (List.nodup_middle.1 hnodup).notMem
    rw [← List.map_append] at hnot
    exact hnot (beq_iff_eq.1 heq ▸ List.mem_map_of_mem hx)
  rw [hsplit, List.filter_append, List.filter_cons_of_pos (by simp),
    List.filter_eq_nil_iff.2 fun x hx => hother x (List.mem_append_left _ hx),
    List.filter_eq_nil_iff.2 fun x hx => hother x (List.mem_append_right _ hx)]
  rfl

theorem started_ofEnvelopes (e : Envelope) (rest : List Envelope) :
    (ofEnvelopes e rest).started = e.time := by
  have happly : ∀ (r : Run) (x : Envelope), (r.apply x).started = r.started := by
    intro r x
    unfold apply
    split <;> rfl
  have hfold : ∀ (es : List Envelope) (r : Run), (es.foldl apply r).started = r.started := by
    intro es
    induction es with
    | nil => exact fun _ => rfl
    | cons x es ih => exact fun r => (ih _).trans (happly r x)
  exact hfold (e :: rest) (start e)

/-- **A run is said to start** at the time of its first envelope. -/
theorem started_of_gather (h : r ∈ gather es) :
    (es.find? (·.run == r.id)).map (·.time) = some r.started := by
  have hown := gather_own h
  rw [← List.head?_filter]
  rcases hes : es.filter (·.run == r.id) with _ | ⟨e, rest⟩
  · rw [hes] at hown
    cases hown
  · have hrun : ∀ x ∈ e :: rest, x.run = r.id := by
      intro x hx
      rw [← hes] at hx
      simpa using (List.mem_filter.1 hx).2
    rw [hes, gather_eq_singleton fun x hx => (hrun x (List.mem_cons_of_mem e hx)).trans
      (hrun e List.mem_cons_self).symm] at hown
    obtain rfl : ofEnvelopes e rest = r := List.singleton_inj.1 hown
    rw [hes, started_ofEnvelopes]
    rfl

/-! ### Sorting -/

/-- Whether a run does not start later than another one. -/
def startsBy (a b : Run) : Bool := !b.started.before a.started

/-- **Runs sorted by their start** keep their order where they start at the same time. -/
theorem pairwise_byStart {R : Run → Run → Prop} (h : runs.Pairwise R) :
    (byStart runs).Pairwise fun a b =>
      a.started.before b.started = true ∨ a.started = b.started ∧ (a = b ∨ R a b) := by
  have hsort : byStart runs = (runs.zipIdx.mergeSort (List.zipIdxLE startsBy)).map (·.1) :=
    List.mergeSort_zipIdx.symm
  have htrans : ∀ a b c : Run, startsBy a b = true → startsBy b c = true → startsBy a c = true :=
    fun _ _ _ => Timestamp.not_before_trans
  have htotal : ∀ a b : Run, (startsBy a b || startsBy b a) = true :=
    fun _ _ => Timestamp.not_before_total _ _
  have hsorted : (runs.zipIdx.mergeSort (List.zipIdxLE startsBy)).Pairwise
      fun a b => List.zipIdxLE startsBy a b = true :=
    List.pairwise_mergeSort (List.zipIdxLE_trans htrans) (List.zipIdxLE_total htotal) _
  have hplace : ∀ p ∈ runs.zipIdx.mergeSort (List.zipIdxLE startsBy),
      ∃ hp : p.2 < runs.length, runs[p.2] = p.1 := by
    intro p hp
    have hget := List.mem_zipIdx' (List.mem_mergeSort.1 hp)
    exact ⟨hget.1, hget.2.symm⟩
  rw [hsort, List.pairwise_map]
  refine hsorted.imp_of_mem fun {a b} ha hb hab => ?_
  obtain ⟨ha', hageteq⟩ := hplace a ha
  obtain ⟨hb', hbgeteq⟩ := hplace b hb
  unfold List.zipIdxLE at hab
  split at hab
  · rename_i hle
    split at hab
    · rename_i hge
      refine .inr ⟨Timestamp.eq_of_not_before (by simpa [startsBy] using hge)
        (by simpa [startsBy] using hle), ?_⟩
      rcases Nat.lt_or_eq_of_le (of_decide_eq_true hab) with hlt | heq
      · right
        rw [← hageteq, ← hbgeteq]
        exact List.pairwise_iff_getElem.1 h _ _ ha' hb' hlt
      · left
        simp only [← hageteq, ← hbgeteq, heq]
    · rename_i hgt
      exact .inl (by simpa [startsBy] using hgt)
  · cases hab

end Run

/-! ### The history of a ledger -/

namespace Ledger

open Run (gather firstPlace)

variable {l l' : Ledger} {t t' : FileTree} {es es' : List Envelope} {runs : List Run}

/-- **The history of some envelopes**: a summary for each run, made by the envelopes of this run
only, in the order of the first envelopes. -/
structure History (es : List Envelope) (runs : List Run) : Prop where
  nodup : (runs.map (·.id)).Nodup
  mem_iff : ∀ run, run ∈ runs.map (·.id) ↔ ∃ e ∈ es, e.run = run
  /-- A ledger with the envelopes of one run has the same summary of it, and no other. -/
  alone : ∀ r ∈ runs, ∀ (l : Ledger) (t : FileTree),
    l.events t = .ok (es.filter (·.run == r.id)) → l.runs t = .ok [r]
  started : ∀ r ∈ runs, (es.find? (·.run == r.id)).map (·.time) = some r.started
  sorted : runs.Pairwise fun a b => a.started.before b.started = true ∨
    a.started = b.started ∧ firstPlace es a.id < firstPlace es b.id

theorem runs_eq (h : l.events t = .ok es) : l.runs t = .ok (Run.byStart (gather es)) := by
  rw [runs, h]
  rfl

theorem byStart_perm (runs : List Run) : (Run.byStart runs).Perm runs := List.mergeSort_perm _ _

theorem history_byStart (es : List Envelope) : History es (Run.byStart (gather es)) where
  nodup := ((byStart_perm _).map _).nodup_iff.2 (Run.nodup_gather es)
  mem_iff run := ((byStart_perm _).map _).mem_iff.trans Run.mem_map_id_gather_iff
  alone r hr l t h := by
    rw [runs_eq h, Run.gather_own ((byStart_perm _).mem_iff.1 hr)]
    exact congrArg Except.ok (List.mergeSort_singleton r)
  started r hr := Run.started_of_gather ((byStart_perm _).mem_iff.1 hr)
  sorted := by
    have hnodup : (Run.byStart (gather es)).Nodup :=
      (byStart_perm _).nodup_iff.2 (.of_map _ (Run.nodup_gather es))
    refine ((Run.pairwise_byStart (List.pairwise_map.1 (Run.pairwise_gather es))).and hnodup).imp ?_
    rintro a b ⟨hbefore | ⟨hsame, heq | hplace⟩, hne⟩
    · exact .inl hbefore
    · exact absurd heq hne
    · exact .inr ⟨hsame, hplace⟩

/-- The order of a history goes one way. -/
theorem History.eq_of_perm {runs' : List Run} (h : History es runs) (h' : History es' runs')
    (htimes : (runs.map (·.started)).Nodup) (hperm : runs'.Perm runs) : runs' = runs := by
  have hstrict : ∀ {es : List Envelope} {l : List Run}, History es l →
      (l.map (·.started)).Nodup → l.Pairwise fun a b => a.started.before b.started = true := by
    intro es l hl hnodup
    refine (hl.sorted.and (List.pairwise_map.1 hnodup)).imp ?_
    rintro a b ⟨hbefore | ⟨hsame, -⟩, hne⟩
    · exact hbefore
    · exact absurd hsame hne
  refine List.Perm.eq_of_pairwise (fun a b _ _ hab hba => ?_)
    (hstrict h' ((hperm.map _).nodup_iff.2 htimes)) (hstrict h htimes) hperm
  rw [Timestamp.before_iff] at hab hba
  omega

/-- **The summaries of a ledger** are the history of its envelopes. They are the same, but for the
order of runs that began at the same time, for any other ledger that has the same envelopes of each
run. -/
theorem history_runs (h : l.events t = .ok es) :
    ∃ runs, l.runs t = .ok runs ∧ History es runs ∧
      ∀ (l' : Ledger) (t' : FileTree) (es' : List Envelope), l'.events t' = .ok es' →
        (∀ run, es'.filter (·.run == run) = es.filter (·.run == run)) →
          ∃ runs', l'.runs t' = .ok runs' ∧ History es' runs' ∧ runs'.Perm runs ∧
            ((runs.map (·.started)).Nodup → runs' = runs) := by
  have hhistory := history_byStart es
  refine ⟨_, runs_eq h, hhistory, fun l' t' es' h' hsame => ?_⟩
  have hhistory' := history_byStart es'
  have hown : ∀ {es es' : List Envelope},
      (∀ run, es'.filter (·.run == run) = es.filter (·.run == run)) →
      ∀ r ∈ gather es, r ∈ gather es' := by
    intro es es' hsame r hr
    have hgather := Run.filter_gather r.id es'
    rw [hsame, Run.gather_own hr] at hgather
    exact (List.mem_filter.1 (hgather ▸ List.mem_singleton_self r)).1
  have hperm : (Run.byStart (gather es')).Perm (Run.byStart (gather es)) := by
    refine (byStart_perm _).trans (.trans ?_ (byStart_perm _).symm)
    refine (List.perm_ext_iff_of_nodup (.of_map _ (Run.nodup_gather es'))
      (.of_map _ (Run.nodup_gather es))).2 fun r => ⟨hown (fun run => (hsame run).symm) r,
        hown hsame r⟩
  exact ⟨_, runs_eq h', hhistory', hperm, fun htimes => hhistory.eq_of_perm hhistory' htimes hperm⟩

/-- Three runs, of which two began at the same time. -/
def woven : List Envelope :=
  [⟨"a", ⟨200, 0⟩, "summer", programVersion, .importStarted "sync" "active" 2⟩,
    ⟨"b", ⟨100, 0⟩, "spring", programVersion, .validationFailed ["bad", "worse"]⟩,
    ⟨"c", ⟨50, 0⟩, "summer", programVersion, .stepCompleted 1 "delete blog.old"⟩,
    ⟨"d", ⟨200, 0⟩, "autumn", programVersion, .importStarted "sync" "active" 1⟩]

theorem events_woven : ofSite.events (holding woven) = .ok woven :=
  (stores_holding woven).events (by decide +kernel)

theorem history_runs_woven : ofSite.events (holding woven) = .ok woven ∧
    ∃ runs, ofSite.runs (holding woven) = .ok runs ∧ History woven runs ∧
      ∀ (l' : Ledger) (t' : FileTree) (es' : List Envelope), l'.events t' = .ok es' →
        (∀ run, es'.filter (·.run == run) = woven.filter (·.run == run)) →
          ∃ runs', l'.runs t' = .ok runs' ∧ History es' runs' ∧ runs'.Perm runs ∧
            ((runs.map (·.started)).Nodup → runs' = runs) :=
  ⟨events_woven, history_runs events_woven⟩

end Ledger

end SiteConfig
