import Mathlib
import SiteConfig.Proofs.Frame
import SiteConfig.Storage.Faulty

/-!
# What a failed step leaves behind

The error of a step says how many steps have been carried out before it, and whoever repairs the
target by hand relies on it. The target then holds what it held when the steps were planned, with
that many steps carried out (`SiteConfig.Storage.afterAll`), and as a rule nothing of the step that
has failed: as long as a change of one document that fails leaves the documents alone, a step that
changes one document has no half.

A rename changes two. It writes the document under its new name before it deletes it under the old
one, and if the second change fails then the first one stays. So a failed rename may have come
**halfway** (`SiteConfig.Importer.Halves`), and it is the only step of which something may be left
(`SiteConfig.Importer.Mutates.processStep_leaves`).
-/

namespace SiteConfig

open Attempt

/-! ### Documents after steps -/

namespace Storage

/-- Some documents with one of a snapshot among them, if the snapshot has it. -/
def adopt (source : Snapshot) (n : String) (docs : Documents) : Documents :=
  match source.get? n with
  | some d => docs.insert n d.data
  | none => docs

/-- Some documents once a step has been carried out. -/
def after (source : Snapshot) (docs : Documents) : Step → Documents
  | .create n => adopt source n docs
  | .update n => adopt source n docs
  | .delete n => docs.erase n
  | .rename m n => (adopt source n docs).erase m
  | .install _ => docs
  | .uninstall _ => docs

/-- **Some documents once some steps have been carried out**, one after the other. -/
def afterAll (source : Snapshot) (docs : Documents) (steps : List Step) : Documents :=
  steps.foldl (after source) docs

theorem afterAll_take_succ (source : Snapshot) (docs : Documents) {steps : List Step} {k : Nat}
    {st : Step} (h : steps[k]? = some st) :
    afterAll source docs (steps.take (k + 1))
      = after source (afterAll source docs (steps.take k)) st := by
  rw [List.take_add_one, h, Option.toList_some, afterAll, List.foldl_append]
  rfl

end Storage

namespace Importer

open ImportOperation ImportRun

variable {σ : Type} {i : Importer σ} {target : σ → Storage.Documents} {r : ImportRun} {s s' : σ}
  {p p₀ p' : ImportRun × σ} {source : Snapshot} {st : Step} {steps : List Step}

/-! ### Single changes -/

/-- **Only the storages are seen**: nothing is seen of what is done to the extensions and to the
lock, of the checks, and of recording events. -/
structure Apart {τ : Type} (i : Importer σ) (view : σ → τ) : Prop where
  installed : ∀ l, i.lifecycle = some l → Quiet view l.installed
  info : ∀ l, i.lifecycle = some l → ∀ e, Quiet view (l.info e)
  install : ∀ l, i.lifecycle = some l → ∀ kind names, Quiet view (l.install kind names)
  uninstall : ∀ l, i.lifecycle = some l → ∀ kind names, Quiet view (l.uninstall kind names)
  checks : ∀ c ∈ i.checks, ∀ review : Review σ, review.lifecycle = i.lifecycle →
    Quiet view (c.run review)
  journal : ∀ journal, i.journal = some journal → ∀ e, Quiet view (journal e)
  acquire : Quiet view (i.lock.acquire i.lockKey)
  release : Quiet view (i.lock.release i.lockKey)
  isLocked : Quiet view (i.lock.isLocked i.lockKey)

/-- What is seen of the storages may also be looked at in another way. -/
theorem Apart.comp {τ ρ : Type} {view : σ → τ} (h : i.Apart view) (f : τ → ρ) :
    i.Apart fun s => f (view s) where
  installed l hl s := congrArg f (h.installed l hl s)
  info l hl e s := congrArg f (h.info l hl e s)
  install l hl kind names s := congrArg f (h.install l hl kind names s)
  uninstall l hl kind names s := congrArg f (h.uninstall l hl kind names s)
  checks c hc review hr s := congrArg f (h.checks c hc review hr s)
  journal journal hj e s := congrArg f (h.journal journal hj e s)
  acquire s := congrArg f (h.acquire s)
  release s := congrArg f (h.release s)
  isLocked s := congrArg f (h.isLocked s)

/-- **What has succeeded has been done**: the documents of the target are as a change of one of
them should leave them. Reading the storages does not change them. -/
structure Performs (i : Importer σ) (target : σ → Storage.Documents) : Prop
    extends i.Apart target where
  listSource : Quiet target (i.comparer.source.list "")
  readSource : ∀ names, Quiet target (i.comparer.source.readMany names)
  listTarget : Quiet target (i.comparer.target.list "")
  readTarget : ∀ names, Quiet target (i.comparer.target.readMany names)
  written : ∀ n m s s', i.comparer.target.write n m s = (.ok (), s') →
    target s' = (target s).insert n m
  deleted : ∀ n s s', i.comparer.target.delete n s = (.ok (), s') → target s' = (target s).erase n

theorem Performs.discreet (h : i.Performs target) : i.Discreet target where
  looks v :=
    { listSource := quiet_iff_stable.1 h.listSource v
      readSource := fun names => quiet_iff_stable.1 (h.readSource names) v
      listTarget := quiet_iff_stable.1 h.listTarget v
      readTarget := fun names => quiet_iff_stable.1 (h.readTarget names) v
      installed := fun l hl => quiet_iff_stable.1 (h.installed l hl) v
      info := fun l hl e => quiet_iff_stable.1 (h.info l hl e) v
      checks := fun c hc review hr => quiet_iff_stable.1 (h.checks c hc review hr) v }
  acquire := h.acquire
  release := h.release
  isLocked := h.isLocked

/-- **A change of one document happens or it does not**: if it fails then the documents of the
target stay as they are. -/
structure Mutates (i : Importer σ) (target : σ → Storage.Documents) : Prop
    extends i.Performs target where
  unwritten : ∀ n m s e s', i.comparer.target.write n m s = (.error e, s') → target s' = target s
  undeleted : ∀ n s e s', i.comparer.target.delete n s = (.error e, s') → target s' = target s

/-- **A rename comes halfway** if the document can be written under its new name. -/
def Halves (i : Importer σ) (source : Snapshot) (s : σ) (st : Step) (n : String)
    (m : Yaml.Mapping) : Prop :=
  ∃ old d, st = .rename old n ∧ source.get? n = some d ∧ d.data = m ∧
    (i.comparer.target.write n m s).1 = .ok ()

section Performs

variable (h : i.Performs target)

include h in
theorem Performs.reports : i.Reports target id := ⟨h.journal, h.release⟩

/-- What is written is what the source has. -/
theorem writeFrom_apply (i : Importer σ) (source : Snapshot) (n : String) (s : σ) :
    (sourceData source n >>= fun data =>
        (i.comparer.target.write n data).mapError (·.message) : Attempt σ String Unit) s
      = match source.get? n with
        | some d => (i.comparer.target.write n d.data).mapError (·.message) s
        | none => (.error s!"{n} is missing from the source snapshot", s) := by
  unfold sourceData
  rcases source.get? n with _ | d <;> rfl

include h in
theorem Performs.writeFrom_ok {n : String} (hx : (sourceData source n >>= fun data =>
      (i.comparer.target.write n data).mapError (·.message) : Attempt σ String Unit) s
        = (.ok (), s')) :
    target s' = Storage.adopt source n (target s) ∧
      ∃ d, source.get? n = some d ∧ (i.comparer.target.write n d.data s).1 = .ok () := by
  rw [writeFrom_apply] at hx
  unfold Storage.adopt
  rcases hn : source.get? n with _ | d <;> rw [hn] at hx
  · cases hx
  · have hok := mapError_eq_ok_iff.1 hx
    exact ⟨h.written n d.data s s' hok, d, rfl, congrArg Prod.fst hok⟩

/-- Nothing is seen while a lifecycle is asked for what is not seen. -/
theorem quiet_lifecycleFor {τ : Type} {view : σ → τ} {f : Lifecycle σ → Attempt σ Failure Unit}
    (hf : ∀ l, i.lifecycle = some l → Quiet view (f l)) :
    Quiet view (i.lifecycleFor >>= fun l => (f l).mapError (·.text)) := by
  unfold lifecycleFor
  rcases hl : i.lifecycle with _ | l
  · exact fun _ => rfl
  · exact quiet_iff_stable.2 fun v => (quiet_iff_stable.1 (hf l hl) v).mapError

include h in
/-- **A step that succeeds** changes the documents as it should. -/
theorem Performs.execute_ok (hx : i.execute source st s = (.ok (), s')) :
    target s' = Storage.after source (target s) st := by
  cases st with
  | create n => exact (h.writeFrom_ok hx).1
  | update n => exact (h.writeFrom_ok hx).1
  | delete n => exact h.deleted n s s' (mapError_eq_ok_iff.1 hx)
  | rename m n =>
    obtain ⟨⟨⟩, s₁, hwrite, hdelete⟩ := bind_eq_ok_iff.1 hx
    rw [h.deleted m s₁ s' (mapError_eq_ok_iff.1 hdelete), (h.writeFrom_ok hwrite).1]
    rfl
  | install e =>
    have hquiet := quiet_lifecycleFor (fun l hl => h.install l hl e.kind [e.name]) s
    exact (congrArg (fun o => target o.2) hx).symm.trans hquiet
  | uninstall e =>
    have hquiet := quiet_lifecycleFor (fun l hl => h.uninstall l hl e.kind [e.name]) s
    exact (congrArg (fun o => target o.2) hx).symm.trans hquiet

include h in
/-- A step that succeeds changes the target as it should. -/
theorem Performs.processStep_ok (hnext : r.nextStep? = some st)
    (hdone : i.processStep st (r, s) = (.ok (), p')) :
    p'.1 = r.stepped ∧ target p'.2 = Storage.after r.comparison.source (target s) st := by
  rcases hx : i.execute r.comparison.source st s with ⟨reason | ⟨⟩, s₁⟩
  · obtain ⟨q, heq, -⟩ := h.reports.yields_processStep_error hnext ⟨s₁, hx, rfl⟩
    cases heq.symm.trans hdone
  · obtain ⟨⟨r', s'⟩, heq, hview⟩ := h.reports.yields_processStep hnext ⟨s₁, hx, rfl⟩
    obtain ⟨rfl, htarget⟩ := beside_eq_iff.1 hview
    cases heq.symm.trans hdone
    refine ⟨rfl, ?_⟩
    rw [htarget, ← h.execute_ok hx]
    split <;> rfl

include h in
/-- **Steps that succeed** change the target as they should, one after the other. -/
theorem Performs.forM_processStep (hr : r.Awaits steps)
    (hdone : steps.forM i.processStep (r, s) = (.ok (), p')) :
    target p'.2 = Storage.afterAll r.comparison.source (target s) steps := by
  induction steps generalizing r s with
  | nil =>
    cases hdone
    rfl
  | cons st steps ih =>
    obtain ⟨⟨⟩, ⟨r₁, s₁⟩, hstep, hrest⟩ := bind_eq_ok_iff.1 hdone
    obtain ⟨hrun, htarget⟩ := h.processStep_ok hr.nextStep? hstep
    obtain rfl : r₁ = r.stepped := hrun
    rw [ih hr.stepped hrest, htarget]
    unfold ImportRun.stepped
    split <;> rfl

end Performs

section Mutates

variable (h : i.Mutates target)

include h in
theorem Mutates.writeFrom_error {n reason : String} (hx : (sourceData source n >>= fun data =>
      (i.comparer.target.write n data).mapError (·.message) : Attempt σ String Unit) s
        = (.error reason, s')) :
    target s' = target s ∧
      ∀ d, source.get? n = some d → (i.comparer.target.write n d.data s).1 ≠ .ok () := by
  rw [writeFrom_apply] at hx
  rcases hn : source.get? n with _ | d <;> rw [hn] at hx
  · cases hx
    exact ⟨rfl, fun d hd => nomatch hd⟩
  · obtain ⟨cause, hfail, -⟩ := mapError_eq_error_iff.1 hx
    refine ⟨h.unwritten n d.data s cause s' hfail, fun d' hd' hok => ?_⟩
    cases hd'
    rw [hfail] at hok
    cases hok

include h in
/-- **A step that fails** changes no documents, unless it is a rename that has come halfway. -/
theorem Mutates.execute_error {reason : String} (hx : i.execute source st s = (.error reason, s')) :
    (∀ n m, i.Halves source s st n m → target s' = (target s).insert n m) ∧
      ((∀ n m, ¬i.Halves source s st n m) → target s' = target s) := by
  -- only a rename has halves
  have hwhole : (∀ m n, st ≠ .rename m n) → target s' = target s →
      (∀ n m, i.Halves source s st n m → target s' = (target s).insert n m) ∧
        ((∀ n m, ¬i.Halves source s st n m) → target s' = target s) := by
    refine fun hno heq => ⟨?_, fun _ => heq⟩
    rintro n m ⟨old, d, hst, -⟩
    exact absurd hst (hno old n)
  cases st with
  | create n => exact hwhole nofun (h.writeFrom_error hx).1
  | update n => exact hwhole nofun (h.writeFrom_error hx).1
  | delete n =>
    obtain ⟨cause, hfail, -⟩ := mapError_eq_error_iff.1 hx
    exact hwhole nofun (h.undeleted n s cause s' hfail)
  | rename old n =>
    obtain hwrite | ⟨⟨⟩, s₁, hwrite, hdelete⟩ := bind_eq_error_iff.1 hx
    · obtain ⟨heq, hno⟩ := h.writeFrom_error hwrite
      refine ⟨?_, fun _ => heq⟩
      rintro n' m ⟨old', d, hst, hd, rfl, hok⟩
      cases hst
      exact absurd hok (hno d hd)
    · -- the document has been written, so it is the other one that could not be deleted
      obtain ⟨heq, d, hd, hok⟩ := h.writeFrom_ok hwrite
      obtain ⟨cause, hfail, -⟩ := mapError_eq_error_iff.1 hdelete
      have hsame := h.undeleted old s₁ cause s' hfail
      refine ⟨?_, fun hno => absurd ⟨old, d, rfl, hd, rfl, hok⟩ (hno n d.data)⟩
      rintro n' m ⟨old', d', hst, hd', rfl, -⟩
      cases hst
      rw [hsame, heq, Storage.adopt, hd']
  | install e =>
    have hquiet := quiet_lifecycleFor (fun l hl => h.install l hl e.kind [e.name]) s
    exact hwhole nofun ((congrArg (fun o => target o.2) hx).symm.trans hquiet)
  | uninstall e =>
    have hquiet := quiet_lifecycleFor (fun l hl => h.uninstall l hl e.kind [e.name]) s
    exact hwhole nofun ((congrArg (fun o => target o.2) hx).symm.trans hquiet)

end Mutates

/-! ### From planning on -/

/-- What goes on from some point: one call after the other. Between two calls anything may happen
that leaves the target alone. -/
inductive Continues (i : Importer σ) (target : σ → Storage.Documents) (p₀ : ImportRun × σ) :
    ImportRun × σ → Prop
  | begun : Continues i target p₀ p₀
  | called {p : ImportRun × σ} (h : Continues i target p₀ p) (q : Call) :
      Continues i target p₀ (q.leaves i p)
  | meanwhile {r : ImportRun} {s s' : σ} (h : Continues i target p₀ (r, s))
      (hs : target s' = target s) : Continues i target p₀ (r, s')

/-- **An import with its steps planned**: as long as it is at work, the target holds what it held
before, with those steps carried out that have been carried out. -/
structure Partway (target : σ → Storage.Documents) (c : Comparison) (steps : List Step)
    (docs : Storage.Documents) (p : ImportRun × σ) : Prop where
  compared : p.1.comparison = c
  planned : p.1.steps = steps
  begun : ¬MayValidate p.1
  carriedOut : p.1.state.isActive = true →
    target p.2 = Storage.afterAll c.source docs (steps.take p.1.position)

section Partway

variable {c : Comparison} {docs : Storage.Documents} (h : i.Mutates target)

include h in
/-- A step that fails leaves the target as its execution has left it. -/
theorem Mutates.processStep_error {e : ImportError} (hnext : r.nextStep? = some st)
    (hfail : i.processStep st (r, s) = (.error e, p')) :
    ∃ reason s₁, i.execute r.comparison.source st s = (.error reason, s₁) ∧
      e = .stepFailed (r.position + 1) r.steps.length st.text r.position reason ∧
      p'.1 = r.failed reason ∧ target p'.2 = target s₁ := by
  rcases hx : i.execute r.comparison.source st s with ⟨reason | ⟨⟩, s₁⟩
  · obtain ⟨⟨r', s'⟩, heq, hview⟩ := h.reports.yields_processStep_error hnext ⟨s₁, hx, rfl⟩
    obtain ⟨rfl, htarget⟩ := beside_eq_iff.1 hview
    cases heq.symm.trans hfail
    exact ⟨reason, s₁, rfl, rfl, rfl, htarget⟩
  · obtain ⟨q, heq, -⟩ := h.reports.yields_processStep hnext ⟨s₁, hx, rfl⟩
    cases heq.symm.trans hfail

include h in
theorem Mutates.processStep_partway (hp : Partway target c steps docs p) (st : Step) :
    Partway target c steps docs (i.processStep st p).2 := by
  obtain ⟨r, s⟩ := p
  by_cases hnext : r.nextStep? = some st
  · obtain ⟨rfl, rfl, -, hdocs⟩ := hp
    have hactive := (nextStep?_eq_some_iff.1 hnext).1
    rcases hstep : i.processStep st (r, s) with ⟨e | ⟨⟩, p'⟩
    · -- with a step that fails the import is over
      obtain ⟨reason, s₁, -, -, hrun, -⟩ := h.processStep_error hnext hstep
      obtain ⟨r', s'⟩ := p'
      obtain rfl : r' = r.failed reason := hrun
      exact ⟨rfl, rfl, by simp [MayValidate, ImportRun.failed], fun hno => by cases hno⟩
    · obtain ⟨hrun, htarget⟩ := h.processStep_ok hnext hstep
      obtain ⟨r', s'⟩ := p'
      obtain rfl : r' = r.stepped := hrun
      have hget := (position_lt_of_nextStep hnext).2
      have hafter : target s' = Storage.afterAll r.comparison.source docs
          (r.steps.take (r.position + 1)) := by
        rw [Storage.afterAll_take_succ _ _ hget, ← hdocs hactive]
        exact htarget
      unfold ImportRun.stepped
      split
      · exact ⟨rfl, rfl, by simp [MayValidate], fun hno => by cases hno⟩
      · exact ⟨rfl, rfl, by simp [MayValidate], fun _ => hafter⟩
  · -- any other step is refused, also at work
    obtain ⟨e, -, heq⟩ := processStep_turnedAway (i := i) (s := s) hnext
    rw [heq]
    exact hp

include h in
/-- **Every call keeps an import on its way**: it can no longer be validated nor planned. -/
theorem Mutates.maintains_partway : i.Maintains (Partway target c steps docs) where
  validate := by
    rintro ⟨r, s⟩ hp
    rw [validate_of_not_mayValidate i hp.begun]
    exact hp
  start := by
    rintro ⟨r, s⟩ hp
    rw [start_of_not_validated fun hstate => hp.begun (.inr hstate)]
    exact hp
  processStep st p hp := h.processStep_partway hp st

include h in
theorem Mutates.alreadyImporting_partway :
    Stable (Partway target c steps docs) i.alreadyImporting := by
  rintro ⟨r, s⟩ hp
  have hquiet := h.discreet.quiet_alreadyImporting (r, s)
  have hrun := alreadyImporting_run i (r, s)
  rcases hask : (i.alreadyImporting (r, s)).2 with ⟨r', s'⟩
  rw [hask] at hquiet hrun
  obtain rfl : r' = r := hrun
  exact ⟨hp.compared, hp.planned, hp.begun, fun hactive => hquiet.trans (hp.carriedOut hactive)⟩

include h in
theorem Mutates.partway_of_start (hstart : i.start (r, s) = (.ok steps, p₀)) :
    Partway target r.comparison steps (target s) p₀ := by
  obtain ⟨r₀, s₀⟩ := p₀
  obtain ⟨-, t, heq⟩ := (start_ends i r s).apply hstart
  have hquiet : target (i.start (r, s)).2.2 = target s := h.discreet.quiet_start h.journal (r, s)
  rw [hstart] at hquiet
  obtain rfl : r₀ = r.planned steps t := heq
  unfold ImportRun.planned
  split
  · exact ⟨rfl, rfl, by simp [MayValidate], fun hno => by cases hno⟩
  · exact ⟨rfl, rfl, by simp [MayValidate], fun _ => hquiet⟩

include h in
theorem Mutates.partway (hstart : i.start (r, s) = (.ok steps, p₀))
    (hp : i.Continues target p₀ p) : Partway target r.comparison steps (target s) p := by
  induction hp with
  | begun => exact h.partway_of_start hstart
  | called _ q ih => exact h.maintains_partway.call h.alreadyImporting_partway ih q
  | meanwhile _ hs ih =>
    exact ⟨ih.compared, ih.planned, ih.begun, fun hactive => hs.trans (ih.carriedOut hactive)⟩

end Partway

end Importer

/-! ### On a bench -/

namespace Storage

variable {σ : Type} {count : Cell σ Nat} {faults : Faults} {n : String} {m : Yaml.Mapping}
  {s s' : σ}

theorem stable_readEach {I : σ → Prop} {read : String → Attempt σ ConfigError Document}
    (hread : ∀ n, Stable I (read n)) (names : List String) : Stable I (readEach read names) := by
  induction names with
  | nil => exact stable_pure _
  | cons n names ih =>
    refine Stable.bind (((hread n).bind fun _ => stable_pure _).recover fun e => ?_) fun _ =>
      ih.bind fun _ => stable_pure _
    split
    · exact stable_pure _
    · exact stable_fail e

section Faulty

variable (cell : Cell σ Documents) (hcount : ∀ n s, cell.get (count.set n s) = cell.get s)
  (hcell : ∀ docs s, cell.get (cell.set docs s) = docs)

include hcell in
theorem write_memory_ok (h : (memory cell).write n m s = (.ok (), s')) :
    cell.get s' = (cell.get s).insert n m := by
  rcases hn : validateName n with e | ⟨⟩
  · cases (write_memory_error hn m).symm.trans h
  · cases (write_memory hn m).symm.trans h
    exact hcell _ s

include hcell in
theorem delete_memory_ok (h : (memory cell).delete n s = (.ok (), s')) :
    cell.get s' = (cell.get s).erase n := by
  rcases hn : (cell.get s).contains n with _ | _
  · cases (delete_memory_error hn).symm.trans h
  · cases (delete_memory hn).symm.trans h
    exact hcell _ s

include hcount in
/-- Counting a change, and failing there, is no change. -/
theorem quiet_countChange (n : String) : Quiet cell.get (countChange faults count n) := by
  refine Quiet.bind (fun s => hcount _ s) fun _ => Quiet.bind (fun _ => rfl) fun k => ?_
  split <;> exact fun _ => rfl

include hcount hcell in
theorem write_faulty_ok (h : (faulty (memory cell) faults count).write n m s = (.ok (), s')) :
    cell.get s' = (cell.get s).insert n m := by
  obtain ⟨⟨⟩, s₁, hcounted, hwrite⟩ := bind_eq_ok_iff.1 h
  have hquiet : cell.get s₁ = cell.get s := by
    rw [← quiet_countChange cell hcount n s, hcounted]
  rw [write_memory_ok cell hcell hwrite, hquiet]

include hcount in
theorem write_faulty_error {e : ConfigError}
    (h : (faulty (memory cell) faults count).write n m s = (.error e, s')) :
    cell.get s' = cell.get s := by
  have hquiet : cell.get (countChange faults count n s).2 = cell.get s :=
    quiet_countChange cell hcount n s
  obtain hcounted | ⟨⟨⟩, s₁, hcounted, hwrite⟩ := bind_eq_error_iff.1 h <;> rw [hcounted] at hquiet
  · exact hquiet
  · rcases hn : validateName n with e | ⟨⟩
    · cases (write_memory_error hn m).symm.trans hwrite
      exact hquiet
    · cases (write_memory hn m).symm.trans hwrite

include hcount hcell in
theorem delete_faulty_ok (h : (faulty (memory cell) faults count).delete n s = (.ok (), s')) :
    cell.get s' = (cell.get s).erase n := by
  obtain ⟨⟨⟩, s₁, hcounted, hdelete⟩ := bind_eq_ok_iff.1 h
  have hquiet : cell.get s₁ = cell.get s := by
    rw [← quiet_countChange cell hcount n s, hcounted]
  rw [delete_memory_ok cell hcell hdelete, hquiet]

include hcount in
theorem delete_faulty_error {e : ConfigError}
    (h : (faulty (memory cell) faults count).delete n s = (.error e, s')) :
    cell.get s' = cell.get s := by
  have hquiet : cell.get (countChange faults count n s).2 = cell.get s :=
    quiet_countChange cell hcount n s
  obtain hcounted | ⟨⟨⟩, s₁, hcounted, hdelete⟩ := bind_eq_error_iff.1 h <;> rw [hcounted] at hquiet
  · exact hquiet
  · rcases hn : (cell.get s₁).contains n with _ | _
    · cases (delete_memory_error hn).symm.trans hdelete
      exact hquiet
    · cases (delete_memory hn).symm.trans hdelete

end Faulty

end Storage

/-- Two storages, the held locks and the number of changes, all in memory. -/
structure Bench where
  source : Storage.Documents
  target : Storage.Documents
  held : LockTable.Held
  changes : Nat

namespace Bench

open Importer Storage

/-- The documents of the target of a bench. -/
def documents : Cell Bench Documents := ⟨target, fun a d => { d with target := a }⟩

/-- The number of changes on a bench. -/
def count : Cell Bench Nat := ⟨changes, fun a d => { d with changes := a }⟩

/-- An importer that works on a bench. -/
def importerOf (c : Comparer Bench) : Importer Bench :=
  { comparer := c
    lock := LockTable.memory ⟨held, fun a d => { d with held := a }⟩
    lockKey := "import"
    schemas := none
    lifecycle := none
    checks := Check.standard
    journal := none
    clock := fun _ => default }

/-- An importer that works on a bench, with a target that fails at stated places. -/
def importer (faults : Faults) : Importer Bench :=
  importerOf
    { source := memory ⟨source, fun a d => { d with source := a }⟩
      target := faulty (memory documents) faults count
      transforms := [] }

/-- Whatever an importer on a bench compares, only the storages are seen. -/
theorem apart (c : Comparer Bench) : (importerOf c).Apart target where
  installed _ hl := nomatch hl
  info _ hl := nomatch hl
  install _ hl := nomatch hl
  uninstall _ hl := nomatch hl
  checks c hc rv hrv := quiet_iff_stable.2 fun v => by
    have hnone : rv.lifecycle = none := hrv
    refine Check.stable_standard (fun l hl => ?_) (fun l hl => ?_) hc <;> rw [hnone] at hl <;>
      cases hl
  journal _ hj := nomatch hj
  acquire := quiet_iff_stable.2 fun _ => LockTable.stable_take (fun _ _ hs => hs) _
  release _ := rfl
  isLocked _ := rfl

/-- **Whatever fails on a bench**, a change of one document happens or it does not. -/
theorem mutates (faults : Faults) : (importer faults).Mutates target where
  toApart := apart _
  listSource _ := rfl
  readSource names := quiet_iff_stable.2 fun _ => stable_readMany_memory names
  listTarget _ := rfl
  readTarget names := quiet_iff_stable.2 fun _ => by
    refine stable_readEach (fun n => ?_) names
    simp only
    split
    · exact stable_fail _
    · exact fun _ hs => hs
  written _ _ _ _ h := write_faulty_ok documents (fun _ _ => rfl) (fun _ _ => rfl) h
  unwritten _ _ _ _ _ h := write_faulty_error documents (fun _ _ => rfl) h
  deleted _ _ _ h := delete_faulty_ok documents (fun _ _ => rfl) (fun _ _ => rfl) h
  undeleted _ _ _ _ h := delete_faulty_error documents (fun _ _ => rfl) h

/-- A page can no longer be deleted. -/
def stuck : Faults := ⟨some "blog.start", none, none⟩

/-- A bench where that page has another name in the source, and another one is missing. -/
def moving : Bench where
  source := .ofList [("blog.about", []), ("blog.home", [(.string "uuid", .string "u1")])]
  target := .ofList [("blog.start", [(.string "uuid", .string "u1")])]
  held := []
  changes := 0

theorem write_stuck (m : Yaml.Mapping) (s : Bench) :
    ((importer stuck).comparer.target.write "blog.home" m s).1 = .ok () := by
  have hnone : ¬(stuck.name = some "blog.home" ∨ stuck.number = some (s.changes + 1)) := by
    simp [stuck]
  have hcount : countChange stuck count "blog.home" s
      = (.ok (), { s with changes := s.changes + 1 }) := by
    show (if stuck.name = some "blog.home" ∨ stuck.number = some (s.changes + 1) then
      Attempt.fail (.write "blog.home" "simulated storage failure") else pure () :
        Attempt Bench ConfigError Unit) _ = _
    rw [if_neg hnone]
    rfl
  have hname : validateName "blog.home" = .ok () := by decide +kernel
  show ((countChange stuck count "blog.home" >>= fun _ => (memory documents).write "blog.home" m)
    s).1 = _
  rw [bind_apply, hcount]
  simp only
  rw [write_memory hname]

/-- On this bench the missing page is written, and then the other one fails to be moved. -/
theorem exists_midway :
    let i := importer stuck
    let st := Step.rename "blog.start" "blog.home"
    ∃ r s p₀ p p' reason d, i.start (r, s) = (.ok [.create "blog.about", st], p₀) ∧
      i.Continues target p₀ p ∧
      i.processStep st p = (.error (.stepFailed 2 2 st.text 1 reason), p') ∧
      r.comparison.source.get? "blog.home" = some d ∧
      (i.comparer.target.write "blog.home" d.data p.2).1 = .ok () ∧
      (afterAll r.comparison.source s.target [.create "blog.about"]).contains "blog.home" = false ∧
      p'.2.target.contains "blog.home" = true := by
  intro i st
  have hstart : (i.start (i.validate (.initial, moving)).2).1 = .ok [.create "blog.about", st] := by
    decide +kernel
  have hfail : (i.processStep st (i.processNext (i.start (i.validate (.initial, moving)).2).2).2).1
      = .error (.stepFailed 2 2 st.text 1
        "Failed to write configuration blog.start: simulated storage failure") := by
    decide +kernel
  have hsource : ((i.validate (.initial, moving)).2.1.comparison.source.get? "blog.home").isSome
      = true := by decide +kernel
  have hbefore : (afterAll (i.validate (.initial, moving)).2.1.comparison.source
      (i.validate (.initial, moving)).2.2.target [.create "blog.about"]).contains "blog.home"
        = false := by decide +kernel
  have hafter : (i.processStep st
      (i.processNext (i.start (i.validate (.initial, moving)).2).2).2).2.2.target.contains
        "blog.home" = true := by decide +kernel
  -- what the import and the bench are does not matter from here on
  rcases hvalid : (i.validate (.initial, moving)).2 with ⟨r, s⟩
  rw [hvalid] at hstart hfail hsource hbefore hafter
  rcases hplan : i.start (r, s) with ⟨o, p₀⟩
  rw [hplan] at hstart hfail hafter
  obtain rfl : o = .ok [.create "blog.about", st] := hstart
  obtain ⟨d, hd⟩ := Option.isSome_iff_exists.1 hsource
  have hcontinues : i.Continues target p₀ (i.processNext p₀).2 := .called .begun .processNext
  exact ⟨r, s, p₀, (i.processNext p₀).2, _, _, d, hplan, hcontinues, Prod.ext hfail rfl, hd,
    write_stuck d.data _, hbefore, hafter⟩

end Bench

namespace Importer

/-! ### Any step -/

open ImportRun

/-- **What a failed step leaves behind.** The error tells how many steps have been carried out, and
which one has failed. The target holds what it held before, with just these steps carried out,
unless the step is a rename that has come halfway; then the document is also there under its new
name. -/
theorem Mutates.processStep_leaves {σ : Type} {i : Importer σ} {target : σ → Storage.Documents}
    {r : ImportRun} {s : σ} {p p₀ p' : ImportRun × σ} {st : Step} {steps : List Step}
    (h : i.Mutates target)
    (hstart : i.start (r, s) = (.ok steps, p₀)) (hp : i.Continues target p₀ p)
    {number total completed : Nat} {text reason : String}
    (hfail : i.processStep st p = (.error (.stepFailed number total text completed reason), p')) :
    let source := r.comparison.source
    let docs := Storage.afterAll source (target s) (steps.take completed)
    steps[completed]? = some st ∧ number = completed + 1 ∧ total = steps.length ∧ text = st.text ∧
      (∀ n m, i.Halves source p.2 st n m → target p'.2 = docs.insert n m) ∧
      ((∀ n m, ¬i.Halves source p.2 st n m) → target p'.2 = docs) := by
  intro source docs
  have hpart := h.partway hstart hp
  obtain ⟨r₁, s₁⟩ := p
  by_cases hnext : r₁.nextStep? = some st
  · obtain ⟨reason', s₂, hx, herror, -, htarget⟩ := h.processStep_error hnext hfail
    cases herror
    obtain ⟨hcompared, hsteps, -, hdocs⟩ := hpart
    have hget := (position_lt_of_nextStep hnext).2
    have hbefore := hdocs (nextStep?_eq_some_iff.1 hnext).1
    rw [show r₁.comparison = r.comparison from hcompared] at hx
    obtain ⟨hhalf, hwhole⟩ := h.execute_error hx
    rw [show target s₁ = docs from hbefore] at hhalf hwhole
    rw [show r₁.steps = steps from hsteps] at hget ⊢
    exact ⟨hget, rfl, rfl, rfl, fun n m hn => htarget.trans (hhalf n m hn),
      fun hno => htarget.trans (hwhole hno)⟩
  · -- a step that is turned away has another error
    obtain ⟨e, haway, heq⟩ := processStep_turnedAway (i := i) (s := s₁) hnext
    cases heq.symm.trans hfail
    cases haway

/-- On a bench the missing page has been written. The other one cannot be deleted under its old name
once it has been written under the new one, and so it is there twice. -/
theorem processStep_leaves_moving :
    let i := Bench.importer Bench.stuck
    let st := Step.rename "blog.start" "blog.home"
    ∃ r s p₀ p p' reason d, i.start (r, s) = (.ok [.create "blog.about", st], p₀) ∧
      i.Continues Bench.target p₀ p ∧
      i.processStep st p = (.error (.stepFailed 2 2 st.text 1 reason), p') ∧
      r.comparison.source.get? "blog.home" = some d ∧
      p'.2.target = (Storage.afterAll r.comparison.source s.target [.create "blog.about"]).insert
        "blog.home" d.data := by
  obtain ⟨r, s, p₀, p, p', reason, d, hstart, hcontinues, hfail, hd, hwrite, -⟩ :=
    Bench.exists_midway
  obtain ⟨-, -, -, -, hhalf, -⟩ :=
    (Bench.mutates Bench.stuck).processStep_leaves hstart hcontinues hfail
  have hleft := hhalf "blog.home" d.data ⟨"blog.start", d, rfl, hd, rfl, hwrite⟩
  exact ⟨r, s, p₀, p, p', reason, d, hstart, hcontinues, hfail, hd, hleft⟩

/-- A step that fails may leave something behind, though no change of one document does. -/
theorem not_always_intact :
    ¬∀ (r : ImportRun) (s : Bench) (steps : List Step) (p₀ p p' : ImportRun × Bench) (st : Step)
      (number total completed : Nat) (text reason : String),
      (Bench.importer Bench.stuck).start (r, s) = (.ok steps, p₀) →
      (Bench.importer Bench.stuck).Continues Bench.target p₀ p →
      (Bench.importer Bench.stuck).processStep st p
        = (.error (.stepFailed number total text completed reason), p') →
      p'.2.target = Storage.afterAll r.comparison.source s.target (steps.take completed) := by
  intro h
  obtain ⟨r, s, p₀, p, p', reason, d, hstart, hcontinues, hfail, -, -, hbefore, hafter⟩ :=
    Bench.exists_midway
  have hintact := h r s _ p₀ p p' _ 2 2 1 _ reason hstart hcontinues hfail
  rw [hintact] at hafter
  exact absurd (hafter.symm.trans hbefore) (by decide)

end Importer

end SiteConfig
