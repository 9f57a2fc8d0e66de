import Mathlib
import SiteConfig.Proofs.Cached
import SiteConfig.Proofs.Halfway

/-!
# Storages that are backed by a map

A storage is backed by a map when its documents can be read, written and deleted like the bindings
of a map (`SiteConfig.Storage.Backed`). What it takes under which name, and which data it gives back
as they were, is up to the storage; and it may fail at any time, if a single operation that fails
changes nothing. What this comes to for a change is said once, by a relation between the documents
before and after it (`SiteConfig.Storage.Change.Does`).

A document is renamed by reading, writing and deleting it, and so a rename does more than the three
do: it can fail between the writing and the deleting, with the document under both names
(`SiteConfig.Storage.Backed.does_rename`). A cache over such a storage does what the storage does,
and what it remembers stays true (`SiteConfig.Storage.Backed.does_cached`).
-/

namespace SiteConfig

/-- Whether a name is accepted. -/
def isProper (name : String) : Bool := (nameDefect? name).isNone

theorem isProper_iff {n : String} : isProper n = true ↔ validateName n = .ok () := by
  have hcheck : validateName n = .ok () ↔ checkName n = .ok () :=
    ⟨eq_ok_of_mapError, fun h => by rw [validateName, h]; rfl⟩
  rw [hcheck, checkName_eq_ok_iff, isProper, Option.isNone_iff_eq_none]

namespace Storage

open Attempt

/-! ### What a change does to a map -/

namespace Change

/-- Whether a change of some documents can be made, where only what fits can be written. -/
def works (fits : String → Yaml.Mapping → Bool) (docs : Documents) : Change → Bool
  | .write n m => fits n m
  | .delete n => docs.contains n
  | .rename source target => (docs.get? source).any (fits target)

/-- What a change makes of some documents, if it can be made. -/
def made (docs : Documents) : Change → Documents
  | .write n m => docs.insert n m
  | .delete n => docs.erase n
  | .rename source target =>
    match docs.get? source with
    | some m => (docs.insert target m).erase source
    | none => docs

/-- **What becomes of some documents when a change is tried.** -/
def tried (fits : String → Yaml.Mapping → Bool) (docs : Documents) (c : Change) : Documents :=
  if c.works fits docs then c.made docs else docs

/-- Whether what a change writes is given back as it is. -/
def Kept (keeps : Yaml.Mapping → Prop) : Change → Prop
  | .write _ m => keeps m
  | _ => True

/-- **What a change does**, by its outcome and the documents that it leaves: it is made, or nothing
is; only a rename can also come half-way, and a change that could be made fails only where anything
can. -/
inductive Does (fits : String → Yaml.Mapping → Bool) (fallible : Prop) (docs : Documents)
    (c : Change) : Except ConfigError Unit → Documents → Prop
  | made : c.works fits docs = true → Does fits fallible docs c (.ok ()) (c.made docs)
  | refused (e : ConfigError) : (c.works fits docs = true → fallible) →
      Does fits fallible docs c (.error e) docs
  | halfway (e : ConfigError) {source target : String} {m : Yaml.Mapping} : fallible →
      c = .rename source target → docs.get? source = some m → fits target m = true →
      Does fits fallible docs c (.error e) (docs.insert target m)

variable {fits : String → Yaml.Mapping → Bool} {fallible : Prop} {docs docs' : Documents}
  {c : Change} {r : Except ConfigError Unit} {n : String}

/-- A change spares the names that it is not about. -/
theorem get?_made (hn : n ∉ c.names) : (c.made docs).get? n = docs.get? n := by
  cases c with
  | write k m =>
    rw [made, NameMap.get?_insert, if_neg (by simpa [names] using hn)]
  | delete k =>
    rw [made, NameMap.get?_erase, if_neg (by simpa [names] using hn)]
  | rename source target =>
    obtain ⟨hsource, htarget⟩ : n ≠ source ∧ n ≠ target := by simpa [names] using hn
    rw [made]
    split
    · rw [NameMap.get?_erase, if_neg hsource, NameMap.get?_insert, if_neg htarget]
    · rfl

/-- **Whatever a change does**, it does to the names that it is about. -/
theorem Does.get?_eq (h : c.Does fits fallible docs r docs') (hn : n ∉ c.names) :
    docs'.get? n = docs.get? n := by
  cases h with
  | made _ => exact get?_made hn
  | refused _ _ => rfl
  | halfway _ _ hc _ _ =>
    subst hc
    rw [NameMap.get?_insert, if_neg]
    rintro rfl
    exact hn (List.mem_cons_of_mem _ List.mem_cons_self)

/-- **Where nothing else can fail**, there is only one thing that a change can do. -/
theorem Does.of_reliable (h : c.Does fits False docs r docs') :
    r.isOk = c.works fits docs ∧ docs' = c.tried fits docs := by
  rw [tried]
  cases h with
  | made hworks => exact ⟨hworks.symm, by rw [if_pos hworks]⟩
  | refused _ hno => exact ⟨(Bool.eq_false_iff.2 hno).symm, by rw [if_neg hno]⟩
  | halfway _ hno _ _ _ => exact hno.elim

end Change

/-! ### Reading and changing -/

section

variable {σ : Type} {st : Storage σ} {I : σ → Documents → Prop}
  {fits : String → Yaml.Mapping → Bool} {keeps : Yaml.Mapping → Prop} {fallible : Prop}
  {docs docs' : Documents} {s s' : σ} {n source target : String} {m : Yaml.Mapping}

/-- Names that a storage can be asked for: those of its documents, and those that documents can be
written under. -/
def Known (fits : String → Yaml.Mapping → Bool) (docs : Documents) (n : String) : Prop :=
  docs.contains n = true ∨ ∃ m, fits n m = true

/-- **What asking for a document gives**, by the outcome and the state that is left: whether it is
there, unless the name makes no sense or anything can fail. The documents stay as they are. -/
inductive Tells (I : σ → Documents → Prop) (fits : String → Yaml.Mapping → Bool) (fallible : Prop)
    (docs : Documents) (n : String) : Except ConfigError Bool × σ → Prop
  | told {s : σ} : I s docs → Tells I fits fallible docs n (.ok (docs.contains n), s)
  | refused (e : ConfigError) {s : σ} : (Known fits docs n → fallible) → I s docs →
      Tells I fits fallible docs n (.error e, s)

/-- **What reading a document gives**: the document that there is. One that is there is never said
to be missing, and one that is missing is said to be so, with the same exceptions. -/
inductive Reads (I : σ → Documents → Prop) (fits : String → Yaml.Mapping → Bool) (fallible : Prop)
    (docs : Documents) (n : String) : Except ConfigError Document × σ → Prop
  | found {m : Yaml.Mapping} {s : σ} : docs.get? n = some m → I s docs →
      Reads I fits fallible docs n (.ok ⟨n, m⟩, s)
  | refused (e : ConfigError) {s : σ} : (e.isNotFound = true → docs.get? n = none) →
      (Known fits docs n → fallible ∨ e.isNotFound = true) → I s docs →
      Reads I fits fallible docs n (.error e, s)

/-- **A storage is backed by a map**: what a state holds is asked for, read and, one document at a
time, changed like the bindings of a map. What fits has a proper name, and what is held are data
that are kept as they are. -/
structure Backed (st : Storage σ) (I : σ → Documents → Prop) (fits : String → Yaml.Mapping → Bool)
    (keeps : Yaml.Mapping → Prop) (fallible : Prop) : Prop where
  proper : ∀ {n m}, fits n m = true → validateName n = .ok ()
  kept : ∀ {s docs n m}, I s docs → docs.get? n = some m → keeps m
  has : ∀ {s docs} n, I s docs → Tells I fits fallible docs n (st.has n s)
  read : ∀ {s docs} n, I s docs → Reads I fits fallible docs n (st.read n s)
  write : ∀ {s docs} n m, I s docs → keeps m → ∃ docs',
    (Change.write n m).Does fits fallible docs (st.write n m s).1 docs' ∧
      I (st.write n m s).2 docs'
  delete : ∀ {s docs} n, I s docs → ∃ docs',
    (Change.delete n).Does fits fallible docs (st.delete n s).1 docs' ∧ I (st.delete n s).2 docs'

variable (h : st.Backed I fits keeps fallible)

include h in
/-- **A document that is renamed** is read, written and deleted. -/
theorem Backed.does_rename (hs : I s docs) (source target : String) : ∃ docs',
    (Change.rename source target).Does fits fallible docs (st.plain.rename source target s).1
        docs' ∧ I (st.plain.rename source target s).2 docs' := by
  have hplain : st.plain.rename source target
      = st.read source >>= fun d => st.write target d.data >>= fun _ => st.delete source := rfl
  have hread := h.read source hs
  rw [hplain, bind_apply]
  generalize st.read source s = read at hread
  cases hread with
  | refused e hmissing hknown hs₁ =>
    -- the document is not there, or it cannot be read now
    refine ⟨docs, .refused e fun hworks => ?_, hs₁⟩
    obtain ⟨m, hsource, -⟩ := (Option.any_eq_true _ _).1 hworks
    refine (hknown (.inl (NameMap.contains_iff.2 ⟨m, hsource⟩))).resolve_right fun hno => ?_
    rw [hmissing hno] at hsource
    cases hsource
  | @found m s₁ hsource hs₁ =>
    have hworks : (Change.rename source target).works fits docs = fits target m := by
      rw [Change.works, hsource]
      rfl
    obtain ⟨docs₂, hdoes, hs₂⟩ := h.write target m hs₁ (h.kept hs hsource)
    simp only
    rw [bind_apply]
    rcases hwrite : st.write target m s₁ with ⟨e | ⟨⟩, s₂⟩ <;> rw [hwrite] at hdoes hs₂
    · cases hdoes with
      | refused _ hno =>
        exact ⟨docs, .refused e fun hfits => hno (hworks.symm.trans hfits), hs₂⟩
      | halfway _ _ hc _ _ => cases hc
    · cases hdoes with
      | made hfits =>
        have hfits : fits target m = true := hfits
        have hstill : (docs.insert target m).contains source = true := by
          rw [NameMap.contains, NameMap.get?_insert, hsource, ite_self]
          rfl
        obtain ⟨docs₃, hdoes, hs₃⟩ := h.delete source hs₂
        simp only
        rcases hdelete : st.delete source s₂ with ⟨e | ⟨⟩, s₃⟩ <;> rw [hdelete] at hdoes hs₃
        · cases hdoes with
          | refused _ hno => exact ⟨_, .halfway e (hno hstill) rfl hsource hfits, hs₃⟩
          | halfway _ _ hc _ _ => cases hc
        · cases hdoes with
          | made _ =>
            have hmade : (Change.rename source target).Does fits fallible docs (.ok ()) _ :=
              .made (hworks.trans hfits)
            rw [Change.made, hsource] at hmade
            exact ⟨_, hmade, hs₃⟩

include h in
/-- **Whatever is changed** of a storage that renames documents by the other operations. -/
theorem Backed.does_change (hrename : st.rename = st.plain.rename) (hs : I s docs) {c : Change}
    (hc : c.Kept keeps) :
    ∃ docs', c.Does fits fallible docs (c.on st s).1 docs' ∧ I (c.on st s).2 docs' := by
  cases c with
  | write n m => exact h.write n m hs hc
  | delete n => exact h.delete n hs
  | rename source target =>
    rw [Change.on, hrename]
    exact h.does_rename hs source target

end

/-! ### One change after the other -/

section

variable {σ : Type} {st : Storage σ} {I : σ → Documents → Prop}
  {fits : String → Yaml.Mapping → Bool} {keeps : Yaml.Mapping → Prop} {docs : Documents} {s : σ}

/-- The state after some changes have been tried, one after the other. -/
def perform (st : Storage σ) (cs : List Change) (s : σ) : σ :=
  cs.foldl (fun s c => (c.on st s).2) s

/-- **After some changes** a storage that does not fail otherwise holds what a map would, and each
of them succeeded just when it could be made. -/
theorem Backed.performs (h : st.Backed I fits keeps False) (hrename : st.rename = st.plain.rename)
    (cs : List Change) (hcs : ∀ c ∈ cs, c.Kept keeps) (hs : I s docs) :
    I (st.perform cs s) (cs.foldl (Change.tried fits) docs) ∧
      ∀ done c rest, cs = done ++ c :: rest → (c.on st (st.perform done s)).1.isOk
        = c.works fits (done.foldl (Change.tried fits) docs) := by
  induction cs generalizing s docs with
  | nil => exact ⟨hs, fun done c rest hsplit => by simp at hsplit⟩
  | cons c cs ih =>
    obtain ⟨docs', hdoes, hs'⟩ := h.does_change hrename hs (hcs c List.mem_cons_self)
    obtain ⟨hok, rfl⟩ := hdoes.of_reliable
    obtain ⟨hrest, hlater⟩ := ih (fun c' hc' => hcs c' (List.mem_cons_of_mem c hc')) hs'
    refine ⟨hrest, fun done c' rest hsplit => ?_⟩
    rcases done with _ | ⟨c₁, done⟩
    · obtain ⟨rfl, -⟩ := List.cons.inj hsplit
      exact hok
    · obtain ⟨rfl, htail⟩ := List.cons.inj hsplit
      exact hlater done c' rest htail

end

/-! ### Caches -/

section

variable {σ : Type} {st : Storage σ} {I : σ → Documents → Prop}
  {fits : String → Yaml.Mapping → Bool} {keeps : Yaml.Mapping → Prop} {fallible : Prop}
  {cell : Cell σ Cache} {docs : Documents} {s : σ}

/-- **A cache that is kept apart**: the storage under it does not see it, and leaves it alone. -/
structure Separate (st : Storage σ) (cell : Cell σ Cache) (I : σ → Documents → Prop) : Prop where
  get_set : ∀ a s, cell.get (cell.set a s) = a
  set : ∀ a {s docs}, I s docs → I (cell.set a s) docs
  read : ∀ n s, cell.get (st.read n s).2 = cell.get s
  change : ∀ (c : Change) s, cell.get (c.on st s).2 = cell.get s

/-- **A cache is coherent**: what it remembers is what there is. -/
def Coherent (cell : Cell σ Cache) (s : σ) (docs : Documents) : Prop :=
  ∀ n known, (cell.get s).get? n = some known → known = docs.get? n

/-- A state holds some documents, and a cache does not say otherwise. -/
def Remembered (I : σ → Documents → Prop) (cell : Cell σ Cache) (s : σ) (docs : Documents) : Prop :=
  I s docs ∧ Coherent cell s docs

/-- What keeps the documents and does not touch a cache leaves the cache coherent. -/
theorem gives_remembered {ε α : Type} {x : Attempt σ ε α} {P : α → Prop} (hx : x.Gives (I · docs) P)
    (hleft : ∀ s, cell.get (x s).2 = cell.get s) : x.Gives (Remembered I cell · docs) P := by
  rintro s ⟨hs, hcoherent⟩
  obtain ⟨hI, hP⟩ := hx s hs
  exact ⟨⟨hI, fun n known hn => hcoherent n known (by rwa [← hleft s])⟩, hP⟩

variable (h : st.Backed I fits keeps fallible) (hcell : st.Separate cell I)

include hcell in
/-- Forgetting some names changes nothing else. -/
theorem Separate.exists_forget (names : List String) (s : σ) : ∃ s',
    names.forM (forget cell) s = (.ok (), s') ∧ (∀ docs, I s docs → I s' docs) ∧
      ∀ n, (cell.get s').get? n = if n ∈ names then none else (cell.get s).get? n := by
  induction names generalizing s with
  | nil => exact ⟨s, rfl, fun _ hs => hs, fun n => by simp⟩
  | cons k names ih =>
    obtain ⟨s', hforget, hkeep, hget⟩ := ih (cell.set ((cell.get s).erase k) s)
    refine ⟨s', hforget, fun docs hs => hkeep docs (hcell.set _ hs), fun n => ?_⟩
    rw [hget, hcell.get_set, NameMap.get?_erase]
    by_cases hn : n = k <;> by_cases hmem : n ∈ names <;> simp [hn, hmem]

/-- What is found of a document: its data, or that it is not there. -/
inductive Finds (I : σ → Documents → Prop) (fits : String → Yaml.Mapping → Bool) (fallible : Prop)
    (docs : Documents) (n : String) : Except ConfigError (Option Yaml.Mapping) × σ → Prop
  | known {s : σ} : I s docs → Finds I fits fallible docs n (.ok (docs.get? n), s)
  | refused (e : ConfigError) {s : σ} : e.isNotFound = false → (Known fits docs n → fallible) →
      I s docs → Finds I fits fallible docs n (.error e, s)

include h in
theorem Backed.finds (hs : I s docs) (n : String) :
    Finds I fits fallible docs n (st.find n s) := by
  have hread := h.read n hs
  rw [find_apply]
  generalize st.read n s = read at hread
  cases hread with
  | @found m s₁ hn hs₁ =>
    have hknown : Finds I fits fallible docs n (.ok (docs.get? n), s₁) := .known hs₁
    rwa [hn] at hknown
  | @refused e s₁ hmissing hknown hs₁ =>
    rcases he : e.isNotFound with _ | _
    · simp only [found, he, Bool.false_eq_true, if_false]
      exact .refused e he
        (fun hn => (hknown hn).resolve_right (by rw [he]; exact Bool.false_ne_true)) hs₁
    · -- a document that is missing is no failure
      have hnone : Finds I fits fallible docs n (.ok (docs.get? n), s₁) := .known hs₁
      rw [hmissing he] at hnone
      simpa only [found, he, if_true] using hnone

include h hcell in
/-- **Looking up a document in a cache** finds what there is, and keeps the cache coherent. -/
theorem Backed.finds_lookUp (hs : Remembered I cell s docs) (n : String) :
    Finds (Remembered I cell) fits fallible docs n (lookUp st cell n s) := by
  obtain ⟨hI, hcoherent⟩ := hs
  rw [Cacheable.lookUp_apply]
  rcases hn : (cell.get s).get? n with _ | known
  · have hfind := h.finds hI n
    have hleft : cell.get (st.find n s).2 = cell.get s := by
      rw [find_apply]
      exact hcell.read n s
    simp only
    rw [bind_apply]
    generalize st.find n s = found at hfind hleft
    cases hfind with
    | refused e he hknown hs₁ =>
      refine .refused e he hknown ⟨hs₁, fun k known hk => hcoherent k known ?_⟩
      rwa [← hleft]
    | @known s₁ hs₁ =>
      refine .known ⟨hcell.set _ hs₁, fun k known hk => ?_⟩
      rw [hcell.get_set, NameMap.get?_insert] at hk
      split at hk
      · rename_i heq
        cases hk
        rw [heq]
      · exact hcoherent k known (by rwa [← hleft])
  · obtain rfl := hcoherent n known hn
    exact .known ⟨hI, hcoherent⟩

include h hcell in
/-- **Asking a cache for a document** tells whether it is there. -/
theorem Backed.tells_cached (hs : Remembered I cell s docs) (n : String) :
    Tells (Remembered I cell) fits fallible docs n ((cached st cell).has n s) := by
  have hlook := h.finds_lookUp hcell hs n
  have hhas : (cached st cell).has n s
      = (lookUp st cell n >>= fun known => pure known.isSome) s := rfl
  rw [hhas, bind_apply]
  generalize lookUp st cell n s = looked at hlook
  cases hlook with
  | known hs₁ => exact .told hs₁
  | refused e _ hknown hs₁ => exact .refused e hknown hs₁

include h hcell in
/-- **Reading through a cache** gives the document that there is. -/
theorem Backed.reads_cached (hs : Remembered I cell s docs) (n : String) :
    Reads (Remembered I cell) fits fallible docs n ((cached st cell).read n s) := by
  have hlook := h.finds_lookUp hcell hs n
  rw [Cacheable.cached_read, bind_apply]
  generalize lookUp st cell n s = looked at hlook
  cases hlook with
  | known hs₁ =>
    rcases hn : docs.get? n with _ | m
    · exact .refused _ (fun _ => hn) (fun _ => .inr rfl) hs₁
    · exact .found hn hs₁
  | refused e he hknown hs₁ =>
    refine .refused e (fun hmissing => ?_) (fun hn => .inl (hknown hn)) hs₁
    rw [he] at hmissing
    cases hmissing

include h hcell in
/-- **A change through a cache** does what it does without the cache. Of what it is about nothing is
remembered afterwards, whether it succeeds or fails, and so the cache stays coherent. -/
theorem Backed.does_cached (hrename : st.rename = st.plain.rename)
    (hs : Remembered I cell s docs) {c : Change} (hc : c.Kept keeps) :
    ∃ docs', c.Does fits fallible docs (c.on (cached st cell) s).1 docs' ∧
      Remembered I cell (c.on (cached st cell) s).2 docs' := by
  obtain ⟨s₁, hforget, hkeep, hget⟩ := hcell.exists_forget c.names s
  obtain ⟨docs', hdoes, hs₂⟩ := h.does_change hrename (hkeep docs hs.1) hc
  have hleft := hcell.change c s₁
  obtain ⟨s₃, hagain, hkeep₃, hget₃⟩ := hcell.exists_forget c.names (c.on st s₁).2
  -- the cache forgets after a failure as it does after a success
  have hall : c.on (cached st cell) s = ((c.on st s₁).1, s₃) := by
    rw [Cacheable.cached_change, forgetting, bind_apply, hforget]
    simp only
    rw [bind_apply, Attempt.recover]
    rcases hdone : c.on st s₁ with ⟨e | ⟨⟩, s₂⟩ <;> rw [hdone] at hagain <;> simp only
    · rw [bind_apply, hagain]
      rfl
    · exact hagain
  rw [hall]
  refine ⟨docs', hdoes, hkeep₃ docs' hs₂, fun n known hn => ?_⟩
  rw [hget₃] at hn
  split at hn
  · cases hn
  · rename_i hnames
    rw [hleft, hget, if_neg hnames] at hn
    rw [hdoes.get?_eq hnames]
    exact hs.2 n known hn

include h hcell in
/-- **A cache is backed by the same map** as the storage under it. -/
theorem Backed.cached (hrename : st.rename = st.plain.rename) :
    (cached st cell).Backed (Remembered I cell) fits keeps fallible where
  proper := h.proper
  kept hs hn := h.kept hs.1 hn
  has n hs := h.tells_cached hcell hs n
  read n hs := h.reads_cached hcell hs n
  write n m hs hm := h.does_cached hcell hrename (c := .write n m) hs hm
  delete n hs := h.does_cached hcell hrename (c := .delete n) hs trivial

end

/-! ### Faulty storages -/

section

variable {σ : Type} {st : Storage σ} {I : σ → Documents → Prop}
  {fits : String → Yaml.Mapping → Bool} {keeps : Yaml.Mapping → Prop} {fallible : Prop}
  {counter : Cell σ Nat} {docs docs' : Documents} {s : σ} {n : String}

theorem Change.Does.mono {c : Change} {r : Except ConfigError Unit}
    (h : c.Does fits fallible docs r docs') : c.Does fits True docs r docs' := by
  cases h with
  | made hworks => exact .made hworks
  | refused e _ => exact .refused e fun _ => trivial
  | halfway e _ hc hn hfits => exact .halfway e trivial hc hn hfits

/-- A change is counted, whether it fails then or not. -/
theorem exists_countChange (faults : Faults) (counter : Cell σ Nat) (n : String) (s : σ) :
    ∃ r, countChange faults counter n s = (r, counter.set (counter.get s + 1) s) := by
  unfold countChange
  rw [bind_apply]
  simp only [Cell.modify]
  rw [bind_apply]
  simp only [Cell.read]
  split
  · exact ⟨_, rfl⟩
  · exact ⟨_, rfl⟩

/-- **A faulty storage is backed by the same map** as the storage under it, as long as that does not
see the count of changes. -/
theorem Backed.faulty (h : st.Backed I fits keeps fallible)
    (hcounter : ∀ k {s docs}, I s docs → I (counter.set k s) docs) (faults : Faults) :
    (faulty st faults counter).Backed I fits keeps True where
  proper := h.proper
  kept := h.kept
  has {s docs} n hs := by
    have htells := h.has n hs
    change Tells I fits True docs n (st.has n s)
    generalize st.has n s = told at htells
    cases htells with
    | told hs₁ => exact .told hs₁
    | refused e _ hs₁ => exact .refused e (fun _ => trivial) hs₁
  read {s docs} n hs := by
    have hreads := h.read n hs
    change Reads I fits True docs n ((if faults.reading = some n then
      Attempt.fail (.invalidData n "simulated read failure") else st.read n) s)
    split
    · exact .refused _ (fun hmissing => by cases hmissing) (fun _ => .inl trivial) hs
    · generalize st.read n s = read at hreads
      cases hreads with
      | found hn hs₁ => exact .found hn hs₁
      | refused e hmissing _ hs₁ => exact .refused e hmissing (fun _ => .inl trivial) hs₁
  write {s docs} n m hs hm := by
    obtain ⟨r, hcount⟩ := exists_countChange faults counter n s
    change ∃ docs', (Change.write n m).Does fits True docs
      ((countChange faults counter n >>= fun _ => st.write n m) s).1 docs' ∧
        I ((countChange faults counter n >>= fun _ => st.write n m) s).2 docs'
    rw [bind_apply, hcount]
    rcases r with e | ⟨⟩
    · exact ⟨docs, .refused e fun _ => trivial, hcounter _ hs⟩
    · obtain ⟨docs', hdoes, hs'⟩ := h.write n m (hcounter _ hs) hm
      exact ⟨docs', hdoes.mono, hs'⟩
  delete {s docs} n hs := by
    obtain ⟨r, hcount⟩ := exists_countChange faults counter n s
    change ∃ docs', (Change.delete n).Does fits True docs
      ((countChange faults counter n >>= fun _ => st.delete n) s).1 docs' ∧
        I ((countChange faults counter n >>= fun _ => st.delete n) s).2 docs'
    rw [bind_apply, hcount]
    rcases r with e | ⟨⟩
    · exact ⟨docs, .refused e fun _ => trivial, hcounter _ hs⟩
    · obtain ⟨docs', hdoes, hs'⟩ := h.delete n (hcounter _ hs)
      exact ⟨docs', hdoes.mono, hs'⟩

end

/-! ### Documents in memory -/

section

variable {σ : Type} (cell : Cell σ Documents) (hcell : ∀ docs s, cell.get (cell.set docs s) = docs)

include hcell in
/-- The documents in a cell are a map that takes all data under all proper names. -/
theorem backed_memory : (memory cell).Backed (fun s docs => cell.get s = docs)
    (fun n _ => isProper n) (fun _ => True) False where
  proper := isProper_iff.1
  kept _ _ := trivial
  has {s docs} n hs := by
    subst hs
    exact .told rfl
  read {s docs} n hs := by
    subst hs
    have hread : (memory cell).read n s = (readFrom (cell.get s) n, s) := rfl
    rw [hread, readFrom]
    rcases hn : (cell.get s).get? n with _ | m
    · exact .refused _ (fun _ => hn) (fun _ => .inr rfl) rfl
    · exact .found hn rfl
  write {s docs} n m hs _ := by
    subst hs
    rcases hn : validateName n with e | ⟨⟩
    · rw [write_memory_error hn]
      refine ⟨_, .refused e fun hworks => ?_, rfl⟩
      rw [isProper_iff.1 hworks] at hn
      cases hn
    · rw [write_memory hn]
      exact ⟨_, .made (isProper_iff.2 hn), hcell _ s⟩
  delete {s docs} n hs := by
    subst hs
    rcases hn : (cell.get s).contains n with _ | _
    · rw [delete_memory_error hn]
      refine ⟨_, .refused _ fun hworks => ?_, rfl⟩
      rw [Change.works, hn] at hworks
      cases hworks
    · rw [delete_memory hn]
      exact ⟨_, .made hn, hcell _ s⟩

end

end Storage

end SiteConfig
