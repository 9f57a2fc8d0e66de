import Mathlib
import SiteConfig.Proofs.Keeping
import SiteConfig.Proofs.SingleDocument

/-!
# Why a single document is refused

Whether a single document can be imported is decided by what is found in the active storage, and by
nothing else: there is one verdict for all storages in which the same is found
(`SiteConfig.SingleImport.verdict`), and a prepared import is what it says
(`SiteConfig.Storage.Looks.yields_prepare`).

So the backends can be compared by comparing verdicts. Memory and a database refuse a document with
a message of their own each time. A directory does the same, with one exception: it complains itself
about a name that it cannot be asked for, and the complaint is passed on as it is. Such a document
is refused by the others too, and with that all three accept the same documents, as long as no name
in the directory begins with a dot; for a document with such a name is not compared with what is
there (`SiteConfig.SingleImport.refused_with_message`).
-/

namespace SiteConfig

open Attempt Yaml

/-! ### The verdict -/

namespace SingleTarget

/-- The name that some data go to, unless they need an identifier and have none. -/
def named : SingleTarget → Mapping → Except ImportError String
  | .document n, _ => .ok n
  | .entity t _, data =>
    match SingleImport.textOf? data t.idKey with
    | some id => .ok (t.documentName id)
    | none =>
      .error (SingleImport.refusal s!"Missing ID key \"{t.idKey}\" for this {t.label} import.")

theorem named_entity (t : EntityType) (chosen : Option String) (data : Mapping) :
    (entity t chosen).named data = match SingleImport.textOf? data t.idKey with
      | some id => .ok (t.documentName id)
      | none =>
        .error (SingleImport.refusal s!"Missing ID key \"{t.idKey}\" for this {t.label} import.") :=
  rfl

end SingleTarget

namespace SingleImport

open Storage

/-- Whether a document of some has a `uuid`. -/
def hasUuid (docs : Documents) (uuid n : String) : Bool :=
  (docs.get? n).any fun m => decide ((⟨n, m⟩ : Document).uuid? = some uuid)

/-- Whether there is something to replace under a name, where nothing stands in the way of it. -/
def replaced (docs : Documents) (shows : String → Bool) (target : SingleTarget) (data : Mapping)
    (n : String) : Except ImportError Bool :=
  match target with
  | .document _ => .ok (docs.contains n)
  | .entity t _ =>
    match docs.get? n with
    | some m => (checkReplaced (textOf? data Document.uuidKey) ⟨n, m⟩).map fun _ => true
    | none =>
      match textOf? data Document.uuidKey with
      | some uuid =>
        if ((namesFrom docs s!"{t.configPrefix}.").filter shows).any (hasUuid docs uuid) then
          .error (refusal
            "An entity with this UUID already exists but the machine name does not match.")
        else .ok false
      | none => .ok false

/-- The name that some data go to, the data as they are then, and whether they replace others. -/
def located (docs : Documents) (admits : String → Except ConfigError Unit) (shows : String → Bool)
    (target : SingleTarget) (m : Mapping) : Except ImportError (String × Mapping × Bool) := do
  let n ← target.named (target.pasted m)
  (admits n).mapError .storage
  let there ← replaced docs shows target (target.pasted m) n
  return (n, target.pasted m, there)

/-- What changes among the documents that are shown when one of them is replaced. -/
def changes (docs : Documents) (shows : String → Bool) (n : String) (data : Mapping) : Comparison :=
  .between (snapshot [] ((docs.filter fun n _ => shows n).insert n data))
    (snapshot [] (docs.filter fun n _ => shows n))

/-- **The verdict on a single document**, by what is found in a storage: where it goes, with which
data, and whether it replaces another one. -/
def verdict (docs : Documents) (admits : String → Except ConfigError Unit) (shows : String → Bool)
    (target : SingleTarget) (text : String) : Except ImportError (String × Mapping × Bool) := do
  let m ← readData text
  let x ← located docs admits shows target m
  (validateName x.1).mapError fun e => refusal e.message
  if (changes docs shows x.1 x.2.1).changelist.hasChanges then return x
  else throw (refusal "There are no changes to import.")

/-- The import that is prepared by a verdict. -/
def ofVerdict {σ : Type} (active : Storage σ) (docs : Documents) (shows : String → Bool)
    (x : String × Mapping × Bool) : SingleImport σ :=
  ⟨x.1, x.2.2, compareWith active x.1 x.2.1, changes docs shows x.1 x.2.1⟩

/-! ### Refusals -/

section Verdict

variable {docs : Documents} {admits : String → Except ConfigError Unit} {shows : String → Bool}
  {target : SingleTarget} {text n : String} {m data : Mapping} {e : ImportError} {c : ConfigError}

/-- The error is one message. -/
def IsRefusal (e : ImportError) : Prop := ∃ message, e = .validation [message]

theorem isRefusal_refusal (message : String) : IsRefusal (refusal message) := ⟨message, rfl⟩

theorem isRefusal_of_readData (h : readData text = .error e) : IsRefusal e := by
  unfold readData at h
  split at h <;> cases h <;> exact isRefusal_refusal _

theorem isRefusal_of_named (h : target.named data = .error e) : IsRefusal e := by
  rcases target with n | ⟨t, chosen⟩
  · cases h
  · rw [SingleTarget.named_entity] at h
    split at h <;> cases h
    exact isRefusal_refusal _

theorem isRefusal_of_checkReplaced {uuid : Option String} {d : Document}
    (h : checkReplaced uuid d = .error e) : IsRefusal e := by
  unfold checkReplaced at h
  split at h
  · cases h
    exact isRefusal_refusal _
  · split at h <;> cases h
    exact isRefusal_refusal _

theorem isRefusal_of_replaced (h : replaced docs shows target data n = .error e) :
    IsRefusal e := by
  rcases target with k | ⟨t, chosen⟩
  · cases h
  unfold replaced at h
  rcases hm : docs.get? n with _ | m <;> simp only [hm] at h
  · split at h
    · split at h <;> cases h
      exact isRefusal_refusal _
    · cases h
  · rcases hchecked : checkReplaced (textOf? data Document.uuidKey) ⟨n, m⟩ with e' | ⟨⟩ <;>
      rw [hchecked] at h <;> cases h
    exact isRefusal_of_checkReplaced hchecked

/-- The name that a text would go to. -/
def nameFor (target : SingleTarget) (text : String) : Except ImportError String :=
  readData text >>= fun m => target.named (target.pasted m)

/-- **A document that is refused** is refused with a message, unless its name is not admitted; then
the reason is passed on. -/
theorem eq_of_verdict_error (h : verdict docs admits shows target text = .error e) :
    IsRefusal e ∨ ∃ n c, nameFor target text = .ok n ∧ admits n = .error c ∧ e = .storage c := by
  obtain h | ⟨m, hm, h⟩ := except_bind_eq_error_iff.1 h
  · exact .inl (isRefusal_of_readData h)
  obtain h | ⟨x, -, h⟩ := except_bind_eq_error_iff.1 h
  · -- there is no place for the document
    obtain h | ⟨n, hn, h⟩ := except_bind_eq_error_iff.1 h
    · exact .inl (isRefusal_of_named h)
    obtain h | ⟨⟨⟩, -, h⟩ := except_bind_eq_error_iff.1 h
    · obtain ⟨c, hc, rfl⟩ := except_mapError_eq_error_iff.1 h
      exact .inr ⟨n, c, except_bind_eq_ok_iff.2 ⟨m, hm, hn⟩, hc, rfl⟩
    obtain h | ⟨there, -, h⟩ := except_bind_eq_error_iff.1 h
    · exact .inl (isRefusal_of_replaced h)
    · cases h
  left
  obtain h | ⟨⟨⟩, -, h⟩ := except_bind_eq_error_iff.1 h
  · obtain ⟨c, -, rfl⟩ := except_mapError_eq_error_iff.1 h
    exact isRefusal_refusal _
  · split at h <;> cases h
    exact isRefusal_refusal _

/-- A name that is not admitted is refused for the reason that is given. -/
theorem verdict_of_not_admitted (hn : nameFor target text = .ok n) (hadmits : admits n = .error c) :
    verdict docs admits shows target text = .error (.storage c) := by
  obtain ⟨m, hm, hn⟩ := except_bind_eq_ok_iff.1 hn
  refine except_bind_eq_error_iff.2 (.inr ⟨m, hm, except_bind_eq_error_iff.2 (.inl ?_)⟩)
  refine except_bind_eq_error_iff.2 (.inr ⟨n, hn, except_bind_eq_error_iff.2 (.inl ?_)⟩)
  exact except_mapError_eq_error_iff.2 ⟨c, hadmits, rfl⟩

/-- **A document that is accepted** has nothing that speaks against it. -/
theorem verdict_eq_ok_iff {x : String × Mapping × Bool} :
    verdict docs admits shows target text = .ok x ↔
      ∃ m n there, readData text = .ok m ∧ target.named (target.pasted m) = .ok n ∧
        admits n = .ok () ∧ replaced docs shows target (target.pasted m) n = .ok there ∧
        validateName n = .ok () ∧
        (changes docs shows n (target.pasted m)).changelist.hasChanges = true ∧
        x = (n, target.pasted m, there) := by
  constructor
  · intro h
    obtain ⟨m, hm, h⟩ := except_bind_eq_ok_iff.1 h
    obtain ⟨y, hy, h⟩ := except_bind_eq_ok_iff.1 h
    obtain ⟨n, hn, hy⟩ := except_bind_eq_ok_iff.1 hy
    obtain ⟨⟨⟩, hadmits, hy⟩ := except_bind_eq_ok_iff.1 hy
    obtain ⟨there, hthere, hy⟩ := except_bind_eq_ok_iff.1 hy
    cases hy
    obtain ⟨⟨⟩, hname, h⟩ := except_bind_eq_ok_iff.1 h
    split at h
    · rename_i hchanges
      cases h
      exact ⟨m, n, there, hm, hn, except_mapError_eq_ok_iff.1 hadmits, hthere,
        except_mapError_eq_ok_iff.1 hname, hchanges, rfl⟩
    · cases h
  · rintro ⟨m, n, there, hm, hn, hadmits, hthere, hname, hchanges, rfl⟩
    refine except_bind_eq_ok_iff.2 ⟨m, hm, except_bind_eq_ok_iff.2 ⟨(n, target.pasted m, there), ?_,
      except_bind_eq_ok_iff.2 ⟨(), except_mapError_eq_ok_iff.2 hname, if_pos hchanges⟩⟩⟩
    exact except_bind_eq_ok_iff.2 ⟨n, hn, except_bind_eq_ok_iff.2 ⟨(),
      except_mapError_eq_ok_iff.2 hadmits, except_bind_eq_ok_iff.2 ⟨there, hthere, rfl⟩⟩⟩

/-- **Names that are refused anyway** need not be admitted. -/
theorem toOption_verdict (hadmits : ∀ n, validateName n = .ok () → admits n = .ok ()) :
    (verdict docs admits shows target text).toOption
      = (verdict docs (fun _ => .ok ()) shows target text).toOption := by
  ext x
  have hok : verdict docs admits shows target text = .ok x ↔
      verdict docs (fun _ => .ok ()) shows target text = .ok x := by
    simp only [verdict_eq_ok_iff]
    constructor
    · rintro ⟨m, n, there, hm, hn, -, hthere, hrest⟩
      exact ⟨m, n, there, hm, hn, trivial, hthere, hrest⟩
    · rintro ⟨m, n, there, hm, hn, -, hthere, hname, hrest⟩
      exact ⟨m, n, there, hm, hn, hadmits n hname, hthere, hname, hrest⟩
  exact ⟨fun h => congrArg Except.toOption (hok.1 (eq_ok_of_toOption h)),
    fun h => congrArg Except.toOption (hok.2 (eq_ok_of_toOption h))⟩

/-- Where all documents are shown, all are compared. -/
theorem changes_of_shown (hshows : ∀ n, docs.contains n = true → shows n = true) :
    changes docs shows = changes docs fun _ => true := by
  have hfilter : ∀ p : String → Bool, (∀ n, docs.contains n = true → p n = true) →
      (docs.filter fun n _ => p n) = docs := by
    intro p hp
    refine NameMap.ext_get? fun n => ?_
    rw [NameMap.get?_filter_key]
    split
    · rfl
    · rename_i hno
      rw [eq_comm, ← NameMap.contains_eq_false_iff, Bool.eq_false_iff]
      exact fun hn => hno (hp n hn)
  unfold changes
  rw [hfilter shows hshows, hfilter (fun _ => true) fun _ _ => rfl]

/-- **Where all documents are shown**, nothing is overlooked. -/
theorem verdict_of_shown (hshows : ∀ n, docs.contains n = true → shows n = true) :
    verdict docs admits shows target text = verdict docs admits (fun _ => true) target text := by
  have hlist : ∀ start, (namesFrom docs start).filter shows = namesFrom docs start := fun start =>
    List.filter_eq_self.2 fun n hn => hshows n (mem_namesFrom_iff.1 hn).1
  have hreplaced : replaced docs shows = replaced docs fun _ => true := by
    funext target data n
    unfold replaced
    simp only [hlist, filter_true]
  unfold verdict located
  rw [hreplaced, changes_of_shown hshows]

end Verdict

end SingleImport

/-! ### Preparing follows the verdict -/

namespace Storage

open SingleImport

variable {σ τ : Type} {active : Storage σ} {view : σ → τ} {v : τ} {s : σ} {docs : Documents}
  {admits : String → Except ConfigError Unit} {shows : String → Bool}

/-- **A storage presents some documents** in all states that look in one way: it lists their names,
and all of them can be read. -/
structure Presents (st : Storage σ) (view : σ → τ) (v : τ) (docs : Documents) : Prop where
  list : ∀ {s}, view s = v → (st.list "").Yields view s (.ok docs.keys) v
  read : ∀ {s}, view s = v → ∀ n m, docs.get? n = some m → (st.read n).Yields view s (.ok ⟨n, m⟩) v
  readMany : ∀ {s}, view s = v →
    (st.readMany docs.keys).Yields view s (.ok (documentsOf docs docs.keys)) v

section Presents

variable (h : active.Presents view v docs)

include h in
/-- With a document replaced a storage lists its names, and the name of that document. -/
theorem Presents.list_overlay (n : String) (m : Mapping) (hs : view s = v) :
    ((overlay active (.constant (NameMap.empty.insert n m))).list "").Yields view s
      (.ok (docs.insert n m).keys) v := by
  rw [← insertName_keys]
  exact (h.list hs).bind fun s₁ h₁ =>
    (yields_read _ h₁).bind fun s₂ h₂ => yields_pure _ h₂

include h in
/-- With a document replaced a storage can be read as if the document had been written. -/
theorem Presents.readMany_overlay (n : String) (m : Mapping) (hs : view s = v) :
    ((overlay active (.constant (NameMap.empty.insert n m))).readMany (docs.insert n m).keys).Yields
      view s (.ok (documentsOf (docs.insert n m) (docs.insert n m).keys)) v := by
  refine yields_readEach (fun k m' s₁ hs₁ hk => ?_) (fun k => NameMap.mem_keys_iff.1) hs
  rw [NameMap.get?_insert] at hk
  by_cases hkn : k = n
  · rw [if_pos hkn] at hk
    cases hk
    subst hkn
    exact ⟨s₁, read_overlay_self k m s₁, hs₁⟩
  · rw [if_neg hkn] at hk
    obtain ⟨s₂, hread, hs₂⟩ := h.read hs₁ k m' hk
    exact ⟨s₂, (read_overlay_of_ne hkn m s₁).trans hread, hs₂⟩

include h in
/-- The storage is compared with itself, with one document replaced. -/
theorem Presents.yields_refresh (n : String) (data : Mapping) (hs : view s = v) :
    (compareWith active n data).refresh.Yields (beside view) (.initial, s) (.ok ())
      (.between (snapshot [] (docs.insert n data)) (snapshot [] docs), v) := by
  refine Comparer.yields_refresh (fun _ hs => ?_) (fun _ hs => ?_) hs _
  · exact Snapshot.yields_load [] (fun _ hs => h.list_overlay n data hs)
      (fun _ hs => h.readMany_overlay n data hs) hs
  · exact Snapshot.yields_load [] (fun _ hs => h.list hs) (fun _ hs => h.readMany hs) hs

end Presents

section Looks

variable (h : active.Looks view v docs admits shows)

include h in
/-- What is shown is presented. -/
theorem Looks.presents : active.Presents view v (docs.filter fun n _ => shows n) where
  list hs := by
    rw [NameMap.keys_filter_key, ← namesFrom_empty]
    exact h.list hs ""
  read hs n m hm := by
    rw [NameMap.get?_filter_key] at hm
    split at hm
    · exact h.read hs n m hm
    · cases hm
  readMany {s} hs := by
    have hsame : documentsOf (docs.filter fun n _ => shows n) (docs.filter fun n _ => shows n).keys
        = documentsOf docs (docs.filter fun n _ => shows n).keys := by
      refine List.filterMap_congr fun n hn => ?_
      rw [NameMap.keys_filter_key, List.mem_filter] at hn
      rw [NameMap.get?_filter_key, if_pos hn.2]
    rw [hsame]
    refine h.readMany hs _ fun n hn => ?_
    rw [NameMap.keys_filter_key, List.mem_filter, NameMap.mem_keys_iff] at hn
    exact hn.1

include h in
theorem Looks.yields_checkUnused (hs : view s = v) (uuid : String) (names : List String)
    (hnames : ∀ n ∈ names, docs.contains n = true) :
    (checkUnused active uuid names).Yields view s
      (if names.any (hasUuid docs uuid) then .error (refusal
          "An entity with this UUID already exists but the machine name does not match.")
        else .ok ()) v := by
  induction names generalizing s with
  | nil => exact yields_pure _ hs
  | cons n names ih =>
    obtain ⟨m, hm⟩ := NameMap.contains_iff.1 (hnames n List.mem_cons_self)
    refine (h.read hs n m hm).mapError.bind fun s₁ hs₁ => ?_
    have hhas : hasUuid docs uuid n = decide ((⟨n, m⟩ : Document).uuid? = some uuid) := by
      rw [hasUuid, hm]
      rfl
    rw [List.any_cons, hhas]
    by_cases hu : (⟨n, m⟩ : Document).uuid? = some uuid
    · simp only [hu, if_true, decide_true, Bool.true_or]
      exact yields_fail _ hs₁
    · simp only [hu, if_false, decide_false, Bool.false_or]
      exact ih hs₁ fun k hk => hnames k (List.mem_cons_of_mem n hk)

include h in
/-- Whether a document of an entity type replaces another one is found out by reading that one, or
else by reading those that it could be confused with. -/
theorem Looks.yields_replaced (hs : view s = v) (t : EntityType) (chosen : Option String)
    (data : Mapping) (n : String) :
    (if docs.contains n = true then do
        let existing ← (active.read n).mapError .storage
        Attempt.ofExcept (checkReplaced (textOf? data Document.uuidKey) existing)
        return (n, true)
      else
        match textOf? data Document.uuidKey with
        | some uuid => do
          let others ← (active.list s!"{t.configPrefix}.").mapError .storage
          checkUnused active uuid others
          return (n, false)
        | none => pure (n, false) : Attempt σ ImportError (String × Bool)).Yields view s
      (replaced docs shows (.entity t chosen) data n >>= fun there => .ok (n, there)) v := by
  rcases hm : docs.get? n with _ | m
  · -- a new document is compared with those that are listed under its prefix
    have hno : ¬docs.contains n = true := by
      rw [NameMap.contains, hm]
      exact Bool.false_ne_true
    rw [if_neg hno]
    simp only [replaced, hm]
    rcases textOf? data Document.uuidKey with _ | uuid
    · exact yields_pure _ hs
    · refine (h.list hs _).mapError.bind fun s₁ hs₁ => ?_
      have hunused := (h.yields_checkUnused hs₁ uuid
        ((namesFrom docs s!"{t.configPrefix}.").filter shows) fun n hn =>
          (mem_namesFrom_iff.1 (List.mem_filter.1 hn).1).1).bind_except
            (f := fun _ => pure (n, false)) fun _ s₂ hs₂ => yields_pure (n, false) hs₂
      simp only
      split at hunused
      · rename_i hany
        rwa [if_pos hany]
      · rename_i hany
        rwa [if_neg hany]
  · -- an old one is compared with what it replaces
    rw [if_pos (NameMap.contains_iff.2 ⟨m, hm⟩)]
    simp only [replaced, hm]
    refine (h.read hs n m hm).mapError.bind fun s₁ hs₁ => ?_
    have hchecked : (Attempt.ofExcept (checkReplaced (textOf? data Document.uuidKey) ⟨n, m⟩)).Yields
        view s₁ (checkReplaced (textOf? data Document.uuidKey) ⟨n, m⟩) v := yields_ofExcept _ hs₁
    have hcheck := hchecked.bind_except (f := fun _ => pure (n, true)) fun _ s₂ hs₂ =>
      yields_pure (n, true) hs₂
    rcases hresult : checkReplaced (textOf? data Document.uuidKey) ⟨n, m⟩ with e | ⟨⟩ <;>
      rw [hresult] at hcheck <;> exact hcheck

include h in
theorem Looks.yields_checkEntity (hs : view s = v) (t : EntityType) (chosen : Option String)
    (data : Mapping) :
    (checkEntity active t data).Yields view s (do
      let n ← (SingleTarget.entity t chosen).named data
      (admits n).mapError .storage
      let there ← replaced docs shows (.entity t chosen) data n
      return (n, there)) v := by
  unfold checkEntity
  rw [SingleTarget.named_entity t chosen]
  rcases textOf? data t.idKey with _ | id
  · exact yields_fail _ hs
  have hhas := (h.has hs (t.documentName id)).mapError_except (f := ImportError.storage)
  simp only
  rcases hadmits : admits (t.documentName id) with e | ⟨⟩ <;> rw [hadmits] at hhas
  · simp only [bind, Except.bind, hadmits]
    exact hhas.bind_error
  · simp only [bind, Except.bind, hadmits]
    exact hhas.bind fun s₁ hs₁ => h.yields_replaced hs₁ t chosen data (t.documentName id)

include h in
/-- Where a document goes is found out without changing anything. -/
theorem Looks.yields_locate (hs : view s = v) (target : SingleTarget) (m : Mapping) :
    (locate active target m).Yields view s (located docs admits shows target m) v := by
  rcases target with n | ⟨t, chosen⟩
  · have hhas := (h.has hs n).mapError_except (f := ImportError.storage)
    have hlocated : located docs admits shows (.document n) m
        = (admits n).mapError .storage >>= fun _ => .ok (n, m, docs.contains n) := rfl
    rw [hlocated]
    rcases hadmits : admits n with e | ⟨⟩ <;> rw [hadmits] at hhas
    · exact hhas.bind_error
    · exact hhas.bind fun s₁ hs₁ => yields_pure _ hs₁
  · have hcheck := (h.yields_checkEntity hs t chosen
      ((SingleTarget.entity t chosen).pasted m)).bind_except
        (g := fun x => .ok (x.1, (SingleTarget.entity t chosen).pasted m, x.2))
        fun x s₁ hs₁ => yields_pure _ hs₁
    simp only [bind_assoc, pure_bind] at hcheck
    unfold locate
    simp only [withChosenId_eq]
    exact hcheck

include h in
/-- **Preparing an import** comes to what the verdict says. -/
theorem Looks.yields_prepare (hs : view s = v) (target : SingleTarget) (text : String) :
    (prepare active target text).Yields view s
      ((verdict docs admits shows target text).map (ofVerdict active docs shows)) v := by
  unfold prepare verdict
  rcases readData text with e | m
  · exact yields_fail _ hs
  have hlocate := h.yields_locate hs target m
  show (locate active target m >>= _).Yields view s
    ((located docs admits shows target m >>= _).map (ofVerdict active docs shows)) v
  generalize located docs admits shows target m = r at hlocate
  rcases r with e | ⟨n, data, there⟩
  · exact hlocate.bind_error
  refine hlocate.bind fun s₁ hs₁ => ?_
  show (Attempt.ofExcept ((validateName n).mapError fun e => refusal e.message) >>= _).Yields
    view s₁ (((validateName n).mapError (fun e => refusal e.message) >>= _).map
      (ofVerdict active docs shows)) v
  rcases validateName n with e | ⟨⟩
  · exact yields_fail _ hs₁
  refine Yields.bind (a := ()) (yields_ofExcept _ hs₁) fun s₂ hs₂ => ?_
  -- the storage is compared with itself, as far as its documents are shown
  obtain ⟨⟨c, s₃⟩, hrefresh, hview⟩ := h.presents.yields_refresh n data hs₂
  obtain ⟨rfl, hs₃⟩ := beside_eq_iff.1 hview
  refine Yields.bind (a := changes docs shows n data) ⟨s₃, by simp only [hrefresh]; rfl, hs₃⟩
    fun s₄ hs₄ => ?_
  show (if (changes docs shows n data).changelist.hasChanges = true then _ else _ :
      Attempt σ ImportError (SingleImport σ)).Yields view s₄
    ((if (changes docs shows n data).changelist.hasChanges = true then _ else _ :
      Except ImportError _).map (ofVerdict active docs shows)) v
  by_cases hchanges : (changes docs shows n data).changelist.hasChanges = true
  · rw [if_pos hchanges, if_pos hchanges]
    exact yields_pure _ hs₄
  · rw [if_neg hchanges, if_neg hchanges]
    exact yields_fail _ hs₄

end Looks

/-- **What is prepared**: what the verdict says, whatever state looks that way. -/
theorem Looks.prepare_eq (h : active.Looks view v docs admits shows) (hs : view s = v)
    (target : SingleTarget) (text : String) : (prepare active target text s).1
      = (verdict docs admits shows target text).map (ofVerdict active docs shows) := by
  obtain ⟨s', hprepare, -⟩ := h.yields_prepare hs target text
  rw [hprepare]

end Storage

/-! ### Backends compared -/

namespace SingleImport

open Storage

/-- A prepared import, but for the storages that are compared. -/
def gist {σ : Type} (p : SingleImport σ) : String × Bool × Comparison :=
  (p.name, p.replaces, p.comparison)

theorem map_gist {σ : Type} {active : Storage σ} {docs : Documents} {shows : String → Bool}
    (r : Except ImportError (String × Mapping × Bool)) :
    (r.map (ofVerdict active docs shows)).map gist
      = r.map fun x => (x.1, x.2.2, changes docs shows x.1 x.2.1) := by
  rcases r with e | x <;> rfl

theorem toOption_map_gist {σ : Type} {active : Storage σ} {docs : Documents}
    {shows : String → Bool} (r : Except ImportError (String × Mapping × Bool)) :
    (r.map (ofVerdict active docs shows)).toOption.map gist
      = r.toOption.map fun x => (x.1, x.2.2, changes docs shows x.1 x.2.1) := by
  rcases r with e | x <;> rfl

/-- **A document is refused with a message**, whatever it is, wherever it goes. There are three
storages of which all documents can be read. From memory and from a database there is a single
message of why it is refused. So it is from a directory, unless that cannot be asked for the name
of the document; then its complaint is passed on, and only then. A database and memory with the same
documents come to the same, errors included; a directory with the same documents accepts what they
accept, if no document in it has a name that begins with a dot. -/
theorem refused_with_message {σ : Type} (held : Cell σ Documents) (place : String)
    (texts : Cell σ Texts) (d : Directory) (files : Cell σ FileTree) {s : σ}
    (htexts : Storage.Legible (texts.get s)) (htree : (files.get s).WellFormed) (hd : d.path ≠ "")
    (hfiles : d.Legible (files.get s)) (target : SingleTarget) (text : String) :
    (∀ e, (prepare (memory held) target text s).1 = .error e → IsRefusal e) ∧
    (∀ e, (prepare (database place texts) target text s).1 = .error e → IsRefusal e) ∧
    (∀ e, (prepare (directory d files) target text s).1 = .error e → IsRefusal e ∨
      ∃ n c, nameFor target text = .ok n ∧ Directory.checkEntry n = .error c ∧ e = .storage c) ∧
    (∀ n c, nameFor target text = .ok n → Directory.checkEntry n = .error c →
      (prepare (directory d files) target text s).1 = .error (.storage c)) ∧
    (held.get s = textDocuments (texts.get s) →
      (prepare (database place texts) target text s).1.map gist
        = (prepare (memory held) target text s).1.map gist) ∧
    (held.get s = d.documents (files.get s) →
      (∀ n, (held.get s).contains n = true → beginsWith "." n = false) →
      (prepare (directory d files) target text s).1.toOption.map gist
        = (prepare (memory held) target text s).1.toOption.map gist) := by
  have hmemory := (looks_memory held s).prepare_eq rfl target text
  have hdatabase := (looks_database place texts htexts).prepare_eq rfl target text
  have hdirectory := (Directory.looks files htree hd hfiles).prepare_eq rfl target text
  rw [hmemory, hdatabase, hdirectory]
  refine ⟨fun e he => ?_, fun e he => ?_, fun e he => ?_, fun n c hn hc => ?_, fun hsame => ?_,
    fun hsame hdot => ?_⟩
  · obtain h | ⟨n, c, -, hc, -⟩ := eq_of_verdict_error (except_map_eq_error_iff.1 he)
    · exact h
    · cases hc
  · obtain h | ⟨n, c, -, hc, -⟩ := eq_of_verdict_error (except_map_eq_error_iff.1 he)
    · exact h
    · cases hc
  · exact eq_of_verdict_error (except_map_eq_error_iff.1 he)
  · rw [verdict_of_not_admitted hn hc]
    rfl
  · rw [map_gist, map_gist, hsame]
  · rw [hsame] at hdot ⊢
    have hshows : ∀ n, (d.documents (files.get s)).contains n = true →
        (!beginsWith "." n) = true := fun n hn => by rw [hdot n hn]; rfl
    rw [toOption_map_gist, toOption_map_gist,
      toOption_verdict fun n => Directory.checkEntry_of_validateName, verdict_of_shown hshows,
      changes_of_shown hshows]

/-! ### A page in three places -/

/-- All texts of a list can be read. -/
theorem legible_of_keys {texts : Texts} (h : ∀ n ∈ texts.keys, (readText texts n).isOk = true) :
    Storage.Legible texts := by
  intro n hn
  have hok := h n (NameMap.mem_keys_iff.2 (NameMap.contains_iff.1 hn))
  rcases hread : readText texts n with e | ⟨k, m⟩ <;> rw [hread] at hok
  · cases hok
  · obtain rfl : k = n := Records.name_of_readText hread
    exact ⟨m, rfl⟩

/-- The names of the files of a tree, wherever they are. -/
def fileNames (t : FileTree) : List String :=
  t.nodes.filterMap fun e => match e.2 with
    | .file _ => e.1.getLast?
    | .directory => none

/-- All files of a tree can be read as documents of a directory. -/
theorem legible_of_files {d : Directory} {t : FileTree} (h : ∀ x ∈ fileNames t,
    (d.read t (x.dropEnd Directory.suffix.length).toString).isOk = true) : d.Legible t := by
  intro n c hc _
  obtain ⟨p, hmem⟩ := hc.exists_mem_nodes
  have hok := h (Directory.fileName n) (List.mem_filterMap.2 ⟨_, hmem, List.getLast?_concat⟩)
  rw [Directory.dropEnd_fileName] at hok
  rcases hread : d.read t n with e | ⟨k, m⟩ <;> rw [hread] at hok
  · cases hok
  · obtain rfl : k = n := Directory.name_of_read hread
    exact ⟨m, rfl⟩

/-- The same page in memory, in a database and in a directory. -/
def shelves : Documents × Texts × FileTree :=
  (.ofList [("blog.home", [(.string "title", .string "welcome")])],
    .ofList [("blog.home", "title: welcome\n")],
    ⟨[(["config"], .directory), (["config", "blog.home.yml"], .file (.text "title: welcome\n"))]⟩)

theorem refused_with_message_page :
    (Storage.Legible shelves.2.1 ∧ shelves.2.2.WellFormed ∧ Directory.config.path ≠ "" ∧
      Directory.config.Legible shelves.2.2) ∧
    (prepare (database "site" (Cell.second.within .first)) (.document "blog.home")
        "title: hello\n" shelves).1.map gist
      = (prepare (memory .first) (.document "blog.home") "title: hello\n" shelves).1.map gist ∧
    (prepare (directory Directory.config (Cell.second.within .second)) (.document "blog.home")
        "title: hello\n" shelves).1.toOption.map gist
      = (prepare (memory .first) (.document "blog.home") "title: hello\n" shelves).1.toOption.map
        gist ∧
    (prepare (memory .first) (.document "blog.home") "title: hello\n" shelves).1.isOk = true ∧
    (prepare (memory .first) (.document "home") "title: hello\n" shelves).1.isOk = false ∧
    ∀ e, (prepare (memory .first) (.document "home") "title: hello\n" shelves).1 = .error e →
      IsRefusal e := by
  have htexts : Storage.Legible shelves.2.1 := legible_of_keys (by decide +kernel)
  have htree : shelves.2.2.WellFormed := by decide +kernel
  have hfiles : Directory.config.Legible shelves.2.2 := legible_of_files (by decide +kernel)
  have hdatabase : shelves.1 = textDocuments shelves.2.1 :=
    NameMap.ext_entries (by decide +kernel)
  have hdirectory : shelves.1 = Directory.config.documents shelves.2.2 :=
    NameMap.ext_entries (by decide +kernel)
  have hdot : ∀ n, shelves.1.contains n = true → beginsWith "." n = false := by
    have hkeys : ∀ n ∈ shelves.1.keys, beginsWith "." n = false := by decide +kernel
    exact fun n hn => hkeys n (NameMap.mem_keys_iff.2 (NameMap.contains_iff.1 hn))
  have hall := fun n => refused_with_message (s := shelves) .first "site"
    (Cell.second.within .first) Directory.config (Cell.second.within .second) htexts htree
    (by decide) hfiles (.document n) "title: hello\n"
  obtain ⟨-, -, -, -, hsame, hagree⟩ := hall "blog.home"
  exact ⟨⟨htexts, htree, by decide, hfiles⟩, hsame hdatabase, hagree hdirectory hdot,
    by decide +kernel, by decide +kernel, (hall "home").1⟩

/-- **A document is not always refused with a message**: not every name can a directory be asked
for. -/
theorem not_always_with_message :
    ¬∀ (n text : String) (e : ImportError), (prepare (directory Directory.config
      Directory.treeCell) (.document n) text Directory.bare).1 = .error e → IsRefusal e := by
  intro h
  have hread : readData "id: news\n" = .ok [(.string "id", .string "news")] :=
    eq_ok_of_toOption (by decide +kernel)
  have herror : (prepare (directory Directory.config Directory.treeCell) (.document "a/b.c")
      "id: news\n" Directory.bare).1
        = .error (.storage (.ofNameDefect "a/b.c" (.illegal (Char.ofNat 47)))) := by
    unfold prepare
    rw [hread]
    rfl
  obtain ⟨message, hmessage⟩ := h "a/b.c" "id: news\n" _ herror
  cases hmessage

end SingleImport

end SiteConfig
