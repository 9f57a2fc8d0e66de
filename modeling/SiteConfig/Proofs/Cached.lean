import Mathlib
import SiteConfig.Proofs.NameMap
import SiteConfig.Proofs.Outcome
import SiteConfig.Storage.Cached
import SiteConfig.Storage.Faulty
import SiteConfig.Storage.Memory

/-!
# A cache that cannot be noticed

Whatever is asked of a cached storage, and in whatever order, it answers as the storage under
it would (`SiteConfig.Storage.Cacheable.answers_cached`). Two runs are compared: one goes
through the cache, the other one does not, so that their states differ in what the cache
remembers. Nobody but the cache looks there, which is what it means for two states to be
**alike**; that relation, and what a storage is relied on for, are stated in
`SiteConfig.Storage.Cacheable`.

The invariant is that everything remembered is what would be found now
(`SiteConfig.Storage.Sound`). Looking keeps it because looking changes nothing that can be
found. A change keeps it because it is made to some names only, and the cache forgets these
names whether the change succeeds or fails: also of a rename that has written the new document
and could not delete the old one, nothing is remembered afterwards.
-/

namespace SiteConfig

namespace Attempt

variable {σ ρ ε ε' α β : Type} {R : σ → ρ → Prop}

/-- **Attempts that mirror each other**: from related states they come to the same outcome, and
leave related states. -/
def Mirrors (R : σ → ρ → Prop) (x : Attempt σ ε α) (y : Attempt ρ ε α) : Prop :=
  ∀ s t, R s t → (x s).1 = (y t).1 ∧ R (x s).2 (y t).2

theorem mirrors_pure (a : α) : Mirrors R (pure a : Attempt σ ε α) (pure a) :=
  fun _ _ h => ⟨rfl, h⟩

theorem mirrors_fail (e : ε) : Mirrors R (fail e : Attempt σ ε α) (fail e) :=
  fun _ _ h => ⟨rfl, h⟩

theorem Mirrors.bind {x : Attempt σ ε α} {y : Attempt ρ ε α} {f : α → Attempt σ ε β}
    {g : α → Attempt ρ ε β} (hx : Mirrors R x y) (hf : ∀ a, Mirrors R (f a) (g a)) :
    Mirrors R (x >>= f) (y >>= g) := by
  intro s t h
  obtain ⟨hout, hleft⟩ := hx s t h
  rw [bind_apply, bind_apply]
  -- the outcomes are the same, and so both go on or neither does
  rcases hxs : x s with ⟨e | a, s'⟩ <;> rcases hyt : y t with ⟨e' | a', t'⟩ <;>
    rw [hxs, hyt] at hout hleft <;> cases hout
  · exact ⟨rfl, hleft⟩
  · exact hf a s' t' hleft

theorem Mirrors.recover {x : Attempt σ ε α} {y : Attempt ρ ε α} {f : ε → Attempt σ ε' α}
    {g : ε → Attempt ρ ε' α} (hx : Mirrors R x y) (hf : ∀ e, Mirrors R (f e) (g e)) :
    Mirrors R (x.recover f) (y.recover g) := by
  intro s t h
  obtain ⟨hout, hleft⟩ := hx s t h
  unfold Attempt.recover
  rcases hxs : x s with ⟨e | a, s'⟩ <;> rcases hyt : y t with ⟨e' | a', t'⟩ <;>
    rw [hxs, hyt] at hout hleft <;> cases hout
  · exact hf e s' t' hleft
  · exact ⟨rfl, hleft⟩

end Attempt

namespace Storage

open Attempt

variable {σ ρ : Type}

/-! ### Reading and deleting one by one -/

section Each

variable {R : σ → ρ → Prop}

theorem mirrors_readEach {read : String → Attempt σ ConfigError Document}
    {read' : String → Attempt ρ ConfigError Document} (h : ∀ n, Mirrors R (read n) (read' n))
    (names : List String) : Mirrors R (readEach read names) (readEach read' names) := by
  induction names with
  | nil => exact mirrors_pure _
  | cons n names ih =>
    refine (((h n).bind fun _ => mirrors_pure _).recover fun e => ?_).bind fun _ =>
      ih.bind fun _ => mirrors_pure _
    split
    · exact mirrors_pure _
    · exact mirrors_fail _

theorem mirrors_deleteEach {delete : String → Attempt σ ConfigError Unit}
    {delete' : String → Attempt ρ ConfigError Unit}
    (h : ∀ n, Mirrors R (delete n) (delete' n)) (names : List String) :
    Mirrors R (deleteEach delete names) (deleteEach delete' names) := by
  induction names with
  | nil => exact mirrors_pure _
  | cons n names ih => exact (h n).bind fun _ => ih

end Each

/-! ### What can be asked of a storage -/

/-- A change of documents. -/
inductive Change where
  | write (name : String) (data : Yaml.Mapping)
  | delete (name : String)
  | rename (source target : String)

namespace Change

/-- The names that a change is about. -/
def names : Change → List String
  | .write n _ => [n]
  | .delete n => [n]
  | .rename a b => [a, b]

/-- A change is tried on a storage. -/
def on (s : Storage σ) : Change → Attempt σ ConfigError Unit
  | .write n m => s.write n m
  | .delete n => s.delete n
  | .rename a b => s.rename a b

end Change

/-- What can be asked of a storage, or of a cache. -/
inductive Request where
  | has (name : String)
  | read (name : String)
  | readMany (names : List String)
  | change (c : Change)
  | list (start : String)
  | deleteAll (start : String)
  /-- A cache forgets everything; for any other storage there is nothing to do. -/
  | reset

/-- What a storage answers. -/
inductive Answer where
  | flag (b : Bool)
  | document (d : Document)
  | documents (ds : List Document)
  | names (ns : List String)
  | count (n : Nat)
  | done

/-- How a storage answers, with what it does when it is reset. -/
def serve (s : Storage σ) (reset : Attempt σ ConfigError Unit) :
    Request → Attempt σ ConfigError Answer
  | .has n => do return .flag (← s.has n)
  | .read n => do return .document (← s.read n)
  | .readMany ns => do return .documents (← s.readMany ns)
  | .change c => do
    c.on s
    return .done
  | .list start => do return .names (← s.list start)
  | .deleteAll start => do return .count (← s.deleteAll start)
  | .reset => do
    reset
    return .done

/-- **The answers to some requests**, one after the other; a request that fails is answered with
its error. -/
def answers (s : Storage σ) (reset : Attempt σ ConfigError Unit) :
    List Request → σ → List (Except ConfigError Answer)
  | [], _ => []
  | q :: rest, st => (serve s reset q st).1 :: answers s reset rest (serve s reset q st).2

/-- Storages that mirror each other answer alike. -/
theorem answers_eq {R : σ → ρ → Prop} {a : Storage σ} {b : Storage ρ}
    {ra : Attempt σ ConfigError Unit} {rb : Attempt ρ ConfigError Unit}
    (h : ∀ q, Mirrors R (serve a ra q) (serve b rb q)) (qs : List Request) {s : σ} {t : ρ}
    (hst : R s t) : answers a ra qs s = answers b rb qs t := by
  induction qs generalizing s t with
  | nil => rfl
  | cons q qs ih =>
    obtain ⟨hout, hleft⟩ := h q s t hst
    rw [answers, answers, hout, ih hleft]

/-! ### Storages that can be cached -/

/-- The storage that the basic operations of a storage determine. -/
def plain (s : Storage σ) : Storage σ :=
  ofBasics ⟨s.label, s.has, s.read, s.write, s.delete, s.list⟩

/-- The data of a document, or that there is no such document. -/
def find (s : Storage σ) (name : String) : Attempt σ ConfigError (Option Yaml.Mapping) :=
  (s.read name >>= fun d => pure (some d.data) :
    Attempt σ ConfigError (Option Yaml.Mapping)).recover
  fun e => if e.isNotFound then pure none else Attempt.fail e

/-- What the outcome of reading says about the data. -/
def found : Except ConfigError Document → Except ConfigError (Option Yaml.Mapping)
  | .ok d => .ok (some d.data)
  | .error e => if e.isNotFound then .ok none else .error e

theorem find_apply (s : Storage σ) (n : String) (t : σ) :
    s.find n t = (found (s.read n t).1, (s.read n t).2) := by
  unfold find found
  rw [Attempt.recover, bind_apply]
  rcases s.read n t with ⟨e | d, t'⟩
  · simp only
    split <;> rfl
  · rfl

/-- **What a storage under a cache is relied on for.** Two states are alike when the storage
cannot tell them apart: it does the same in both, and what is remembered does not count. Looking
leaves a state like the one before, a change can be seen at its own names only, and existence
and reading agree. -/
structure Cacheable (inner : Storage σ) (cell : Cell σ Cache) (Alike : σ → σ → Prop) : Prop where
  symm : ∀ {s t}, Alike s t → Alike t s
  trans : ∀ {s t u}, Alike s t → Alike t u → Alike s u
  get_set : ∀ a s, Alike s s → cell.get (cell.set a s) = a
  set_alike : ∀ a s, Alike s s → Alike (cell.set a s) s
  has : ∀ n s, Alike s s → Alike (inner.has n s).2 s
  read : ∀ n, Mirrors Alike (inner.read n) (inner.read n)
  read_left : ∀ n s, Alike s s →
    Alike (inner.read n s).2 s ∧ cell.get (inner.read n s).2 = cell.get s
  list : ∀ start, Mirrors Alike (inner.list start) (inner.list start)
  list_left : ∀ start s, Alike s s →
    Alike (inner.list start s).2 s ∧ cell.get (inner.list start s).2 = cell.get s
  change : ∀ c : Change, Mirrors Alike (c.on inner) (c.on inner)
  change_left : ∀ (c : Change) s, Alike s s → cell.get (c.on inner s).2 = cell.get s ∧
    ∀ n, n ∉ c.names → (inner.read n (c.on inner s).2).1 = (inner.read n s).1
  readMany : ∀ ns, Mirrors Alike (inner.plain.readMany ns) (inner.readMany ns)
  deleteAll : ∀ start, Mirrors Alike (inner.plain.deleteAll start) (inner.deleteAll start)
  /-- Documents come under the name that was asked for, and so do complaints. -/
  named : ∀ n s, Alike s s →
    match (inner.read n s).1 with
    | .ok d => d.name = n
    | .error e => e.isNotFound = true → e = .notFound n
  /-- A document exists just when it can be read; whether it exists cannot be told just when
  reading fails otherwise, and then for the same reason. -/
  agree : ∀ n s, Alike s s →
    (inner.has n s).1 = (found (inner.read n s).1).map Option.isSome

/-- **What is remembered is what would be found now.** The cache remembers it in one state, it
would be found in the other. -/
structure Sound (inner : Storage σ) (cell : Cell σ Cache) (Alike : σ → σ → Prop) (s t : σ) :
    Prop where
  alike : Alike s t
  remembered : ∀ n known, (cell.get s).get? n = some known → found (inner.read n t).1 = .ok known

namespace Cacheable

variable {inner : Storage σ} {cell : Cell σ Cache} {Alike : σ → σ → Prop} {s t s' t' : σ}
  (h : Cacheable inner cell Alike)

/-! ### What keeps a cache sound -/

include h in
theorem refl_left (hst : Alike s t) : Alike s s := h.trans hst (h.symm hst)

include h in
theorem refl_right (hst : Alike s t) : Alike t t := h.trans (h.symm hst) hst

include h in
/-- A cache stays sound while it remembers no more, and both states stay like they were. -/
theorem sound_of_alike (hst : Sound inner cell Alike s t) (hs : Alike s' s) (ht : Alike t' t)
    (hcell : ∀ n known, (cell.get s').get? n = some known → (cell.get s).get? n = some known) :
    Sound inner cell Alike s' t' where
  alike := h.trans hs (h.trans hst.alike (h.symm ht))
  remembered n known hn := by
    rw [(h.read n t' t ht).1]
    exact hst.remembered n known (hcell n known hn)

theorem sound_empty {inner : Storage σ} (hs : Alike s s) (hcold : cell.get s = .empty) :
    Sound inner cell Alike s s where
  alike := hs
  remembered n known hn := by
    rw [hcold, NameMap.get?_empty] at hn
    cases hn

/-! ### Looking -/

/-- What is remembered is given, anything else is read. -/
theorem lookUp_apply (inner : Storage σ) (cell : Cell σ Cache) (n : String) (s : σ) :
    lookUp inner cell n s =
      match (cell.get s).get? n with
      | some known => (.ok known, s)
      | none => (inner.find n >>= fun found => do
          cell.modify (·.insert n found)
          return found) s := by
  unfold lookUp
  rw [bind_apply]
  show (match (cell.get s).get? n with
    | some known => (return known : Attempt σ ConfigError (Option Yaml.Mapping))
    | none => _) s = _
  cases (cell.get s).get? n <;> rfl

include h in
/-- **Looking something up in the cache** is as good as reading it. -/
theorem mirrors_lookUp (n : String) :
    Mirrors (Sound inner cell Alike) (lookUp inner cell n) (inner.find n) := by
  intro s t hst
  obtain ⟨hs', hcell'⟩ := h.read_left n s (h.refl_left hst.alike)
  have ht' := (h.read_left n t (h.refl_right hst.alike)).1
  rw [lookUp_apply, find_apply]
  rcases hn : (cell.get s).get? n with _ | known
  · -- a miss is read, and the outcome is the same on both sides
    have hout := congrArg found (h.read n s t hst.alike).1
    have hleft : Sound inner cell Alike (inner.read n s).2 (inner.read n t).2 :=
      h.sound_of_alike hst hs' ht' fun k known hk => by rwa [hcell'] at hk
    simp only
    rw [bind_apply, find_apply, ← hout]
    rcases hread : found (inner.read n s).1 with e | known
    · exact ⟨rfl, hleft⟩
    · have hself := h.refl_left hs'
      refine ⟨rfl, h.trans (h.set_alike _ _ hself) hleft.alike, fun k known' hk => ?_⟩
      have hk' : ((cell.get (inner.read n s).2).insert n known).get? k = some known' := by
        rw [← h.get_set ((cell.get (inner.read n s).2).insert n known) _ hself]
        exact hk
      -- only the name that has been read is remembered anew
      rw [NameMap.get?_insert] at hk'
      split at hk'
      · rename_i heq
        cases hk'
        rw [heq, (h.read n _ t ht').1, ← hout, hread]
      · exact hleft.remembered k known' hk'
  · -- a hit is what would be found, as the cache is sound
    rw [hst.remembered n known hn]
    exact ⟨rfl, h.sound_of_alike hst (h.refl_left hst.alike) ht' fun _ _ hk => hk⟩

/-- A document is handed out under the name that it was asked for. -/
def deliver (n : String) : Option Yaml.Mapping → Attempt σ ConfigError Document
  | some data => pure ⟨n, data⟩
  | none => Attempt.fail (.notFound n)

theorem cached_read (inner : Storage σ) (cell : Cell σ Cache) (n : String) :
    (cached inner cell).read n = lookUp inner cell n >>= deliver n := by
  show (lookUp inner cell n >>= fun found => _) = _
  congr 1

include h in
/-- Handing out what has been found comes to the same as reading. -/
theorem find_deliver (n : String) (ht : Alike t t) :
    (inner.find n >>= deliver n) t = inner.read n t := by
  have hnamed := h.named n t ht
  rw [bind_apply, find_apply]
  rcases hread : inner.read n t with ⟨e | d, t'⟩ <;> rw [hread] at hnamed
  · by_cases hno : e.isNotFound = true
    · obtain rfl := hnamed hno
      rfl
    · simp [found, hno]
  · obtain ⟨name, data⟩ := d
    obtain rfl := hnamed
    rfl

include h in
theorem mirrors_read (n : String) :
    Mirrors (Sound inner cell Alike) ((cached inner cell).read n) (inner.read n) := by
  intro s t hst
  rw [cached_read, ← h.find_deliver n (h.refl_right hst.alike)]
  refine (h.mirrors_lookUp n).bind (fun data => ?_) s t hst
  cases data
  · exact mirrors_fail _
  · exact mirrors_pure _

include h in
theorem mirrors_has (n : String) :
    Mirrors (Sound inner cell Alike) ((cached inner cell).has n) (inner.has n) := by
  intro s t hst
  have ht := h.refl_right hst.alike
  have hlook : Mirrors (Sound inner cell Alike) ((cached inner cell).has n)
      (inner.find n >>= fun data => pure data.isSome) :=
    (h.mirrors_lookUp n).bind fun data => mirrors_pure data.isSome
  obtain ⟨hout, hleft⟩ := hlook s t hst
  -- existence is asked for in another way than the cache does, which cannot be told apart
  have hfind : (inner.find n >>= fun data => pure data.isSome : Attempt σ ConfigError Bool) t
      = ((inner.has n t).1, (inner.read n t).2) := by
    rw [h.agree n t ht, bind_apply, find_apply]
    rcases found (inner.read n t).1 with e | data <;> rfl
  rw [hfind] at hout hleft
  have hsame : Alike (inner.has n t).2 (inner.read n t).2 :=
    h.trans (h.has n t ht) (h.symm (h.read_left n t ht).1)
  exact ⟨hout, h.sound_of_alike hleft (h.refl_left hleft.alike) hsame fun _ _ hk => hk⟩

include h in
theorem mirrors_list (start : String) :
    Mirrors (Sound inner cell Alike) ((cached inner cell).list start) (inner.list start) := by
  intro s t hst
  obtain ⟨hs', hcell'⟩ := h.list_left start s (h.refl_left hst.alike)
  have ht' := (h.list_left start t (h.refl_right hst.alike)).1
  exact ⟨(h.list start s t hst.alike).1, h.sound_of_alike hst hs' ht' fun k known hk => by
    rwa [show (cached inner cell).list start = inner.list start from rfl, hcell'] at hk⟩

/-! ### Changing -/

include h in
/-- Forgetting some names leaves everything else as it was. -/
theorem forget_apply (names : List String) (hs : Alike s s) :
    ∃ s', names.forM (forget cell) s = (.ok (), s') ∧ Alike s' s ∧
      ∀ n, (cell.get s').get? n = if n ∈ names then none else (cell.get s).get? n := by
  induction names generalizing s with
  | nil => exact ⟨s, rfl, hs, fun n => by simp⟩
  | cons m names ih =>
    have hset := h.set_alike ((cell.get s).erase m) s hs
    obtain ⟨s', heq, halike, hget⟩ := ih (h.refl_left hset)
    refine ⟨s', heq, h.trans halike hset, fun n => ?_⟩
    rw [hget, h.get_set _ _ hs, NameMap.get?_erase]
    -- a name may be forgotten twice
    by_cases hn : n = m <;> by_cases hmem : n ∈ names <;> simp [hn, hmem]

include h in
/-- **A change through the cache**: whether it succeeds or fails, nothing is remembered of the
names that it is about, and nothing can be seen of it anywhere else. -/
theorem mirrors_forgetting (c : Change) :
    Mirrors (Sound inner cell Alike) (forgetting cell c.names (c.on inner)) (c.on inner) := by
  intro s t hst
  obtain ⟨s₁, hforget, halike, hget⟩ := h.forget_apply c.names (h.refl_left hst.alike)
  have hs₁ := h.refl_left halike
  obtain ⟨hout, hleft⟩ := h.change c s₁ t (h.trans halike hst.alike)
  obtain ⟨hcell, -⟩ := h.change_left c s₁ hs₁
  obtain ⟨-, hspared⟩ := h.change_left c t (h.refl_right hst.alike)
  -- what is left, once the names have been forgotten again
  obtain ⟨s₂, hagain, halike₂, hget₂⟩ := h.forget_apply c.names (h.refl_left hleft)
  have hsound : Sound inner cell Alike s₂ (c.on inner t).2 := by
    refine ⟨h.trans halike₂ hleft, fun n known hn => ?_⟩
    rw [hget₂, hcell, hget] at hn
    by_cases hmem : n ∈ c.names
    · simp [hmem] at hn
    · rw [hspared n hmem]
      refine hst.remembered n known ?_
      simpa [hmem] using hn
  -- the cache forgets after a failure as it does after a success
  have hall : forgetting cell c.names (c.on inner) s = ((c.on inner s₁).1, s₂) := by
    unfold forgetting
    rw [bind_apply, hforget]
    simp only
    rw [bind_apply, Attempt.recover]
    rcases hdone : c.on inner s₁ with ⟨e | ⟨⟩, s₃⟩ <;> rw [hdone] at hagain <;> simp only
    · rw [bind_apply, hagain]
      rfl
    · exact hagain
  rw [hall]
  exact ⟨hout, hsound⟩

theorem cached_change (inner : Storage σ) (cell : Cell σ Cache) (c : Change) :
    c.on (cached inner cell) = forgetting cell c.names (c.on inner) := by
  cases c <;> rfl

include h in
theorem mirrors_change (c : Change) :
    Mirrors (Sound inner cell Alike) (c.on (cached inner cell)) (c.on inner) := by
  rw [cached_change]
  exact h.mirrors_forgetting c

/-! ### Every request -/

include h in
/-- What mirrors what the basic operations determine mirrors the storage itself. -/
theorem mirrors_of_plain {α : Type} {x y z : Attempt σ ConfigError α}
    (hxy : Mirrors (Sound inner cell Alike) x y) (hyz : Mirrors Alike y z) :
    Mirrors (Sound inner cell Alike) x z := by
  intro s t hst
  obtain ⟨hout, hleft⟩ := hxy s t hst
  obtain ⟨hout', hleft'⟩ := hyz t t (h.refl_right hst.alike)
  exact ⟨hout.trans hout', h.sound_of_alike hleft (h.refl_left hleft.alike) (h.symm hleft')
    fun _ _ hk => hk⟩

include h in
/-- **Every request** is answered by the cache as by the storage under it. -/
theorem mirrors_serve (q : Request) :
    Mirrors (Sound inner cell Alike)
      (serve (cached inner cell) (cell.modify fun _ => .empty) q) (serve inner (pure ()) q) := by
  cases q with
  | has n => exact (h.mirrors_has n).bind fun _ => mirrors_pure _
  | read n => exact (h.mirrors_read n).bind fun _ => mirrors_pure _
  | readMany ns =>
    have hplain := mirrors_readEach h.mirrors_read ns
    exact (h.mirrors_of_plain hplain (h.readMany ns)).bind fun _ => mirrors_pure _
  | change c => exact (h.mirrors_change c).bind fun _ => mirrors_pure _
  | list start => exact (h.mirrors_list start).bind fun _ => mirrors_pure _
  | deleteAll start =>
    -- the cache deletes one by one, like a storage with nothing but the basic operations
    have hplain : Mirrors (Sound inner cell Alike) ((cached inner cell).deleteAll start)
        (inner.plain.deleteAll start) :=
      (h.mirrors_list start).bind fun names =>
        (mirrors_deleteEach (fun n => h.mirrors_change (.delete n)) names).bind fun _ =>
          mirrors_pure _
    exact (h.mirrors_of_plain hplain (h.deleteAll start)).bind fun _ => mirrors_pure _
  | reset =>
    intro s t hst
    have hs := h.refl_left hst.alike
    refine ⟨rfl, h.sound_of_alike hst (h.set_alike .empty s hs) (h.refl_right hst.alike)
      fun n known hn => ?_⟩
    have hcold : (NameMap.empty : Cache).get? n = some known := by
      rw [← h.get_set .empty s hs]
      exact hn
    cases hcold

include h in
/-- **A cache cannot be noticed**: a cache that remembers nothing at first answers every sequence
of requests as the storage under it would on its own. -/
theorem answers_cached (hs : Alike s s) (hcold : cell.get s = .empty) (qs : List Request) :
    answers (cached inner cell) (cell.modify fun _ => .empty) qs s
      = answers inner (pure ()) qs s :=
  answers_eq h.mirrors_serve qs (sound_empty hs hcold)

end Cacheable

/-! ### A shelf -/

/-- Documents in memory, the number of changes that have been tried, and what a cache
remembers. -/
structure Shelf where
  documents : Documents
  changes : Nat
  cache : Cache

namespace Shelf

/-- The documents of a shelf. -/
def documentCell : Cell Shelf Documents := ⟨documents, fun a s => { s with documents := a }⟩

/-- The number of changes of a shelf. -/
def changeCell : Cell Shelf Nat := ⟨changes, fun a s => { s with changes := a }⟩

/-- What is remembered of a shelf. -/
def cacheCell : Cell Shelf Cache := ⟨cache, fun a s => { s with cache := a }⟩

/-- The storage of a shelf, where changes fail as stated. -/
def storage (faults : Faults) : Storage Shelf := faulty (memory documentCell) faults changeCell

/-- Two shelves that differ in what is remembered at most. -/
def Alike (s t : Shelf) : Prop := s.documents = t.documents ∧ s.changes = t.changes

theorem mirrors_documents {α : Type} (f : Documents → Except ConfigError α) :
    Mirrors Alike (fun s => (f s.documents, s)) (fun s => (f s.documents, s)) :=
  fun _ _ h => ⟨congrArg f h.1, h⟩

variable (faults : Faults) {names : List String} {n : String}

theorem mirrors_countChange : Mirrors Alike (countChange faults changeCell n)
    (countChange faults changeCell n) := by
  unfold countChange
  have hmodify : Mirrors Alike (changeCell.modify (· + 1) : Attempt Shelf ConfigError Unit)
      (changeCell.modify (· + 1)) := fun _ _ h => ⟨rfl, h.1, congrArg (· + 1) h.2⟩
  have hread : Mirrors Alike (changeCell.read : Attempt Shelf ConfigError Nat) changeCell.read :=
    fun _ _ h => ⟨congrArg Except.ok h.2, h⟩
  refine hmodify.bind fun _ => hread.bind fun k => ?_
  split
  · exact mirrors_fail _
  · exact mirrors_pure _

theorem mirrors_modify (f : Documents → Documents) :
    Mirrors Alike (documentCell.modify f : Attempt Shelf ConfigError Unit)
      (documentCell.modify f) :=
  fun _ _ h => ⟨rfl, congrArg f h.1, h.2⟩

theorem mirrors_write (m : Yaml.Mapping) :
    Mirrors Alike ((storage faults).write n m) ((storage faults).write n m) := by
  refine (mirrors_countChange faults).bind fun _ => Mirrors.bind ?_ fun _ => mirrors_modify _
  exact fun _ _ h => ⟨rfl, h⟩

theorem mirrors_delete :
    Mirrors Alike ((storage faults).delete n) ((storage faults).delete n) := by
  refine (mirrors_countChange faults).bind fun _ =>
    (mirrors_documents Except.ok).bind fun docs => ?_
  split
  · exact mirrors_modify _
  · exact mirrors_fail _

/-- What is remembered, and what there is under other names than some. -/
def spared (names : List String) (s : Shelf) :
    Cache × ({n : String // n ∉ names} → Option Yaml.Mapping) :=
  (s.cache, fun n => s.documents.get? n)

theorem quiet_countChange : Quiet (spared names) (countChange faults changeCell n) := by
  unfold countChange
  refine Quiet.bind (fun _ => rfl) fun _ => Quiet.bind (fun _ => rfl) fun k => ?_
  split <;> exact fun _ => rfl

theorem quiet_write (hn : n ∈ names) (m : Yaml.Mapping) :
    Quiet (spared names) ((storage faults).write n m) := by
  refine (quiet_countChange faults).bind fun _ => Quiet.bind (fun _ => rfl) fun _ s => ?_
  refine Prod.ext rfl (funext fun k => ?_)
  exact (NameMap.get?_insert _ _ _ _).trans (if_neg fun heq : k.1 = n => k.2 (heq ▸ hn))

theorem quiet_delete (hn : n ∈ names) : Quiet (spared names) ((storage faults).delete n) := by
  refine (quiet_countChange faults).bind fun _ => Quiet.bind (fun _ => rfl) fun docs => ?_
  split
  · refine fun s => Prod.ext rfl (funext fun k => ?_)
    exact (NameMap.get?_erase _ _ _).trans (if_neg fun heq : k.1 = n => k.2 (heq ▸ hn))
  · exact fun _ => rfl

variable (hreading : faults.reading = none)

include hreading in
theorem read_apply (n : String) (s : Shelf) :
    (storage faults).read n s = (readFrom s.documents n, s) := by
  show (if faults.reading = some n then _ else (memory documentCell).read n) s = _
  rw [hreading]
  rfl

include hreading in
theorem mirrors_read (n : String) :
    Mirrors Alike ((storage faults).read n) ((storage faults).read n) := by
  intro s t h
  rw [read_apply faults hreading, read_apply faults hreading]
  exact mirrors_documents (readFrom · n) s t h

include hreading in
/-- **A shelf can be cached**, wherever its changes fail. -/
theorem cacheable : Cacheable (storage faults) cacheCell Alike where
  symm h := ⟨h.1.symm, h.2.symm⟩
  trans h h' := ⟨h.1.trans h'.1, h.2.trans h'.2⟩
  get_set _ _ _ := rfl
  set_alike _ _ _ := ⟨rfl, rfl⟩
  has _ _ h := h
  read := mirrors_read faults hreading
  read_left n s h := by
    rw [read_apply faults hreading]
    exact ⟨h, rfl⟩
  list start := mirrors_documents fun docs => .ok (namesFrom docs start)
  list_left _ _ h := ⟨h, rfl⟩
  change c := by
    cases c with
    | write n m => exact mirrors_write faults m
    | delete n => exact mirrors_delete faults
    | rename a b =>
      exact (mirrors_read faults hreading a).bind fun d =>
        (mirrors_write faults d.data).bind fun _ => mirrors_delete faults
  change_left c s _ := by
    -- a change spares what is remembered, and every other name
    have hquiet : Quiet (spared c.names) (c.on (storage faults)) := by
      cases c with
      | write n m => exact quiet_write faults List.mem_cons_self m
      | delete n => exact quiet_delete faults List.mem_cons_self
      | rename a b =>
        have hread : Quiet (spared [a, b]) ((storage faults).read a) := fun s => by
          rw [read_apply faults hreading]
        exact hread.bind fun d => (quiet_write faults (by simp) d.data).bind fun _ =>
          quiet_delete faults List.mem_cons_self
    have hs := hquiet s
    refine ⟨congrArg Prod.fst hs, fun n hn => ?_⟩
    have hsame : ((c.on (storage faults)) s).2.documents.get? n = s.documents.get? n :=
      congrFun (congrArg Prod.snd hs) ⟨n, hn⟩
    rw [read_apply faults hreading, read_apply faults hreading, readFrom, readFrom, hsame]
  readMany := mirrors_readEach (mirrors_read faults hreading)
  deleteAll start := by
    refine Mirrors.bind (mirrors_documents fun docs => .ok (namesFrom docs start)) fun names => ?_
    exact (mirrors_deleteEach (fun n => mirrors_delete faults) names).bind fun _ => mirrors_pure _
  named n s _ := by
    rw [read_apply faults hreading, readFrom]
    rcases s.documents.get? n with _ | m
    · exact fun _ => rfl
    · rfl
  agree n s _ := by
    show Except.ok (s.documents.get? n).isSome = _
    rw [read_apply faults hreading, readFrom]
    rcases s.documents.get? n with _ | m <;> rfl

end Shelf

/-- **A rename that fails half-way** is not noticed either: the new name has been asked for before,
the document is written under it and cannot be deleted under the old one, and then the new name
is asked for again. -/
theorem answers_cached_halfway :
    let shelf : Shelf := ⟨.ofList [("blog.home", [])], 0, .empty⟩
    let storage := Shelf.storage ⟨none, some 2, none⟩
    let asked : List Request := [.read "blog.news", .has "blog.home",
      .change (.rename "blog.home" "blog.news"), .read "blog.news", .has "blog.home",
      .deleteAll "blog.", .readMany ["blog.home", "blog.news"], .reset]
    answers (cached storage Shelf.cacheCell) (Shelf.cacheCell.modify fun _ => .empty) asked shelf
        = answers storage (pure ()) asked shelf ∧
      (answers storage (pure ()) asked shelf).map (·.isOk)
        = [false, true, false, true, true, true, true, true] :=
  ⟨(Shelf.cacheable ⟨none, some 2, none⟩ rfl).answers_cached ⟨rfl, rfl⟩ rfl _, by decide⟩

end Storage

end SiteConfig
