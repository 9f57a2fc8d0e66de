import Mathlib
import SiteConfig.Proofs.Backing
import SiteConfig.Proofs.Desk

/-!
# Documents that are renamed

Renaming moves a document: if it succeeds, then the new name has the data that the old one had, the
old name has none, and no other name has changed. If it fails, nothing is lost: the document still
stands under its old name, though it may stand under the new one as well. This holds for every
storage that is backed by a map, and for every cache over one
(`SiteConfig.Storage.Backed.rename_moves`).

It makes no exception for a document that is renamed to the name that it has. Such a document is
written where it is and then deleted, and so it is gone (`SiteConfig.Storage.not_always_moved`).
-/

namespace SiteConfig.Storage

variable {σ : Type} {st : Storage σ} {I : σ → Documents → Prop}
  {fits : String → Yaml.Mapping → Bool} {keeps : Yaml.Mapping → Prop} {fallible : Prop}
  {cell : Cell σ Cache} {docs : Documents} {s : σ} {source target : String}

/-- **A state shows some documents**: it holds them, and they are what is there and what is read. -/
structure Shows (st : Storage σ) (I : σ → Documents → Prop) (fits : String → Yaml.Mapping → Bool)
    (fallible : Prop) (s : σ) (docs : Documents) : Prop where
  holds : I s docs
  has : ∀ n, Tells I fits fallible docs n (st.has n s)
  read : ∀ n, Reads I fits fallible docs n (st.read n s)

theorem Backed.shows (h : st.Backed I fits keeps fallible) (hs : I s docs) :
    st.Shows I fits fallible s docs :=
  ⟨hs, fun n => h.has n hs, fun n => h.read n hs⟩

/-- **What renaming a document comes to.** Nothing is said of a document that is renamed to its own
name but that it is not there afterwards. -/
structure Moves (st : Storage σ) (I : σ → Documents → Prop) (fits : String → Yaml.Mapping → Bool)
    (fallible : Prop) (docs : Documents) (source target : String) (s : σ) : Prop where
  moved : (st.rename source target s).1 = .ok () → ∃ m docs', docs.get? source = some m ∧
    st.Shows I fits fallible (st.rename source target s).2 docs' ∧
      (source ≠ target → docs'.get? target = some m) ∧ docs'.get? source = none ∧
      ∀ n, n ≠ source → n ≠ target → docs'.get? n = docs.get? n
  /-- There is nothing to be moved, or nowhere to move it to. -/
  unmoved : docs.get? source = none ∨ validateName target ≠ .ok () →
    (∃ e, (st.rename source target s).1 = .error e) ∧
      st.Shows I fits fallible (st.rename source target s).2 docs
  failed : ∀ e, (st.rename source target s).1 = .error e → ∃ docs',
    st.Shows I fits fallible (st.rename source target s).2 docs' ∧
      docs'.get? source = docs.get? source ∧ ∀ n, n ≠ target → docs'.get? n = docs.get? n
  possible : ∀ m, docs.get? source = some m → fits target m = true → ¬fallible →
    (st.rename source target s).1 = .ok ()

namespace Change

/-- Whether a document can be moved is a matter of its data and of the new name. -/
theorem exists_of_works_rename (h : (Change.rename source target).works fits docs = true) :
    ∃ m, docs.get? source = some m ∧ fits target m = true :=
  (Option.any_eq_true _ _).1 h

theorem made_rename {m : Yaml.Mapping} (h : docs.get? source = some m) :
    (Change.rename source target).made docs = (docs.insert target m).erase source := by
  rw [made, h]

end Change

/-- **A rename moves the document**, as it does what a change does. -/
theorem Backed.moves (h : st.Backed I fits keeps fallible) {docs' : Documents}
    (hdoes : (Change.rename source target).Does fits fallible docs (st.rename source target s).1
      docs') (hs : I (st.rename source target s).2 docs') :
    st.Moves I fits fallible docs source target s := by
  have hshows := h.shows hs
  generalize hr : (st.rename source target s).1 = r at hdoes
  cases hdoes with
  | made hworks =>
    obtain ⟨m, hsource, hfits⟩ := Change.exists_of_works_rename hworks
    rw [Change.made_rename hsource] at hshows
    refine ⟨fun _ => ⟨m, _, hsource, hshows, fun hne => ?_, ?_, fun n hn hn' => ?_⟩, ?_,
      fun e he => ?_, fun _ _ _ _ => hr⟩
    · rw [NameMap.get?_erase, if_neg (Ne.symm hne), NameMap.get?_insert, if_pos rfl]
    · rw [NameMap.get?_erase, if_pos rfl]
    · rw [NameMap.get?_erase, if_neg hn, NameMap.get?_insert, if_neg hn']
    · -- what can be moved is there, and its new name is proper
      rintro (hno | hno)
      · rw [hsource] at hno
        cases hno
      · exact absurd (h.proper hfits) hno
    · rw [hr] at he
      cases he
  | refused e hno =>
    refine ⟨fun hok => ?_, fun _ => ⟨⟨e, hr⟩, hshows⟩, fun _ _ => ⟨_, hshows, rfl, fun _ _ => rfl⟩,
      fun m hsource hfits hsure => ?_⟩
    · rw [hr] at hok
      cases hok
    · refine absurd (hno ?_) hsure
      rw [Change.works, hsource]
      exact hfits
  | @halfway e source' target' m hfallible hc hsource hfits =>
    cases hc
    refine ⟨fun hok => ?_, ?_, fun _ _ => ⟨_, hshows, ?_, fun n hn => ?_⟩,
      fun _ _ _ hsure => absurd hfallible hsure⟩
    · rw [hr] at hok
      cases hok
    · rintro (hno | hno)
      · rw [hsource] at hno
        cases hno
      · exact absurd (h.proper hfits) hno
    · rw [NameMap.get?_insert, hsource, ite_self]
    · rw [NameMap.get?_insert, if_neg hn]

/-- **A rename moves a document**, for every storage that is backed by a map and renames documents
by reading, writing and deleting them, and through every coherent cache over it. -/
theorem Backed.rename_moves (h : st.Backed I fits keeps fallible)
    (hrename : st.rename = st.plain.rename) (hcell : st.Separate cell I) (hs : I s docs)
    (hcoherent : Coherent cell s docs) (source target : String) :
    st.Moves I fits fallible docs source target s ∧
      (Storage.cached st cell).Moves (Remembered I cell) fits fallible docs source target s := by
  constructor
  · obtain ⟨docs', hdoes, hs'⟩ := h.does_change hrename hs (c := .rename source target) trivial
    exact h.moves hdoes hs'
  · obtain ⟨docs', hdoes, hs'⟩ := h.does_cached hcell hrename ⟨hs, hcoherent⟩
      (c := .rename source target) trivial
    exact (h.cached hcell hrename).moves hdoes hs'

/-! ### On a shelf -/

open Attempt in
/-- A cache of documents in memory is kept apart when it is another part of the state. -/
theorem separate_memory {documents : Cell σ Documents} (hget : ∀ a s, cell.get (cell.set a s) = a)
    (hset : ∀ a s, documents.get (cell.set a s) = documents.get s)
    (hother : ∀ a s, cell.get (documents.set a s) = cell.get s) :
    (memory documents).Separate cell (fun s docs => documents.get s = docs) where
  get_set := hget
  set a _ _ hs := (hset a _).trans hs
  read _ _ := rfl
  change c s := by
    have hkeep : ∀ docs s', cell.get s' = cell.get s →
        cell.get (documents.set docs s') = cell.get s :=
      fun docs s' hs' => (hother docs s').trans hs'
    cases c with
    | write n m => exact stable_write_memory hkeep n m s rfl
    | delete n => exact stable_delete_memory hkeep n s rfl
    | rename source target =>
      have hread : Stable (fun s' => cell.get s' = cell.get s) ((memory documents).read source) :=
        fun _ hs' => hs'
      exact hread.bind (fun d => (stable_write_memory hkeep target d.data).bind fun _ =>
        stable_delete_memory hkeep source) s rfl

/-- A document is moved to a name that another one has, while a cache remembers that one. -/
theorem rename_moves_occupied :
    let home : Yaml.Mapping := [(.string "title", .string "welcome")]
    let shelf : Shelf := ⟨.ofList [("blog.home", home), ("blog.news", [])], 0,
      .ofList [("blog.news", some []), ("blog.start", none)]⟩
    let st := memory Shelf.documentCell
    let I := fun (s : Shelf) docs => Shelf.documentCell.get s = docs
    let fits := fun n (_ : Yaml.Mapping) => isProper n
    (st.Separate Shelf.cacheCell I ∧ I shelf shelf.documents ∧
        Coherent Shelf.cacheCell shelf shelf.documents) ∧
      (st.Moves I fits False shelf.documents "blog.home" "blog.news" shelf ∧
        (Storage.cached st Shelf.cacheCell).Moves (Remembered I Shelf.cacheCell) fits False
          shelf.documents "blog.home" "blog.news" shelf) ∧
      ((Storage.cached st Shelf.cacheCell).rename "blog.home" "blog.news" shelf).2.documents.keys
        = ["blog.news"] := by
  intro home shelf st I fits
  have hseparate : st.Separate Shelf.cacheCell I :=
    separate_memory (fun _ _ => rfl) (fun _ _ => rfl) fun _ _ => rfl
  have hcoherent : Coherent Shelf.cacheCell shelf shelf.documents := by
    intro n known hn
    have hmem : (n, known) ∈ [("blog.news", some ([] : Yaml.Mapping)), ("blog.start", none)] :=
      NameMap.mem_entries_iff.2 hn
    rcases List.mem_cons.1 hmem with heq | hmem
    · cases heq
      simp [shelf, NameMap.ofList, NameMap.get?_insert]
    · cases List.mem_singleton.1 hmem
      simp [shelf, NameMap.ofList, NameMap.get?_insert]
  exact ⟨⟨hseparate, rfl, hcoherent⟩,
    (backed_memory Shelf.documentCell fun _ _ => rfl).rename_moves rfl hseparate rfl hcoherent _ _,
    by decide⟩

/-- **A document that is renamed to its own name** is not moved: it is gone. -/
theorem not_always_moved : ¬∀ (s : Shelf) (source target : String),
    ((memory Shelf.documentCell).rename source target s).1 = .ok () →
      ((memory Shelf.documentCell).rename source target s).2.documents.get? target
        = s.documents.get? source := by
  intro h
  have hgone := h ⟨.ofList [("blog.home", [(.string "title", .string "welcome")])], 0, .empty⟩
    "blog.home" "blog.home" rfl
  cases hgone

end SiteConfig.Storage
