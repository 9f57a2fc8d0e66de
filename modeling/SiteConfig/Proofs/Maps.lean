import Mathlib
import SiteConfig.Proofs.Keeping

/-!
# Storages that are maps

A storage is a map (`SiteConfig.Storage.Maps`) if it has, lists and reads the documents that a state
is said to hold, and binds what is written. It need not always answer: it is the answers that have
to be right. Nor need it take every document, since a text must say what has been written.

Memory is a map, and so is whatever is backed by one, as long as no document is held that would not
be listed (`SiteConfig.Storage.Backed.maps`). So databases are maps, caches over maps are, and
directories are where no name begins with a dot.
-/

namespace SiteConfig

open Attempt

namespace Storage

/-- **A storage is a map** in the states that are said to hold some documents. As far as it answers,
it tells whether a document is there, lists the names, and reads the documents that there are, and
none of these is missing; this leaves the documents as they are. What it takes is bound once it has
been written. -/
structure Maps {σ : Type} (st : Storage σ) (I : σ → Documents → Prop)
    (takes : String → Yaml.Mapping → Prop) : Prop where
  has : ∀ docs n, (st.has n).Gives (I · docs) (· = docs.contains n)
  list : ∀ docs, (st.list "").Gives (I · docs) (· = docs.keys)
  stable_list : ∀ docs start, Stable (I · docs) (st.list start)
  read : ∀ docs n, (st.read n).Gives (I · docs) fun d => ∀ m, docs.get? n = some m → d = ⟨n, m⟩
  found : ∀ {s docs n e}, I s docs → docs.contains n = true → (st.read n s).1 = .error e →
    e.isNotFound = false
  readMany : ∀ docs names, (st.readMany names).Gives (I · docs) fun ds =>
    (∀ n ∈ names, docs.contains n = true) → ds = documentsOf docs names
  written : ∀ {s s' docs n m}, I s docs → takes n m → st.write n m s = (.ok (), s') →
    I s' (docs.insert n m)

variable {σ : Type} {st : Storage σ} {docs : Documents} {n : String} {m : Yaml.Mapping}

theorem documentsOf_cons (h : docs.get? n = some m) (names : List String) :
    documentsOf docs (n :: names) = ⟨n, m⟩ :: documentsOf docs names := by
  rw [documentsOf, List.filterMap_cons, h]
  rfl

/-- Reading documents one by one gives those that there are, if each of them can be read. -/
theorem gives_readEach {read : String → Attempt σ ConfigError Document} {I : σ → Prop}
    (hread : ∀ n, (read n).Gives I fun d => ∀ m, docs.get? n = some m → d = ⟨n, m⟩)
    (hfound : ∀ n s e, I s → docs.contains n = true → (read n s).1 = .error e →
      e.isNotFound = false) (names : List String) :
    (readEach read names).Gives I fun ds =>
      (∀ n ∈ names, docs.contains n = true) → ds = documentsOf docs names := by
  induction names with
  | nil => exact gives_pure fun _ => rfl
  | cons n names ih =>
    refine Gives.bind (P := fun o => ∀ m, docs.get? n = some m → o = some ⟨n, m⟩) ?_ fun o ho =>
      ih.bind fun ds hds => gives_pure fun hall => ?_
    · -- a document that there is is not left out
      intro s hs
      obtain ⟨hI, hdoc⟩ := hread n s hs
      have hthere := hfound n s
      rw [Attempt.recover, bind_apply]
      generalize read n s = x at hI hdoc hthere
      rcases x with ⟨e | d, s'⟩
      · rcases he : e.isNotFound with _ | _
        · simp only [he, Bool.false_eq_true, if_false]
          exact ⟨hI, fun o ho => by cases ho⟩
        · simp only [he, if_true]
          refine ⟨hI, fun o _ m hm => ?_⟩
          have hno := hthere e hs (NameMap.contains_iff.2 ⟨m, hm⟩) rfl
          rw [he] at hno
          cases hno
      · refine ⟨hI, fun o ho m hm => ?_⟩
        cases ho
        rw [hdoc d rfl m hm]
    · obtain ⟨m, hm⟩ := NameMap.contains_iff.1 (hall n List.mem_cons_self)
      rw [ho m hm, hds fun k hk => hall k (List.mem_cons_of_mem n hk), documentsOf_cons hm]
      rfl

/-! ### Storages that are backed by a map -/

section Backed

variable {I : σ → Documents → Prop} {fits : String → Yaml.Mapping → Bool}
  {keeps : Yaml.Mapping → Prop} {fallible : Prop} {shows : String → Bool}
  (h : st.Backed I fits keeps fallible)

/-- **All documents are shown.** -/
def AllShown (shows : String → Bool) (docs : Documents) : Prop :=
  ∀ n, docs.contains n = true → shows n = true

theorem AllShown.insert (h : AllShown shows docs) (hn : shows n = true) (m : Yaml.Mapping) :
    AllShown shows (docs.insert n m) := by
  intro k hk
  rw [NameMap.contains, NameMap.get?_insert] at hk
  split at hk
  · rename_i heq
    rwa [heq]
  · exact h k hk

include h in
theorem Backed.gives_has (n : String) : (st.has n).Gives (I · docs) (· = docs.contains n) := by
  intro s hs
  have htells := h.has n hs
  generalize st.has n s = x at htells
  cases htells with
  | told hs₁ => exact ⟨hs₁, fun b hb => by cases hb; rfl⟩
  | refused e _ hs₁ => exact ⟨hs₁, nofun⟩

include h in
theorem Backed.gives_read (n : String) :
    (st.read n).Gives (I · docs) fun d => ∀ m, docs.get? n = some m → d = ⟨n, m⟩ := by
  intro s hs
  have hreads := h.read n hs
  generalize st.read n s = x at hreads
  cases hreads with
  | found hm hs₁ =>
    refine ⟨hs₁, fun d hd m' hm' => ?_⟩
    cases hd
    cases hm.symm.trans hm'
    rfl
  | refused e _ _ hs₁ => exact ⟨hs₁, nofun⟩

include h in
theorem Backed.not_missing {s : σ} {e : ConfigError} (hs : I s docs)
    (hn : docs.contains n = true) (he : (st.read n s).1 = .error e) : e.isNotFound = false := by
  have hreads := h.read n hs
  generalize st.read n s = x at hreads he
  cases hreads with
  | found _ _ => cases he
  | refused e' hmissing _ _ =>
    cases he
    refine Bool.eq_false_iff.2 fun hno => ?_
    rw [NameMap.contains, hmissing hno] at hn
    cases hn

include h in
/-- **What is backed by a map is a map**, where all documents are shown in lists. -/
theorem Backed.maps
    (hlist : ∀ docs start,
      (st.list start).Gives (I · docs) (· = (namesFrom docs start).filter shows))
    (hmany : st.readMany = readEach st.read) :
    st.Maps (fun s docs => I s docs ∧ AllShown shows docs) fun n m => keeps m ∧ shows n = true where
  has docs n := .given fun _ => h.gives_has n
  list docs := .given fun hshown s hs => by
    refine (hlist docs "" s hs).imp_right fun hnames names hgiven => ?_
    rw [hnames names hgiven, namesFrom_empty, List.filter_eq_self]
    exact fun n hn => hshown n (NameMap.contains_of_mem_keys hn)
  stable_list docs start s hs := ⟨(hlist docs start s hs.1).1, hs.2⟩
  read docs n := .given fun _ => h.gives_read n
  found hs := h.not_missing hs.1
  readMany docs names := by
    rw [hmany]
    exact gives_readEach (fun n => .given fun _ => h.gives_read n)
      (fun _ _ _ hs => h.not_missing hs.1) names
  written := by
    rintro s s' docs n m ⟨hs, hshown⟩ ⟨hm, hn⟩ hwrite
    obtain ⟨docs', hdoes, hs'⟩ := h.write n m hs hm
    rw [hwrite] at hdoes hs'
    cases hdoes with
    | made _ => exact ⟨hs', hshown.insert hn m⟩

include h in
/-- **A cache over a map is a map**, if listing does not touch it. -/
theorem Backed.maps_cached {cell : Cell σ Cache} (hcell : st.Separate cell I)
    (hrename : st.rename = st.plain.rename)
    (hlist : ∀ docs start,
      (st.list start).Gives (I · docs) (· = (namesFrom docs start).filter shows))
    (hleft : ∀ start s, cell.get (st.list start s).2 = cell.get s) :
    (Storage.cached st cell).Maps (fun s docs => Remembered I cell s docs ∧ AllShown shows docs)
      fun n m => keeps m ∧ shows n = true :=
  (h.cached hcell hrename).maps
    (fun docs start => gives_remembered (hlist docs start) (hleft start)) rfl

end Backed

/-! ### The backends -/

section Backends

/-- **The documents in a cell** are a map, which takes all of them. -/
theorem maps_memory (cell : Cell σ Documents)
    (hcell : ∀ docs s, cell.get (cell.set docs s) = docs) :
    (memory cell).Maps (fun s docs => cell.get s = docs) fun _ _ => True := by
  have hlist : ∀ docs start, ((memory cell).list start).Gives (cell.get · = docs)
      (· = (namesFrom docs start).filter fun _ => true) := by
    rintro docs start s rfl
    exact ⟨rfl, fun names hnames => by cases hnames; rw [filter_true]⟩
  simpa [AllShown] using (backed_memory cell hcell).maps hlist rfl

/-- **The texts in a cell** are a map, which takes what reads back. -/
theorem maps_database (place : String) {cell : Cell σ Texts}
    (hcell : ∀ texts s, cell.get (cell.set texts s) = texts) :
    (database place cell).Maps
      (fun s docs => Faithful (cell.get s) ∧ textDocuments (cell.get s) = docs)
      fun _ m => Yaml.ReadsBack m := by
  have hlist : ∀ docs start, ((database place cell).list start).Gives
      (fun s => Faithful (cell.get s) ∧ textDocuments (cell.get s) = docs)
      (· = (namesFrom docs start).filter fun _ => true) := by
    rintro docs start s ⟨hs, rfl⟩
    exact ⟨⟨hs, rfl⟩, fun names hnames => Except.ok.inj (hnames.symm.trans ((hs.answers place).list start))⟩
  simpa [AllShown] using (backed_database place hcell).maps hlist rfl

/-- **A tidy directory** is a map if no name begins with a dot. It takes what reads back. -/
theorem Directory.maps {d : Directory} {cell : Cell σ FileTree} (hd : d.path ≠ "")
    (hcell : ∀ t s, cell.get (cell.set t s) = t) :
    (directory d cell).Maps
      (fun s docs => (d.Tidy (cell.get s) ∧ d.documents (cell.get s) = docs) ∧
        AllShown (fun n => !beginsWith "." n) docs)
      fun n m => Yaml.ReadsBack m ∧ (!beginsWith "." n) = true := by
  refine (Directory.backed hd hcell).maps (fun docs start => ?_) rfl
  rintro s ⟨htidy, rfl⟩
  exact ⟨⟨htidy, rfl⟩, fun names hnames =>
    Except.ok.inj (hnames.symm.trans ((htidy.answers hd).list start))⟩

end Backends

end Storage

end SiteConfig
