import Mathlib
import SiteConfig.Proofs.Backing
import SiteConfig.Proofs.Contents
import SiteConfig.Proofs.SingleDocument

/-!
# Who a single document is

A document of an entity type is known by two things: its name, which its identifier gives it, and
its `uuid`. What is imported under the name of another document must have the `uuid` of that
document, and what is new must not have the `uuid` of any document of its type. All that a storage
has to be for this is honest (`SiteConfig.Storage.Honest`): it may fail whenever it likes, but it
does not deny that a document is there, and it reads no others than those that there are. Memory,
databases and directories are honest, also where some of their texts cannot be read, and so are the
caches over storages that are backed by a map (`SiteConfig.Storage.Backed.honest_cached`).

The `uuid` that is compared is the text of a scalar, so that a number will do. The `uuid` that a
document is known by afterwards has to be a string. So a document can take the place of another one
and have no `uuid` itself (`SiteConfig.Storage.not_always_identified`), and only where the `uuid` is
written as a string are the two the same (`SiteConfig.Storage.Honest.keeps_identity`).
-/

namespace SiteConfig.Storage

open Attempt SingleImport

/-! ### Honest storages -/

/-- Names that leave out none that are shown. -/
def Complete (docs : Documents) (shows : String → Bool) (start : String) (names : List String) :
    Prop :=
  ∀ n, docs.contains n = true → shows n = true → beginsWith start n = true → n ∈ names

/-- **A storage is honest** about some documents as long as a condition of the state lasts: whatever
else it does, it denies none of them, reads none but them, and lists all that are shown. -/
structure Honest {σ : Type} (st : Storage σ) (I : σ → Prop) (docs : Documents)
    (shows : String → Bool) : Prop where
  has : ∀ n, (st.has n).Gives I fun there => docs.contains n = true → there = true
  read : ∀ n, (st.read n).Gives I fun d => ∃ m, docs.get? n = some m ∧ d = ⟨n, m⟩
  list : ∀ start, (st.list start).Gives I (Complete docs shows start)

variable {σ : Type} {docs : Documents} {shows : String → Bool} {I : σ → Prop}

theorem honest_memory (cell : Cell σ Documents) (docs : Documents) :
    (memory cell).Honest (cell.get · = docs) docs fun _ => true where
  has n s hs := ⟨hs, fun there hthere hn => by
    cases hthere
    rwa [hs]⟩
  read n s hs := ⟨hs, fun d hd => by
    change readFrom (cell.get s) n = .ok d at hd
    rw [hs, readFrom] at hd
    split at hd <;> cases hd
    rename_i m hm
    exact ⟨m, hm, rfl⟩⟩
  list start s hs := ⟨hs, fun names hnames n hn _ hstart => by
    cases hnames
    exact mem_namesFrom_iff.2 ⟨by rwa [hs], hstart⟩⟩

theorem honest_database (place : String) (cell : Cell σ Texts) (texts : Texts) :
    (database place cell).Honest (cell.get · = texts) (textDocuments texts) fun _ => true where
  has n s hs := ⟨hs, fun there hthere hn => by
    cases hthere
    rw [hs]
    exact contains_of_textDocuments hn⟩
  read n s hs := ⟨hs, fun d hd => by
    change readText (cell.get s) n = .ok d at hd
    rw [hs] at hd
    obtain ⟨k, m⟩ := d
    obtain rfl : k = n := Records.name_of_readText hd
    exact ⟨m, get?_textDocuments_iff.2 hd, rfl⟩⟩
  list start s hs := ⟨hs, fun names hnames n hn _ hstart => by
    cases hnames
    exact mem_namesFrom_iff.2 ⟨by rw [hs]; exact contains_of_textDocuments hn, hstart⟩⟩

theorem Directory.honest {d : Directory} (hd : d.path ≠ "") (cell : Cell σ FileTree)
    {t : FileTree} (ht : t.WellFormed) :
    (directory d cell).Honest (cell.get · = t) (d.documents t) fun n => !beginsWith "." n where
  has n s hs := ⟨hs, fun there hthere hn => by
    change d.has (cell.get s) n = .ok there at hthere
    rw [hs] at hthere
    unfold Directory.has at hthere
    rcases hcheck : checkEntry n with e | ⟨⟩ <;> rw [hcheck] at hthere
    · cases hthere
    · cases hthere
      exact isFile_of_documents hd hn⟩
  read n s hs := ⟨hs, fun e he => by
    change d.read (cell.get s) n = .ok e at he
    rw [hs] at he
    obtain ⟨k, m⟩ := e
    obtain rfl : k = n := name_of_read he
    exact ⟨m, (get?_documents_eq_some_iff hd).2 he, rfl⟩⟩
  list start s hs := ⟨hs, fun names hnames n hn hshown hstart => by
    change d.list (cell.get s) start = .ok names at hnames
    obtain ⟨l, hl, -, hmem⟩ := exists_list_from ht d start
    rw [hs, hl] at hnames
    cases hnames
    obtain ⟨m, hm⟩ := NameMap.contains_iff.1 hn
    obtain ⟨hcheck, -, c, hc, -⟩ := (read_eq_ok_iff hd).1 ((get?_documents_eq_some_iff hd).1 hm)
    exact (hmem n).2 ⟨(shown_iff hcheck).2 (by simpa using hshown), hstart, c, hc⟩⟩

section Backed

variable {st : Storage σ} {J : σ → Documents → Prop} {fits : String → Yaml.Mapping → Bool}
  {keeps : Yaml.Mapping → Prop} {fallible : Prop} (h : st.Backed J fits keeps fallible)

include h in
/-- **A storage that is backed by a map is honest** about what it holds, if its lists are. -/
theorem Backed.honest
    (hlist : ∀ start, (st.list start).Gives (J · docs) (Complete docs shows start)) :
    st.Honest (J · docs) docs shows where
  has n s hs := by
    have htells := h.has n hs
    generalize st.has n s = x at htells
    cases htells with
    | told hs₁ => exact ⟨hs₁, fun there hthere hn => by cases hthere; exact hn⟩
    | refused e _ hs₁ => exact ⟨hs₁, nofun⟩
  read n s hs := by
    have hreads := h.read n hs
    generalize st.read n s = x at hreads
    cases hreads with
    | found hm hs₁ => exact ⟨hs₁, fun d hd => by cases hd; exact ⟨_, hm, rfl⟩⟩
    | refused e _ _ hs₁ => exact ⟨hs₁, nofun⟩
  list := hlist

include h in
/-- **A cache over such a storage is honest**, as long as it does not say otherwise. -/
theorem Backed.honest_cached {cell : Cell σ Cache} (hcell : st.Separate cell J)
    (hrename : st.rename = st.plain.rename)
    (hlist : ∀ start, (st.list start).Gives (J · docs) (Complete docs shows start))
    (hleft : ∀ start s, cell.get (st.list start s).2 = cell.get s) :
    (Storage.cached st cell).Honest (Remembered J cell · docs) docs shows :=
  (h.cached hcell hrename).honest fun start => gives_remembered (hlist start) (hleft start)

end Backed

/-! ### What is known of a document -/

/-- **What is known of a document** that may be imported under a name: the identifier that gives it
the name, and that it has the `uuid` of the document that it replaces, or else of none. -/
structure Identified (docs : Documents) (shows : String → Bool) (t : EntityType)
    (data : Yaml.Mapping) (n : String) (replaces : Bool) : Prop where
  named : ∃ id, textOf? data t.idKey = some id ∧ n = t.documentName id
  replaced : replaces = true → ∃ m u, docs.get? n = some m ∧
    (⟨n, m⟩ : Document).uuid? = some u ∧ textOf? data Document.uuidKey = some u
  unused : replaces = false → docs.get? n = none ∧ ∀ k m u, docs.get? k = some m →
    shows k = true → beginsWith s!"{t.configPrefix}." k = true →
      (⟨k, m⟩ : Document).uuid? = some u → textOf? data Document.uuidKey ≠ some u

section Honest

variable {active : Storage σ} (h : active.Honest I docs shows)

include h in
/-- None of the documents that are read has the `uuid`. -/
theorem Honest.gives_checkUnused (uuid : String) (names : List String) :
    (checkUnused active uuid names).Gives I fun _ => ∀ n ∈ names, ∀ m, docs.get? n = some m →
      (⟨n, m⟩ : Document).uuid? ≠ some uuid := by
  induction names with
  | nil => exact gives_pure nofun
  | cons n names ih =>
    refine (h.read n).mapError.bind fun d hd => ?_
    obtain ⟨m, hm, rfl⟩ := hd
    by_cases hu : (⟨n, m⟩ : Document).uuid? = some uuid
    · rw [if_pos hu]
      exact gives_fail _
    · rw [if_neg hu]
      refine fun s hs => (ih s hs).imp_right fun hrest a ha k hk m' hm' => ?_
      obtain rfl | hk := List.mem_cons.1 hk
      · cases hm.symm.trans hm'
        exact hu
      · exact hrest a ha k hk m' hm'

theorem checkReplaced_eq_ok {uuid : Option String} {d : Document}
    (h : checkReplaced uuid d = .ok ()) : ∃ u, d.uuid? = some u ∧ uuid = some u := by
  unfold checkReplaced at h
  split at h
  · cases h
  · split at h
    · rename_i hu
      exact ⟨_, hu, rfl⟩
    · cases h

include h in
theorem Honest.gives_checkEntity (t : EntityType) (data : Yaml.Mapping) :
    (checkEntity active t data).Gives I fun x => Identified docs shows t data x.1 x.2 := by
  unfold checkEntity
  rcases hid : textOf? data t.idKey with _ | id
  · exact gives_fail _
  have hnamed : ∃ id', textOf? data t.idKey = some id' ∧ t.documentName id = t.documentName id' :=
    ⟨id, hid, rfl⟩
  refine (h.has _).mapError.bind fun there hthere => ?_
  rcases there with _ | _
  · have hnone : docs.get? (t.documentName id) = none :=
      NameMap.contains_eq_false_iff.1 (Bool.eq_false_iff.2 fun hn => Bool.false_ne_true (hthere hn))
    simp only [Bool.false_eq_true, if_false]
    rcases huuid : textOf? data Document.uuidKey with _ | uuid
    · exact gives_pure ⟨hnamed, nofun, fun _ => ⟨hnone, fun _ _ _ _ _ _ _ => by rw [huuid]; nofun⟩⟩
    · refine (h.list _).mapError.bind fun names hnames => ?_
      refine (h.gives_checkUnused uuid names).bind fun _ hunused => gives_pure
        ⟨hnamed, nofun, fun _ => ⟨hnone, fun k m u hk hshown hstart hu => ?_⟩⟩
      rw [huuid]
      intro heq
      obtain rfl := Option.some.inj heq
      exact hunused k (hnames k (NameMap.contains_iff.2 ⟨m, hk⟩) hshown hstart) m hk hu
  · simp only [if_true]
    refine (h.read _).mapError.bind fun existing hexisting => ?_
    obtain ⟨m, hm, rfl⟩ := hexisting
    refine (gives_ofExcept (P := fun _ => ∃ u, (⟨t.documentName id, m⟩ : Document).uuid? = some u ∧
      textOf? data Document.uuidKey = some u) fun _ hok => checkReplaced_eq_ok hok).bind
        fun _ hu => ?_
    obtain ⟨u, hu, huuid⟩ := hu
    exact gives_pure ⟨hnamed, fun _ => ⟨m, u, hm, hu, huuid⟩, nofun⟩

/-- A `uuid` that is written as a string is the one that the document is known by. -/
theorem uuid?_eq_textOf? {d : Document}
    (h : ∀ w, d.get? Document.uuidKey = some w → ∃ u, w = .string u) :
    d.uuid? = textOf? d.data Document.uuidKey := by
  unfold Document.uuid? textOf?
  change (d.get? Document.uuidKey).bind _ = (d.get? Document.uuidKey).bind _
  rcases hw : d.get? Document.uuidKey with _ | w
  · rfl
  · obtain ⟨u, rfl⟩ := h w hw
    rfl

/-- The document that was pasted is the one that is going to be read. -/
theorem read_compareWith (active : Storage σ) (n : String) (data : Yaml.Mapping) (s : σ) :
    (compareWith active n data).source.read n s = (.ok ⟨n, data⟩, s) := by
  have hget : (NameMap.empty.insert n data).get? n = some data := by
    rw [NameMap.get?_insert, if_pos rfl]
  refine bind_eq_ok_iff.2 ⟨NameMap.empty.insert n data, s, rfl, ?_⟩
  simp only [hget]
  rfl

include h in
/-- **A document of an entity type keeps its identity.** When it has been prepared its name is that
of its identifier. If it replaces another document then that has a `uuid`, which is the text of its
own; if it is new then no document of its type that is shown has such a `uuid`. Its own is no other
than this text, if it is written as a string or not at all. -/
theorem Honest.keeps_identity {t : EntityType} {chosen : Option String} {text : String} {s s' : σ}
    {p : SingleImport σ} (hs : I s)
    (hprepare : prepare active (.entity t chosen) text s = (.ok p, s')) :
    ∃ staged : Document, (∀ s, p.comparer.source.read p.name s = (.ok staged, s)) ∧
      Identified docs shows t staged.data p.name p.replaces ∧
      ((∀ w, staged.get? Document.uuidKey = some w → ∃ u, w = .string u) →
        staged.uuid? = textOf? staged.data Document.uuidKey) := by
  obtain ⟨m, s₁, hm, hprepare⟩ := bind_eq_ok_iff.1 hprepare
  obtain ⟨-, rfl⟩ := ofExcept_eq_ok_iff.1 hm
  obtain ⟨⟨n, data, replaces⟩, s₂, hlocate, hprepare⟩ := bind_eq_ok_iff.1 hprepare
  obtain ⟨⟨⟩, s₃, -, hprepare⟩ := bind_eq_ok_iff.1 hprepare
  obtain ⟨comparison, s₄, -, hprepare⟩ := bind_eq_ok_iff.1 hprepare
  -- only what is asked for in order to locate the document matters here
  obtain ⟨⟨n', replaces'⟩, s₅, hcheck, hlocate⟩ := bind_eq_ok_iff.1 hlocate
  cases hlocate
  have hidentified := (h.gives_checkEntity t _ s hs).2 (n, replaces) (by rw [hcheck])
  split at hprepare
  · cases hprepare
    exact ⟨_, read_compareWith active n _, hidentified, uuid?_eq_textOf?⟩
  · cases hprepare

end Honest

/-! ### Pages and their identity -/

/-- What a page is prepared as: its name, whether it replaces another one, and its `uuid`. -/
def preparedPage (chosen : Option String) (text : String) (b : Bench) :
    Option (String × Bool × Option String) :=
  match prepare (memory Bench.documents) (.entity Bench.page chosen) text b with
  | (.ok p, b) =>
    (p.comparer.source.read p.name b).1.toOption.map fun d => (p.name, p.replaces, d.uuid?)
  | _ => none

theorem exists_staged {chosen : Option String} {text n : String} {b : Bench} {replaces : Bool}
    {uuid : Option String} (h : preparedPage chosen text b = some (n, replaces, uuid)) :
    ∃ p b' staged,
      prepare (memory Bench.documents) (.entity Bench.page chosen) text b = (.ok p, b') ∧
      (p.comparer.source.read p.name b').1 = .ok staged ∧ p.name = n ∧ p.replaces = replaces ∧
      staged.uuid? = uuid := by
  unfold preparedPage at h
  split at h
  · rename_i p b' hprepare
    obtain ⟨staged, hread, hfields⟩ := Option.map_eq_some_iff.1 h
    cases hfields
    exact ⟨p, b', staged, hprepare, eq_ok_of_toOption hread, rfl, rfl, rfl⟩
  · cases h

/-- A page takes the place of one with its identifier and its `uuid`. -/
theorem keeps_identity_start :
    Bench.documents.get Bench.started = Bench.started.target ∧ ∃ p b' staged,
      prepare (memory Bench.documents) (.entity Bench.page (some "start")) "uuid: u1\nid: home\n"
        Bench.started = (.ok p, b') ∧
      (p.comparer.source.read p.name b').1 = .ok staged ∧
      Identified Bench.started.target (fun _ => true) Bench.page staged.data "blog.start" true ∧
      staged.uuid? = some "u1" := by
  obtain ⟨p, b', d, hprepare, hread, hname, hreplaces, huuid⟩ := exists_staged
    (show preparedPage (some "start") "uuid: u1\nid: home\n" Bench.started
      = some ("blog.start", true, some "u1") by decide +kernel)
  obtain ⟨staged, hstaged, hidentified, -⟩ :=
    (honest_memory Bench.documents Bench.started.target).keeps_identity rfl hprepare
  rw [hname, hreplaces] at hidentified
  obtain rfl : staged = d := by
    rw [hstaged] at hread
    exact Except.ok.inj hread
  exact ⟨rfl, p, b', staged, hprepare, hread, hidentified, huuid⟩

/-- **A document does not always have the `uuid` of the one that it replaces**: a number is compared
by its text, and is no `uuid`. -/
theorem not_always_identified :
    ¬∀ (text : String) (b b' : Bench) (p : SingleImport Bench) (staged : Document),
      prepare (memory Bench.documents) (.entity Bench.page none) text b = (.ok p, b') →
      (p.comparer.source.read p.name b').1 = .ok staged → p.replaces = true →
      ∃ m u, b.target.get? p.name = some m ∧ (⟨p.name, m⟩ : Document).uuid? = some u ∧
        staged.uuid? = some u := by
  intro h
  obtain ⟨p, b', staged, hprepare, hread, -, hreplaces, huuid⟩ := exists_staged
    (show preparedPage none "id: home\nuuid: 1\n" { Bench.started with
        target := .ofList [("blog.home", [(.string "uuid", .string "1")])] }
      = some ("blog.home", true, none) by decide +kernel)
  obtain ⟨m, u, -, -, hstaged⟩ := h _ _ _ _ _ hprepare hread hreplaces
  rw [huuid] at hstaged
  cases hstaged

end SiteConfig.Storage
