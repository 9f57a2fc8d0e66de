import Mathlib
import SiteConfig.Proofs.Backends

/-!
# What can be found in a storage

To look at a storage is to ask whether it has a document, to read documents, and to list names. What
comes of it is said by three things (`SiteConfig.Storage.Looks`): the documents that there are, the
names that can be asked for at all, and the names that are listed when they are those of documents.

Memory and databases answer for every name, and list everything that there is. A directory refuses a
name that could lead out of it, and does not list a document whose name begins with a dot, though it
has the document and reads it (`SiteConfig.Storage.Directory.looks`). Of a database and of a
directory all documents must be such as can be read, since what they keep are texts.
-/

namespace SiteConfig

open Attempt

namespace Storage

/-! ### Looking -/

/-- **What is found in a storage** in all states that look in one way: whether there is a document
is told for the names that are admitted, and the names of documents are listed as far as they are
shown. Looking does not change how a state looks. -/
structure Looks {σ τ : Type} (st : Storage σ) (view : σ → τ) (v : τ) (docs : Documents)
    (admits : String → Except ConfigError Unit) (shows : String → Bool) : Prop where
  has : ∀ {s}, view s = v → ∀ n,
    (st.has n).Yields view s ((admits n).map fun _ => docs.contains n) v
  read : ∀ {s}, view s = v → ∀ n m, docs.get? n = some m → (st.read n).Yields view s (.ok ⟨n, m⟩) v
  list : ∀ {s}, view s = v → ∀ start,
    (st.list start).Yields view s (.ok ((namesFrom docs start).filter shows)) v
  readMany : ∀ {s}, view s = v → ∀ names, (∀ n ∈ names, ∃ m, docs.get? n = some m) →
    (st.readMany names).Yields view s (.ok (documentsOf docs names)) v

variable {σ : Type} {docs : Documents} {n : String} {m : Yaml.Mapping}

/-- A storage that leaves a state as it is when it is looked at, and reads several documents one by
one. -/
theorem looks_of_apply {st : Storage σ} {s : σ} {admits : String → Except ConfigError Unit}
    {shows : String → Bool} (has : ∀ n, st.has n s = ((admits n).map fun _ => docs.contains n, s))
    (read : ∀ n m, docs.get? n = some m → st.read n s = (.ok ⟨n, m⟩, s))
    (list : ∀ start, st.list start s = (.ok ((namesFrom docs start).filter shows), s))
    (hreadMany : st.readMany = readEach st.read) : st.Looks id s docs admits shows where
  has {s'} hs n := by
    obtain rfl : s' = s := hs
    exact ⟨s', has n, rfl⟩
  read {s'} hs n m hm := by
    obtain rfl : s' = s := hs
    exact ⟨s', read n m hm, rfl⟩
  list {s'} hs start := by
    obtain rfl : s' = s := hs
    exact ⟨s', list start, rfl⟩
  readMany {s'} hs names hnames := by
    rw [hreadMany]
    refine yields_readEach (fun n m s₁ hs₁ hm => ?_) hnames hs
    obtain rfl : s₁ = s := hs₁
    exact ⟨s₁, read n m hm, rfl⟩

theorem mem_namesFrom_iff {α : Type} {docs : NameMap α} {start : String} :
    n ∈ namesFrom docs start ↔ docs.contains n = true ∧ beginsWith start n = true := by
  rw [namesFrom, List.mem_filter, NameMap.mem_keys_iff, NameMap.contains_iff]

theorem sorted_namesFrom {α : Type} (docs : NameMap α) (start : String) :
    (namesFrom docs start).Pairwise (· < ·) := docs.keys_sorted.filter _

theorem filter_true (l : List String) : (l.filter fun _ => true) = l :=
  List.filter_eq_self.2 fun _ _ => rfl

/-- The documents in a cell are found as they are. -/
theorem looks_memory (cell : Cell σ Documents) (s : σ) :
    (memory cell).Looks id s (cell.get s) (fun _ => .ok ()) fun _ => true := by
  refine looks_of_apply (fun _ => rfl) (fun n m hm => ?_) (fun start => ?_) rfl
  · show (readFrom (cell.get s) n, s) = _
    rw [readFrom, hm]
  · rw [filter_true]
    rfl

/-! ### Texts -/

/-- The documents of some texts, as far as they can be read. -/
def textDocuments (texts : Texts) : Documents :=
  .gather texts.keys fun n => (readText texts n).toOption.map (·.data)

/-- **All texts can be read.** -/
def Legible (texts : Texts) : Prop :=
  ∀ n, texts.contains n = true → ∃ m, readText texts n = .ok ⟨n, m⟩

section Texts

variable {texts : Texts}

theorem get?_textDocuments_iff :
    (textDocuments texts).get? n = some m ↔ readText texts n = .ok ⟨n, m⟩ := by
  rw [textDocuments, NameMap.get?_gather fun n m hm => ?_,
    Document.data_eq_some_iff fun _ => Records.name_of_readText]
  rw [Document.data_eq_some_iff fun _ => Records.name_of_readText, readText] at hm
  rcases htext : texts.get? n with _ | text
  · rw [htext] at hm
    cases hm
  · exact NameMap.mem_keys_iff.2 ⟨text, htext⟩

theorem contains_of_textDocuments (h : (textDocuments texts).contains n = true) :
    texts.contains n = true := by
  obtain ⟨m, hm⟩ := NameMap.contains_iff.1 h
  rw [get?_textDocuments_iff, readText] at hm
  rcases htext : texts.get? n with _ | text
  · rw [htext] at hm
    cases hm
  · exact NameMap.contains_iff.2 ⟨text, htext⟩

theorem Legible.contains_eq (h : Legible texts) (n : String) :
    (textDocuments texts).contains n = texts.contains n :=
  Bool.eq_iff_iff.2 ⟨contains_of_textDocuments, fun hn => NameMap.contains_iff.2 <|
    (h n hn).imp fun _ hm => get?_textDocuments_iff.2 hm⟩

/-- **The texts in a cell** are found as the documents that they say. -/
theorem looks_database (place : String) (cell : Cell σ Texts) {s : σ} (h : Legible (cell.get s)) :
    (database place cell).Looks id s (textDocuments (cell.get s)) (fun _ => .ok ())
      fun _ => true := by
  refine looks_of_apply (fun n => ?_) (fun n m hm => ?_) (fun start => ?_) rfl
  · rw [h.contains_eq]
    rfl
  · show (readText (cell.get s) n, s) = _
    rw [get?_textDocuments_iff.1 hm]
  · show (Except.ok (namesFrom (cell.get s) start), s) = _
    rw [filter_true,
      NameMap.eq_of_mem_iff (sorted_namesFrom _ _) (sorted_namesFrom _ _) fun n => ?_]
    rw [mem_namesFrom_iff, mem_namesFrom_iff, h.contains_eq]

end Texts

/-! ### Files -/

namespace Directory

variable {d : Directory} {t : FileTree} {c : FileContent}

theorem dropEnd_fileName (n : String) : ((fileName n).dropEnd suffix.length).toString = n := by
  have htake : ((fileName n).dropEnd suffix.length).toString.toList
      = (fileName n).toList.take ((fileName n).toList.length - 4) := String.toList_copy_dropEnd
  rw [← String.toList_inj, htake, toList_fileName]
  simp

/-- The documents of a directory, as far as they can be read. -/
def documents (d : Directory) (t : FileTree) : Documents :=
  .gather (t.nodes.filterMap fun e => e.1.getLast?.map fun x => (x.dropEnd suffix.length).toString)
    (d.doc? t)

/-- **All documents of a directory can be read**: those that can be asked for, and those that are
listed. -/
def Legible (d : Directory) (t : FileTree) : Prop := ∀ n c, d.Holds t n c →
  checkEntry n = .ok () ∨ Shown n → ∃ m, d.read t n = .ok ⟨n, m⟩

/-- A document that is held is one of the files that there are. -/
theorem Holds.exists_mem_nodes (h : d.Holds t n c) :
    ∃ p, (p ++ [fileName n], .file c) ∈ t.nodes := by
  obtain ⟨p, -, hc⟩ := h
  rw [FileTree.get?_of_ne_nil (by simp)] at hc
  obtain ⟨l, r, hsplit, -⟩ := List.lookup_eq_some_iff.1 hc
  exact ⟨p, hsplit ▸ List.mem_append_right _ List.mem_cons_self⟩

theorem get?_documents (hd : d.path ≠ "") (n : String) : (d.documents t).get? n = d.doc? t n := by
  refine NameMap.get?_gather (fun n m hm => ?_) n
  obtain ⟨-, -, c, hc, -⟩ := (read_eq_ok_iff hd).1 (doc?_eq_some_iff.1 hm)
  obtain ⟨p, hmem⟩ := hc.exists_mem_nodes
  refine List.mem_filterMap.2 ⟨(p ++ [fileName n], .file c), hmem, ?_⟩
  rw [List.getLast?_concat, Option.map_some, dropEnd_fileName]

theorem get?_documents_eq_some_iff (hd : d.path ≠ "") :
    (d.documents t).get? n = some m ↔ d.read t n = .ok ⟨n, m⟩ := by
  rw [get?_documents hd, doc?_eq_some_iff]

/-- A document that is there is one that is held under a name that can be asked for. -/
theorem Legible.contains_iff (h : d.Legible t) (hd : d.path ≠ "") :
    (d.documents t).contains n = true ↔ checkEntry n = .ok () ∧ ∃ c, d.Holds t n c := by
  rw [NameMap.contains_iff]
  simp only [get?_documents_eq_some_iff hd]
  constructor
  · rintro ⟨m, hm⟩
    obtain ⟨hcheck, -, c, hc, -⟩ := (read_eq_ok_iff hd).1 hm
    exact ⟨hcheck, c, hc⟩
  · rintro ⟨hcheck, c, hc⟩
    exact h n c hc (.inl hcheck)

/-- A name that can be asked for is shown unless it begins with a dot. -/
theorem shown_iff (hn : checkEntry n = .ok ()) : Shown n ↔ beginsWith "." n = false := by
  have hne : n.toList ≠ [] := by simpa using ne_empty_of_checkEntry hn
  rw [Shown, toList_fileName, List.head?_append_of_ne_nil _ hne, beginsWith]
  rcases hl : n.toList with _ | ⟨x, l⟩
  · exact absurd hl hne
  · have hbegins : ".".toList.isPrefixOf (x :: l) = ('.' == x) := Bool.and_true _
    rw [hbegins, List.head?_cons, beq_eq_false_iff_ne, ne_eq, ne_eq, Option.some.injEq, eq_comm]

/-- **What is listed**: the names of the documents that are there, but for those that begin with a
dot. -/
theorem list_eq (ht : t.WellFormed) (hd : d.path ≠ "") (h : d.Legible t) (start : String) :
    d.list t start = .ok ((namesFrom (d.documents t) start).filter fun n => !beginsWith "." n) := by
  obtain ⟨l, hl, hsorted, hmem⟩ := exists_list_from ht d start
  rw [hl, NameMap.eq_of_mem_iff hsorted ((sorted_namesFrom _ _).filter _) fun n => ?_]
  rw [hmem, List.mem_filter, mem_namesFrom_iff, h.contains_iff hd, Bool.not_eq_true']
  constructor
  · rintro ⟨hshown, hstart, c, hc⟩
    obtain ⟨m, hm⟩ := h n c hc (.inr hshown)
    have hcheck := ((read_eq_ok_iff hd).1 hm).1
    exact ⟨⟨⟨hcheck, c, hc⟩, hstart⟩, (shown_iff hcheck).1 hshown⟩
  · rintro ⟨⟨⟨hcheck, c, hc⟩, hstart⟩, hdot⟩
    exact ⟨(shown_iff hcheck).2 hdot, hstart, c, hc⟩

/-- A document that can be read is a file. -/
theorem isFile_of_documents (hd : d.path ≠ "") (h : (d.documents t).contains n = true) :
    t.isFile d.workingDir (d.filePath n) = true := by
  obtain ⟨m, hm⟩ := NameMap.contains_iff.1 h
  obtain ⟨-, hentry, c, ⟨p, hp, hc⟩, -⟩ :=
    (read_eq_ok_iff hd).1 ((get?_documents_eq_some_iff hd).1 hm)
  exact FileTree.isFile_iff.2 ⟨_, c, hp.entry hd hentry, hc⟩

/-- Whether there is a document is told for every name that can be asked for. -/
theorem has_eq (hd : d.path ≠ "") (h : d.Legible t) (n : String) :
    d.has t n = (checkEntry n).map fun _ => (d.documents t).contains n := by
  unfold has
  rcases hcheck : checkEntry n with e | ⟨⟩
  · rfl
  · show Except.ok (t.isFile d.workingDir (d.filePath n)) = .ok _
    have hfile : t.isFile d.workingDir (d.filePath n) = (d.documents t).contains n := by
      refine Bool.eq_iff_iff.2 ⟨fun hfile => ?_, isFile_of_documents hd⟩
      obtain ⟨q, c, hq, hc⟩ := FileTree.isFile_iff.1 hfile
      obtain ⟨p, hp, rfl, -⟩ := FileTree.exists_leads_of_entry hd
        (slash_notMem_fileName (slash_notMem_of_checkEntry hcheck)) length_fileName hq
      exact (h.contains_iff hd).2 ⟨hcheck, c, p, hp, hc⟩
    rw [hfile]

/-- **The files of a directory** are found as the documents that they say. -/
theorem looks (cell : Cell σ FileTree) {s : σ} (ht : (cell.get s).WellFormed) (hd : d.path ≠ "")
    (h : d.Legible (cell.get s)) :
    (directory d cell).Looks id s (d.documents (cell.get s)) checkEntry
      fun n => !beginsWith "." n := by
  refine looks_of_apply (fun n => ?_) (fun n m hm => ?_) (fun start => ?_) rfl
  · rw [← has_eq hd h]
    rfl
  · show (d.read (cell.get s) n, s) = _
    rw [(get?_documents_eq_some_iff hd).1 hm]
  · rw [← list_eq ht hd h]
    rfl

end Directory

end Storage

end SiteConfig
