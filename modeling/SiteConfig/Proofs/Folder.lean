import Mathlib
import SiteConfig.Proofs.FileTree
import SiteConfig.Proofs.Texts
import SiteConfig.Storage.Directory

/-!
# What a directory of documents holds

A document of a directory is a file that has the document's name and a suffix. Reading and
listing do not see the same documents: a file whose name begins with a dot can be read, as
long as its name is known, but it is never listed (`SiteConfig.Storage.Directory.Shown`).

Writing a document goes by way of a draft, which is another file of the same directory. It is
no document, because it does not end in the suffix, and it is gone when the writing is over;
so all that a successful write changes is the one document, for this directory and for any
other one (`SiteConfig.Storage.Directory.Revises`).
-/

namespace SiteConfig.Storage.Directory

variable {d a : Directory} {t t' : FileTree} {p q : Place} {n k : String} {c : FileContent}

/-! ### Names and files -/

/-- The file of a document. -/
def fileName (n : String) : String := n ++ suffix

/-- The file that a document is written to first. -/
def draftName (n : String) : String := "." ++ n ++ suffix ++ ".tmp"

/-- Whether the file of a document is listed, which hidden files are not. -/
def Shown (n : String) : Prop := (fileName n).toList.head? ≠ some '.'

theorem toList_suffix : suffix.toList = ['.', 'y', 'm', 'l'] := rfl

theorem toList_fileName (n : String) : (fileName n).toList = n.toList ++ ['.', 'y', 'm', 'l'] :=
  String.toList_append

theorem toList_draftName (n : String) :
    (draftName n).toList = '.' :: n.toList ++ ['.', 'y', 'm', 'l', '.', 't', 'm', 'p'] := by
  simp [draftName, suffix, String.toList_append]

theorem fileName_inj : fileName n = fileName k ↔ n = k := by
  rw [← String.toList_inj, toList_fileName, toList_fileName, List.append_cancel_right_eq,
    String.toList_inj]

/-- Drafts are no documents: they end in another way. -/
theorem fileName_ne_draftName : fileName n ≠ draftName k := by
  rw [ne_eq, ← String.toList_inj, toList_fileName, toList_draftName]
  intro h
  have hlast := congrArg List.getLast? h
  rw [List.getLast?_append, List.getLast?_append] at hlast
  cases hlast

/-- A name that neither is blank nor begins with a dot is shown. -/
theorem shown_of_head (hne : n ≠ "") (h : n.toList.head? ≠ some '.') : Shown n := by
  rw [Shown, toList_fileName, List.head?_append_of_ne_nil _ (by simpa using hne)]
  exact h

/-- A file is that of a document when it is shown and ends in the suffix. -/
theorem documentOf?_eq_some_iff {x : String} :
    documentOf? x = some n ↔ Shown n ∧ x = fileName n := by
  have hends : x.endsWith suffix = true ↔ suffix.toList <:+ x.toList := by
    rw [String.endsWith_eq_endsWith_toSlice, String.Slice.endsWith_string_iff, String.copy_toSlice]
  have hdrop : ∀ l, x.toList = l ++ suffix.toList →
      (x.dropEnd suffix.length).toString.toList = l := by
    intro l hl
    have htake : (x.dropEnd suffix.length).toString.toList
        = x.toList.take (x.toList.length - 4) := String.toList_copy_dropEnd
    rw [htake, hl, toList_suffix]
    simp
  unfold documentOf?
  constructor
  · intro h
    split at h
    · cases h
    · rename_i hshown
      split at h
      · rename_i hsuffix
        obtain ⟨l, hl⟩ := hends.1 hsuffix
        cases h
        have hfile : x = fileName (x.dropEnd suffix.length).toString := by
          rw [← String.toList_inj, fileName, String.toList_append, hdrop l hl.symm, hl]
        exact ⟨fun hhead => hshown (by rw [hfile]; exact hhead), hfile⟩
      · cases h
  · rintro ⟨hshown, rfl⟩
    rw [if_neg hshown, if_pos (hends.2 ⟨n.toList, (toList_fileName n).symm⟩), Option.some.injEq, ← String.toList_inj]
    exact hdrop n.toList (toList_fileName n)

/-! ### Documents in a tree -/

/-- **A directory holds a document**, in a file with some content. -/
def Holds (d : Directory) (t : FileTree) (n : String) (c : FileContent) : Prop :=
  ∃ p, t.Leads d.workingDir d.path p ∧ t.get? (p ++ [fileName n]) = some (.file c)

theorem Holds.unique {c' : FileContent} (h : d.Holds t n c) (h' : d.Holds t n c') : c = c' := by
  obtain ⟨p, hp, hc⟩ := h
  obtain ⟨q, hq, hc'⟩ := h'
  obtain rfl := hp.unique hq
  rw [hc] at hc'
  cases hc'
  rfl

/-- The names of the documents among the children of a directory. -/
def documentNames (children : NameMap FileNode) : List String :=
  children.entries.filterMap fun e =>
    match e.2 with
    | .file _ => documentOf? e.1
    | .directory => none

theorem mem_documentNames_iff {children : NameMap FileNode} : n ∈ documentNames children ↔
    Shown n ∧ ∃ c, children.get? (fileName n) = some (.file c) := by
  rw [documentNames, List.mem_filterMap]
  constructor
  · rintro ⟨⟨x, node⟩, he, hn⟩
    cases node with
    | directory => cases hn
    | file c =>
      obtain ⟨hshown, rfl⟩ := documentOf?_eq_some_iff.1 hn
      exact ⟨hshown, c, NameMap.mem_entries_iff.1 he⟩
  · rintro ⟨hshown, c, hc⟩
    exact ⟨_, NameMap.mem_entries_iff.2 hc, documentOf?_eq_some_iff.2 ⟨hshown, rfl⟩⟩

theorem nodup_documentNames (children : NameMap FileNode) : (documentNames children).Nodup := by
  refine List.Pairwise.filterMap _ (fun e e' hlt n hn n' hn' => ?_) children.sorted
  -- files with different names belong to different documents
  have hfile : ∀ {e : String × FileNode} {n : String}, (match e.2 with
      | .file _ => documentOf? e.1
      | .directory => none) = some n → e.1 = fileName n := by
    rintro ⟨x, node⟩ n hn
    cases node with
    | directory => cases hn
    | file c => exact (documentOf?_eq_some_iff.1 hn).2
  rintro rfl
  rw [hfile hn, hfile hn'] at hlt
  exact lt_irrefl _ hlt

theorem list_of_leads (h : t.Leads d.workingDir d.path p) (start : String) : d.list t start =
    .ok (((documentNames (t.children p)).filter (beginsWith start)).mergeSort
      fun a b => !(b < a : Bool)) := by
  have hdir : t.isDirectory d.workingDir d.path = true := FileTree.isDirectory_iff.2 ⟨p, h⟩
  unfold list
  rw [hdir, h.list]
  rfl

/-- **What is listed**: the documents that are shown and whose names begin with a text, in the order
of their names. -/
theorem exists_list_from (ht : t.WellFormed) (d : Directory) (start : String) :
    ∃ l, d.list t start = .ok l ∧ l.Pairwise (· < ·) ∧
      ∀ n, n ∈ l ↔ Shown n ∧ beginsWith start n = true ∧ ∃ c, d.Holds t n c := by
  by_cases hdir : t.isDirectory d.workingDir d.path = true
  · obtain ⟨p, hp⟩ := FileTree.isDirectory_iff.1 hdir
    refine ⟨_, list_of_leads hp start, ?_, fun n => ?_⟩
    · have hnodup := (List.mergeSort_perm ((documentNames (t.children p)).filter (beginsWith start))
        fun a b => !(b < a : Bool)).nodup_iff.2 ((nodup_documentNames _).filter _)
      exact ((NameMap.sorted_mergeSort _).and hnodup).imp fun h => lt_of_le_of_ne h.1 h.2
    · rw [List.mem_mergeSort, List.mem_filter, mem_documentNames_iff, FileTree.get?_children ht,
        and_assoc, and_comm (b := beginsWith start n = true)]
      refine and_congr_right fun _ => and_congr_right fun _ => exists_congr fun c =>
        ⟨fun h => ⟨p, hp, h⟩, ?_⟩
      rintro ⟨q, hq, h⟩
      obtain rfl := hp.unique hq
      exact h
  · refine ⟨[], ?_, .nil, fun n => ?_⟩
    · rw [list, if_pos (by simpa using hdir)]
    · refine iff_of_false List.not_mem_nil ?_
      rintro ⟨-, -, c, p, hp, -⟩
      exact hdir (FileTree.isDirectory_iff.2 ⟨p, hp⟩)

/-- All documents that are shown are listed. -/
theorem exists_list (ht : t.WellFormed) (d : Directory) : ∃ l, d.list t "" = .ok l ∧
    l.Pairwise (· < ·) ∧ ∀ n, n ∈ l ↔ Shown n ∧ ∃ c, d.Holds t n c := by
  obtain ⟨l, hl, hsorted, hmem⟩ := exists_list_from ht d ""
  refine ⟨l, hl, hsorted, fun n => ?_⟩
  rw [hmem, and_iff_right (a := beginsWith "" n = true) rfl]

/-- The list is a matter of what is held. -/
theorem list_congr (ht : t.WellFormed) (ht' : t'.WellFormed)
    (h : ∀ n, Shown n → ((∃ c, d.Holds t n c) ↔ ∃ c, d.Holds t' n c)) :
    d.list t "" = d.list t' "" := by
  obtain ⟨l, hl, hsorted, hmem⟩ := exists_list ht d
  obtain ⟨l', hl', hsorted', hmem'⟩ := exists_list ht' d
  rw [hl, hl', NameMap.eq_of_mem_iff hsorted hsorted' fun n => ?_]
  rw [hmem, hmem']
  exact and_congr_right (h n)

/-! ### Reading -/

/-- The document of a file. -/
def decode (n : String) (c : FileContent) : Except ConfigError Document :=
  match c.text? with
  | some text => Document.ofYaml n text
  | none => .error (.os .invalidText)

theorem slash_notMem_of_checkEntry (h : checkEntry n = .ok ()) : '/' ∉ n.toList := by
  intro hmem
  unfold checkEntry at h
  split at h
  · cases h
  · split at h
    · cases h
    · rename_i hno
      have := List.find?_eq_none.1 hno '/' hmem
      simp at this

theorem ne_empty_of_checkEntry (h : checkEntry n = .ok ()) : n ≠ "" := by
  rintro rfl
  cases h

theorem slash_notMem_fileName (h : '/' ∉ n.toList) : '/' ∉ (fileName n).toList := by
  rw [toList_fileName, List.mem_append, not_or]
  exact ⟨h, by decide⟩

theorem length_fileName : 3 ≤ (fileName n).toList.length := by
  rw [toList_fileName, List.length_append]
  exact Nat.le_add_left_of_le (by decide)

theorem read_eq_ok_iff_content {e : Document} : d.read t n = .ok e ↔
    checkEntry n = .ok () ∧ ∃ c, t.content d.workingDir (d.filePath n) = .ok c ∧
      decode n c = .ok e := by
  unfold read
  rcases hcheck : checkEntry n with e' | u
  · exact iff_of_false (fun h => by cases h) fun h => by cases h.1
  · rcases hcontent : t.content d.workingDir (d.filePath n) with o | c
    · refine iff_of_false (fun h => ?_) fun ⟨_, c, hc, _⟩ => by cases hc
      cases o <;> cases h
    · exact ⟨fun h => ⟨rfl, c, rfl, h⟩, fun ⟨_, c', hc', h⟩ => by cases hc'; exact h⟩

/-- **What can be read**: the documents that the directory holds in files that can be reached
and understood. -/
theorem read_eq_ok_iff (hd : d.path ≠ "") {e : Document} : d.read t n = .ok e ↔
    checkEntry n = .ok () ∧ FileTree.EntryName (fileName n) ∧
      ∃ c, d.Holds t n c ∧ decode n c = .ok e := by
  rw [read_eq_ok_iff_content]
  refine and_congr_right fun hcheck => ?_
  constructor
  · rintro ⟨c, hc, hdecode⟩
    obtain ⟨q, hq, hfile⟩ := FileTree.content_eq_ok_iff.1 hc
    obtain ⟨p, hp, rfl, hname⟩ := FileTree.exists_leads_of_entry hd
      (slash_notMem_fileName (slash_notMem_of_checkEntry hcheck)) length_fileName hq
    exact ⟨hname, c, ⟨p, hp, hfile⟩, hdecode⟩
  · rintro ⟨hname, c, ⟨p, hp, hfile⟩, hdecode⟩
    exact ⟨c, FileTree.content_eq_ok_iff.2 ⟨_, hp.entry hd hname, hfile⟩, hdecode⟩

/-- Documents are read under the name that was asked for. -/
theorem name_of_read {e : Document} (h : d.read t n = .ok e) : e.name = n := by
  obtain ⟨-, c, -, hdecode⟩ := read_eq_ok_iff_content.1 h
  unfold decode at hdecode
  split at hdecode
  · exact Document.name_of_ofYaml hdecode
  · cases hdecode

/-- What can be read is a matter of what is held. -/
theorem read_eq_ok_congr (hd : d.path ≠ "") (h : ∀ c, d.Holds t n c ↔ d.Holds t' n c)
    {e : Document} : d.read t n = .ok e ↔ d.read t' n = .ok e := by
  rw [read_eq_ok_iff hd, read_eq_ok_iff hd]
  simp only [h]

/-! ### Writing and deleting -/

/-- **One document is revised**, and nothing else: it has some new content, or none. A draft may
have been made on the way. -/
structure Revises (d : Directory) (n : String) (content : Option FileContent)
    (t t' : FileTree) (q : Place) : Prop where
  wellFormed : t'.WellFormed
  keeps : t.Keeps t'
  leads : t'.Leads d.workingDir d.path q
  file : ∀ c, t'.get? (q ++ [fileName n]) = some (.file c) ↔ content = some c
  other : ∀ p c, p ≠ q ++ [fileName n] → p ≠ q ++ [draftName n] →
    (t'.get? p = some (.file c) ↔ t.get? p = some (.file c))

theorem entry_ne_draft (q : Place) (n k : String) : q ++ [fileName n] ≠ q ++ [draftName k] :=
  fun h => fileName_ne_draftName (List.singleton_inj.1 (List.append_cancel_left h))

/-- What is done one after the other when a document is written. -/
theorem exists_of_write {m : Yaml.Mapping} (h : d.write n m t = (.ok (), t')) :
    validateName n = .ok () ∧ ∃ text g t₁, Yaml.write m = .ok text ∧
      t.makeDirectories d.workingDir d.path = .ok g ∧
      g.writeFile d.workingDir (d.draftPath n) (.text text) = .ok t₁ ∧
      t₁.renameFile d.workingDir (d.draftPath n) (d.filePath n) = .ok t' := by
  unfold write at h
  obtain ⟨_, _, hcheck, h⟩ := Attempt.bind_eq_ok_iff.1 h
  obtain ⟨hname, rfl⟩ := Attempt.ofExcept_eq_ok_iff.1 hcheck
  obtain ⟨_, g, hmake, h⟩ := Attempt.bind_eq_ok_iff.1 h
  obtain ⟨text, _, htext, h⟩ := Attempt.bind_eq_ok_iff.1 h
  obtain ⟨hwrite, rfl⟩ := Attempt.ofExcept_eq_ok_iff.1 htext
  obtain ⟨_, t₁, hdraft, h⟩ := Attempt.bind_eq_ok_iff.1 h
  refine ⟨hname, text, g, t₁, eq_ok_of_mapError hwrite, ?_, ?_, ?_⟩
  all_goals beta_reduce at hmake hdraft h
  -- each of the three changes of the tree is one that succeeds
  · split at hmake <;> cases hmake
    assumption
  · split at hdraft <;> cases hdraft
    assumption
  · split at h <;> cases h
    assumption

theorem exists_of_delete (h : d.delete n t = (.ok (), t')) :
    checkEntry n = .ok () ∧ t.removeFile d.workingDir (d.filePath n) = .ok t' := by
  unfold delete at h
  obtain ⟨_, _, hcheck, h⟩ := Attempt.bind_eq_ok_iff.1 h
  obtain ⟨hname, rfl⟩ := Attempt.ofExcept_eq_ok_iff.1 hcheck
  split at h
  · rename_i hr
    cases h
    exact ⟨hname, hr⟩
  · cases h
  · cases h

theorem slash_notMem_draftName (h : '/' ∉ n.toList) : '/' ∉ (draftName n).toList := by
  rw [toList_draftName, List.mem_append, not_or]
  exact ⟨by simpa using h, by decide⟩

theorem length_draftName : 3 ≤ (draftName n).toList.length := by
  rw [toList_draftName, List.length_append]
  exact Nat.le_add_left_of_le (by decide)

/-- Whatever can be written can be read. -/
theorem checkEntry_of_validateName (h : validateName n = .ok ()) : checkEntry n = .ok () := by
  have hcheck : checkName n = .ok () := eq_ok_of_mapError h
  have hne : n.isEmpty = false := by
    rw [Bool.eq_false_iff]
    intro hempty
    rw [checkName_eq_ok_iff, nameDefect?, if_pos hempty] at hcheck
    cases hcheck
  have hfind : n.toList.find? (fun c => c = '/' || c = '\\') = none := by
    refine List.find?_eq_none.2 fun c hc hbad => ?_
    obtain hbad | hbad := Bool.or_eq_true_iff.1 hbad <;> obtain rfl := of_decide_eq_true hbad <;>
      exact not_mem_of_checkName hcheck (by decide) hc
  rw [checkEntry, hne, if_neg Bool.false_ne_true, hfind]

/-- **Where a document is written**: the directory is there in the end, the draft is put into
it, and it is the draft that is moved to the file. -/
theorem exists_places_of_write (ht : t.WellFormed) (hd : d.path ≠ "") {m : Yaml.Mapping}
    (h : d.write n m t = (.ok (), t')) : ∃ text g q, Yaml.write m = .ok text ∧ t.Grows g ∧
      g.Leads d.workingDir d.path q ∧ FileTree.EntryName (fileName n) ∧ g.get? (q ++ [draftName n]) ≠ some .directory ∧
      g.get? (q ++ [fileName n]) ≠ some .directory ∧
      t' = ((g.put (q ++ [draftName n]) (.file (.text text))).erase (q ++ [draftName n])).put
        (q ++ [fileName n]) (.file (.text text)) := by
  obtain ⟨hname, text, g, t₁, hwrite, hmake, hdraft, hmove⟩ := exists_of_write h
  have hslash := slash_notMem_of_checkEntry (checkEntry_of_validateName hname)
  obtain ⟨hgrow, -⟩ := FileTree.grows_makeDirectories ht hd hmake
  obtain ⟨x, hx, hdraftdir, rfl, -⟩ := FileTree.exists_of_writeFile hgrow.wellFormed hdraft
  obtain ⟨q, hq, rfl, -⟩ := FileTree.exists_leads_of_entry hd (slash_notMem_draftName hslash)
    length_draftName hx
  have hq₁ := hq.of_keeps (FileTree.keeps_put hdraftdir (.file (.text text)))
  -- both paths still lead to entries of the same directory
  obtain ⟨y, z, node, hy, hz, hnode, hfiledir, rfl⟩ := FileTree.exists_of_renameFile hmove
  obtain ⟨q', hq', rfl, -⟩ := FileTree.exists_leads_of_entry hd (slash_notMem_draftName hslash)
    length_draftName hy
  obtain rfl := hq'.unique hq₁
  obtain ⟨q'', hq'', rfl, hentry⟩ := FileTree.exists_leads_of_entry hd
    (slash_notMem_fileName hslash) length_fileName hz
  obtain rfl := hq''.unique hq₁
  have hne := entry_ne_draft q'' n n
  rw [FileTree.get?_put g (by simp), if_pos rfl] at hnode
  rw [FileTree.get?_put g (by simp), if_neg hne] at hfiledir
  cases hnode
  exact ⟨text, g, q'', hwrite, hgrow, hq, hentry, hdraftdir, hfiledir, if_neg (Ne.symm hne)⟩

/-- **A document that is written** is revised, and its file can be reached. -/
theorem revises_of_write (ht : t.WellFormed) (hd : d.path ≠ "") {m : Yaml.Mapping}
    (h : d.write n m t = (.ok (), t')) :
    ∃ text q, Yaml.write m = .ok text ∧ d.Revises n (some (.text text)) t t' q ∧
      FileTree.EntryName (fileName n) := by
  obtain ⟨text, g, q, hwrite, hgrow, hq, hentry, hdraftdir, hfiledir, rfl⟩ := exists_places_of_write ht hd h
  have hne := entry_ne_draft q n n
  have hput := FileTree.get?_put g (p := q ++ [draftName n]) (by simp) (.file (.text text))
  have herase := FileTree.get?_erase (g.put (q ++ [draftName n]) (.file (.text text)))
    (p := q ++ [draftName n]) (by simp)
  have hget := FileTree.get?_put ((g.put (q ++ [draftName n]) (.file (.text text))).erase
    (q ++ [draftName n])) (p := q ++ [fileName n]) (by simp) (.file (.text text))
  -- no directory is taken away at any point
  have hkeep₁ := FileTree.keeps_put hdraftdir (.file (.text text))
  have hkeep₂ := FileTree.keeps_erase (t := g.put (q ++ [draftName n]) (.file (.text text)))
    (p := q ++ [draftName n]) (by rw [hput, if_pos rfl]; simp)
  have hfree : ((g.put (q ++ [draftName n]) (.file (.text text))).erase
      (q ++ [draftName n])).get? (q ++ [fileName n]) ≠ some .directory := by
    rwa [herase, if_neg hne, hput, if_neg hne]
  have hkeep := (hkeep₁.trans hkeep₂).trans (FileTree.keeps_put hfree (.file (.text text)))
  have hwf := ((hgrow.wellFormed.put (p := q ++ [draftName n]) (n := .file (.text text)) (by simp)
    (by rw [List.dropLast_concat]; exact hq.directory) fun h => absurd h hdraftdir).erase
      (p := q ++ [draftName n]) (by rw [hput, if_pos rfl]; simp)).put (p := q ++ [fileName n])
        (n := .file (.text text)) (by simp)
        (by rw [List.dropLast_concat]; exact hkeep₂ q (hkeep₁ q hq.directory))
        fun h => absurd h hfree
  refine ⟨text, q, hwrite, ⟨hwf, hgrow.keeps.trans hkeep, hq.of_keeps hkeep, fun c => ?_, fun p c hp hp' => ?_⟩,
    hentry⟩
  · rw [hget, if_pos rfl, Option.some.injEq, Option.some.injEq, FileNode.file.injEq]
  · rw [hget, if_neg hp, herase, if_neg hp', hput, if_neg hp']
    refine ⟨fun hc => ?_, hgrow.kept p _⟩
    obtain hold | ⟨-, hdir⟩ := hgrow.new p _ hc
    · exact hold
    · cases hdir

/-- **What has been written** can be read, as far as its text says what was written. -/
theorem read_of_write (ht : t.WellFormed) (hd : d.path ≠ "") {m : Yaml.Mapping}
    (h : d.write n m t = (.ok (), t')) (hm : Yaml.ReadsBack m) : d.read t' n = .ok ⟨n, m⟩ := by
  obtain ⟨text, q, hwrite, hrev, hentry⟩ := revises_of_write ht hd h
  exact (read_eq_ok_iff hd).2 ⟨checkEntry_of_validateName (exists_of_write h).1, hentry, _,
    ⟨q, hrev.leads, (hrev.file _).2 rfl⟩, hm.ofYaml hwrite n⟩

/-- **A document that is deleted** is revised, and no directory appears. -/
theorem revises_of_delete (ht : t.WellFormed) (hd : d.path ≠ "")
    (h : d.delete n t = (.ok (), t')) : ∃ q, d.Revises n none t t' q ∧ t'.Keeps t := by
  obtain ⟨hname, hremove⟩ := exists_of_delete h
  obtain ⟨x, c, hx, hfile, rfl⟩ := FileTree.exists_of_removeFile hremove
  obtain ⟨q, hq, rfl, -⟩ := FileTree.exists_leads_of_entry hd
    (slash_notMem_fileName (slash_notMem_of_checkEntry hname)) length_fileName hx
  have hget := FileTree.get?_erase t (p := q ++ [fileName n]) (by simp)
  have hdir : t.get? (q ++ [fileName n]) ≠ some .directory := by simp [hfile]
  have hkeeps := FileTree.keeps_erase hdir
  refine ⟨q, ⟨ht.erase hdir, hkeeps, hq.of_keeps hkeeps, fun c => ?_,
    fun p c hp _ => by rw [hget, if_neg hp]⟩, fun p hp => ?_⟩
  · rw [hget, if_pos rfl]
    simp
  · rw [hget] at hp
    split at hp
    · cases hp
    · exact hp

/-! ### What is left as it was -/

/-- What a directory holds is found at its place. -/
theorem holds_iff_get? (hp : t.Leads d.workingDir d.path p) :
    d.Holds t k c ↔ t.get? (p ++ [fileName k]) = some (.file c) :=
  ⟨fun ⟨p', hp', hc⟩ => by rwa [hp.unique hp'], fun hc => ⟨p, hp, hc⟩⟩

section Revises

variable {content : Option FileContent} (h : d.Revises n content t t' q)

include h in
/-- Only one file of a document is revised. -/
theorem Revises.get?_iff : t'.get? (p ++ [fileName k]) = some (.file c) ↔
    if p = q ∧ k = n then content = some c else t.get? (p ++ [fileName k]) = some (.file c) := by
  have hsame : ∀ {x : String}, p ++ [fileName k] = q ++ [x] → p = q ∧ fileName k = x :=
    fun heq => ⟨List.append_inj_left' heq rfl, List.singleton_inj.1 (List.append_inj_right' heq rfl)⟩
  split
  · rename_i heq
    rw [heq.1, heq.2, h.file]
  · rename_i hne
    refine h.other _ _ (fun heq => hne ?_) fun heq => fileName_ne_draftName (hsame heq).2
    exact ⟨(hsame heq).1, fileName_inj.1 (hsame heq).2⟩

include h in
/-- **Another document stays as it is**, also in another directory; only one that is at the same
place holds the revised one. -/
theorem Revises.holds_iff (hp : t.Leads a.workingDir a.path p) : a.Holds t' k c ↔
    if p = q ∧ k = n then content = some c else a.Holds t k c := by
  rw [holds_iff_get? (hp.of_keeps h.keeps), holds_iff_get? hp, h.get?_iff]

include h in
/-- **What the directory itself holds** when it was there before, or when its path is straight:
then a directory that is new has nothing in it. -/
theorem Revises.holds_self_iff (ht : t.WellFormed)
    (hd : (∃ p, t.Leads d.workingDir d.path p) ∨ FileTree.Straight d.path) :
    d.Holds t' k c ↔ if k = n then content = some c else d.Holds t k c := by
  by_cases hp : ∃ p, t.Leads d.workingDir d.path p
  · obtain ⟨p, hp⟩ := hp
    have hpq : p = q := (hp.of_keeps h.keeps).unique h.leads
    rw [h.holds_iff hp]
    simp only [hpq, true_and]
  · have hno : t.get? (q ++ [fileName k]) ≠ some (.file c) := by
      intro hc
      have hin := ht.inside _ _ hc
      rw [List.dropLast_concat] at hin
      exact hp ⟨q, h.leads.of_straight ht (hd.resolve_left hp) hin⟩
    have hempty : ¬d.Holds t k c := fun ⟨p, hp', _⟩ => hp ⟨p, hp'⟩
    rw [holds_iff_get? h.leads, h.get?_iff]
    simp only [true_and, hno, hempty]

end Revises

end SiteConfig.Storage.Directory
