import Mathlib
import SiteConfig.Proofs.Backing
import SiteConfig.Proofs.Contents

/-!
# What storages keep

Memory is a map of documents. So is a database, whose records are the texts of documents: it takes
what has a text, and keeps what this text says (`SiteConfig.Storage.serves_database`).

A directory that nobody else puts directories into is a map of documents as well
(`SiteConfig.Storage.Directory.backed`): whatever is written, deleted and renamed in it, one after
the other, it has and reads just the documents that a map would hold in the end, under all names
that are accepted (`SiteConfig.Storage.Directory.serves_changes`). A change that fails leaves it as
it was.

It differs from a map in memory in two ways. What it takes is less: the draft of a document has a
longer name than the document, and not every accepted name leaves room for it
(`SiteConfig.Storage.Directory.roomy`). And a document whose name begins with a dot is accepted, it
is there and it can be read, but it is not listed
(`SiteConfig.Storage.Directory.not_always_listed`).
-/

namespace SiteConfig.Storage

open Attempt

/-! ### Answering for accepted names -/

/-- **A state answers like a map**, as far as accepted names go, and lists the names that are
shown. -/
structure Answers {σ : Type} (st : Storage σ) (shows : String → Bool) (s : σ) (docs : Documents) :
    Prop where
  has : ∀ n, validateName n = .ok () → (st.has n s).1 = .ok (docs.contains n)
  read : ∀ n, validateName n = .ok () → (st.read n s).1.toOption = (docs.get? n).map (⟨n, ·⟩)
  list : ∀ start, (st.list start s).1 = .ok ((namesFrom docs start).filter shows)

/-- **A storage serves changes like a map** that is empty at first: it answers like it in the end,
and each change has succeeded just when it could be made. -/
structure Serves {σ : Type} (st : Storage σ) (shows : String → Bool)
    (fits : String → Yaml.Mapping → Bool) (cs : List Change) (s : σ) : Prop where
  answers : st.Answers shows (st.perform cs s) (cs.foldl (Change.tried fits) .empty)
  succeeds : ∀ done c rest, cs = done ++ c :: rest → (c.on st (st.perform done s)).1.isOk
    = c.works fits (done.foldl (Change.tried fits) .empty)

section Memory

variable {σ : Type}

/-- The documents in a cell answer for themselves. -/
theorem answers_memory (cell : Cell σ Documents) (s : σ) :
    (memory cell).Answers (fun _ => true) s (cell.get s) where
  has _ _ := rfl
  read n _ := by
    show (readFrom (cell.get s) n).toOption = _
    rw [readFrom]
    rcases (cell.get s).get? n with _ | m <;> rfl
  list start := by
    show Except.ok (namesFrom (cell.get s) start) = _
    rw [filter_true]

theorem serves_memory (cell : Cell σ Documents)
    (hcell : ∀ docs s, cell.get (cell.set docs s) = docs)
    (cs : List Change) {s : σ} (hs : cell.get s = .empty) :
    (memory cell).Serves (fun _ => true) (fun n _ => isProper n) cs s := by
  obtain ⟨hdocs, hsucceeds⟩ := (backed_memory cell hcell).performs rfl cs
    (fun c _ => by cases c <;> trivial) hs
  exact ⟨hdocs ▸ answers_memory cell _, hsucceeds⟩

end Memory

/-! ### Texts -/

section Texts

variable {σ : Type} {texts : Texts} {n text : String} {m : Yaml.Mapping}

theorem readText_insert (k : String) : readText (texts.insert n text) k
    = if k = n then Document.ofYaml k text else readText texts k := by
  rw [readText, NameMap.get?_insert]
  by_cases hk : k = n
  · rw [if_pos hk, if_pos hk]
  · rw [if_neg hk, if_neg hk]
    rfl

theorem readText_erase (k : String) : readText (texts.erase n) k
    = if k = n then .error (.notFound k) else readText texts k := by
  rw [readText, NameMap.get?_erase]
  by_cases hk : k = n
  · rw [if_pos hk, if_pos hk]
  · rw [if_neg hk, if_neg hk]
    rfl

theorem textDocuments_insert (hwrite : Yaml.write m = .ok text) (hm : Yaml.ReadsBack m) :
    textDocuments (texts.insert n text) = (textDocuments texts).insert n m := by
  refine NameMap.ext_get? fun k => Option.ext fun m' => ?_
  rw [get?_textDocuments_iff, readText_insert, NameMap.get?_insert]
  split
  · rw [hm.ofYaml hwrite]
    simp
  · exact get?_textDocuments_iff.symm

theorem textDocuments_erase (n : String) :
    textDocuments (texts.erase n) = (textDocuments texts).erase n := by
  refine NameMap.ext_get? fun k => Option.ext fun m' => ?_
  rw [get?_textDocuments_iff, readText_erase, NameMap.get?_erase]
  split
  · exact iff_of_false nofun nofun
  · exact get?_textDocuments_iff.symm

/-- **Faithful texts**: they say documents, which would be written with texts that say the same. -/
structure Faithful (texts : Texts) : Prop where
  legible : Legible texts
  readsBack : ∀ n m, (textDocuments texts).get? n = some m → Yaml.ReadsBack m

theorem Faithful.insert (h : Faithful texts) (hwrite : Yaml.write m = .ok text)
    (hm : Yaml.ReadsBack m) (n : String) : Faithful (texts.insert n text) where
  legible k hk := by
    rw [readText_insert]
    split
    · exact ⟨m, hm.ofYaml hwrite k⟩
    · rename_i hne
      rw [NameMap.contains, NameMap.get?_insert, if_neg hne] at hk
      exact h.legible k hk
  readsBack k m' hk := by
    rw [textDocuments_insert hwrite hm, NameMap.get?_insert] at hk
    split at hk
    · cases hk
      exact hm
    · exact h.readsBack k m' hk

theorem Faithful.erase (h : Faithful texts) (n : String) : Faithful (texts.erase n) where
  legible k hk := by
    rw [NameMap.contains, NameMap.get?_erase] at hk
    rw [readText_erase]
    split at hk
    · cases hk
    · rename_i hne
      rw [if_neg hne]
      exact h.legible k hk
  readsBack k m' hk := by
    rw [textDocuments_erase, NameMap.get?_erase] at hk
    split at hk
    · cases hk
    · exact h.readsBack k m' hk

theorem write_database (place : String) (cell : Cell σ Texts) (s : σ)
    (hname : validateName n = .ok ()) (hwrite : Yaml.write m = .ok text) :
    (database place cell).write n m s = (.ok (), cell.set ((cell.get s).insert n text) s) :=
  bind_eq_ok_iff.2 ⟨(), s, by rw [hname]; rfl,
    bind_eq_ok_iff.2 ⟨text, s, by rw [hwrite]; rfl, rfl⟩⟩

theorem exists_write_database_error (place : String) (cell : Cell σ Texts) (s : σ)
    (h : (isProper n && (Yaml.write m).isOk) ≠ true) :
    ∃ e, (database place cell).write n m s = (.error e, s) := by
  rcases hname : validateName n with e | ⟨⟩
  · exact ⟨e, bind_eq_error_iff.2 (.inl (by rw [hname]; rfl))⟩
  · rcases hwrite : Yaml.write m with e | text
    · exact ⟨.yaml e, bind_eq_error_iff.2 (.inr ⟨(), s, by rw [hname]; rfl,
        bind_eq_error_iff.2 (.inl (by rw [hwrite]; rfl))⟩)⟩
    · exact absurd (by rw [isProper_iff.2 hname, hwrite]; rfl) h

theorem delete_database (place : String) (cell : Cell σ Texts) (s : σ) (n : String) :
    (database place cell).delete n s = if (cell.get s).contains n
      then (.ok (), cell.set ((cell.get s).erase n) s) else (.error (.notFound n), s) := by
  show (if (cell.get s).contains n then cell.modify (·.erase n)
    else Attempt.fail (.notFound n) : Attempt σ ConfigError Unit) s = _
  split <;> rfl

/-- **Faithful texts in a cell** are backed by the map of their documents, which takes all data that
have a text. -/
theorem backed_database (place : String) {cell : Cell σ Texts}
    (hcell : ∀ texts s, cell.get (cell.set texts s) = texts) :
    (database place cell).Backed
      (fun s docs => Faithful (cell.get s) ∧ textDocuments (cell.get s) = docs)
      (fun n m => isProper n && (Yaml.write m).isOk) Yaml.ReadsBack False where
  proper hfits := isProper_iff.1 (Bool.and_eq_true_iff.1 hfits).1
  kept := by
    rintro s _ n m ⟨hfaithful, rfl⟩ hm
    exact hfaithful.readsBack n m hm
  has := by
    rintro s _ n ⟨hfaithful, rfl⟩
    have hhas : (database place cell).has n s
        = (.ok ((textDocuments (cell.get s)).contains n), s) := by
      rw [hfaithful.legible.contains_eq]
      rfl
    rw [hhas]
    exact .told ⟨hfaithful, rfl⟩
  read := by
    rintro s _ n ⟨hfaithful, rfl⟩
    change Reads _ _ _ _ _ (readText (cell.get s) n, s)
    rcases hread : readText (cell.get s) n with e | ⟨k, m⟩
    · have hno : (cell.get s).contains n = false := by
        refine Bool.eq_false_iff.2 fun hn => ?_
        obtain ⟨m, hm⟩ := hfaithful.legible n hn
        rw [hread] at hm
        cases hm
      have hnone := hno
      rw [← hfaithful.legible.contains_eq, NameMap.contains_eq_false_iff] at hnone
      rw [readText, NameMap.contains_eq_false_iff.1 hno] at hread
      cases hread
      exact .refused _ (fun _ => hnone) (fun _ => .inr rfl) ⟨hfaithful, rfl⟩
    · obtain rfl : k = n := Records.name_of_readText hread
      exact .found (get?_textDocuments_iff.2 hread) ⟨hfaithful, rfl⟩
  write := by
    rintro s _ n m ⟨hfaithful, rfl⟩ hm
    by_cases hfits : (isProper n && (Yaml.write m).isOk) = true
    · obtain ⟨hproper, hok⟩ := Bool.and_eq_true_iff.1 hfits
      rcases hwrite : Yaml.write m with e | text
      · rw [hwrite] at hok
        cases hok
      · rw [write_database place cell s (isProper_iff.1 hproper) hwrite]
        refine ⟨_, .made hfits, ?_⟩
        rw [hcell]
        exact ⟨hfaithful.insert hwrite hm n, textDocuments_insert hwrite hm⟩
    · obtain ⟨e, hwrite⟩ := exists_write_database_error place cell s hfits
      rw [hwrite]
      exact ⟨_, .refused e fun hworks => hfits hworks, hfaithful, rfl⟩
  delete := by
    rintro s _ n ⟨hfaithful, rfl⟩
    rw [delete_database]
    split
    · rename_i hn
      refine ⟨_, .made ((hfaithful.legible.contains_eq n).trans hn), ?_⟩
      rw [hcell]
      exact ⟨hfaithful.erase n, textDocuments_erase n⟩
    · rename_i hno
      refine ⟨_, .refused _ fun hworks => hno ?_, hfaithful, rfl⟩
      exact (hfaithful.legible.contains_eq n).symm.trans hworks

theorem Faithful.answers (place : String) {cell : Cell σ Texts} {s : σ}
    (h : Faithful (cell.get s)) : (database place cell).Answers (fun _ => true) s
      (textDocuments (cell.get s)) where
  has n _ := by
    rw [h.legible.contains_eq]
    rfl
  read n _ := by
    show (readText (cell.get s) n).toOption = _
    ext ⟨k, m⟩
    rw [Option.map_eq_some_iff]
    constructor
    · intro hread
      have hread := eq_ok_of_toOption hread
      obtain rfl : k = n := Records.name_of_readText hread
      exact ⟨m, get?_textDocuments_iff.2 hread, rfl⟩
    · rintro ⟨m', hm, heq⟩
      cases heq
      rw [get?_textDocuments_iff.1 hm]
      rfl
  list start := by
    obtain ⟨_, hlist, -⟩ := (looks_database place cell h.legible).list rfl start
    rw [hlist]

/-- **A database serves changes** like memory does, as long as all data have a text. -/
theorem serves_database (place : String) {cell : Cell σ Texts}
    (hcell : ∀ texts s, cell.get (cell.set texts s) = texts) {s : σ} (hs : cell.get s = .empty)
    {cs : List Change} (hcs : ∀ n m, .write n m ∈ cs → Yaml.ReadsBack m) :
    (database place cell).Serves (fun _ => true) (fun n m => isProper n && (Yaml.write m).isOk) cs
      s := by
  have hempty : Faithful (cell.get s) ∧ textDocuments (cell.get s) = .empty := by
    rw [hs]
    exact ⟨⟨nofun, nofun⟩, rfl⟩
  obtain ⟨⟨hfaithful, hdocs⟩, hsucceeds⟩ := (backed_database place hcell).performs rfl cs
    (fun c hc => by cases c <;> first | exact hcs _ _ hc | trivial) hempty
  exact ⟨hdocs ▸ hfaithful.answers place, hsucceeds⟩

end Texts

/-! ### What can be written to a directory -/

namespace Directory

variable {d : Directory} {t t' : FileTree} {p q : Place} {n k : String} {m : Yaml.Mapping}
  {content : Option FileContent}

/-- Whether a name leaves room for what is added to it for a draft, in the name of a file. -/
def roomy (n : String) : Bool :=
  !n.toList.contains '\x00' && decide ((draftName n).utf8ByteSize ≤ FileTree.maxFileName)

/-- Whether a document can be written: its name is accepted and leaves room for a draft, and its
data have a text. -/
def fits (n : String) (m : Yaml.Mapping) : Bool := isProper n && roomy n && (Yaml.write m).isOk

theorem fits_iff : fits n m = true ↔
    validateName n = .ok () ∧ roomy n = true ∧ ∃ text, Yaml.write m = .ok text := by
  rw [fits, Bool.and_eq_true_iff, Bool.and_eq_true_iff, isProper_iff, and_assoc]
  refine and_congr_right fun _ => and_congr_right fun _ => ?_
  rcases Yaml.write m with e | text
  · exact iff_of_false Bool.false_ne_true fun ⟨_, h⟩ => by cases h
  · exact iff_of_true rfl ⟨text, rfl⟩

/-- A file can have a name of three letters or more that fits. -/
theorem entryName_of_length {x : String} (hslash : '/' ∉ x.toList) (hnul : '\x00' ∉ x.toList)
    (hlen : 3 ≤ x.toList.length) (hshort : x.utf8ByteSize ≤ FileTree.maxFileName) :
    FileTree.EntryName x := by
  have hne : ∀ y : String, y.toList.length < 3 → x ≠ y := by
    rintro y hy rfl
    omega
  exact ⟨hslash, hnul, hne _ (by decide), hne _ (by decide), hne _ (by decide), hshort⟩

/-- **The name of a draft** is that of a file just when there is room for it. -/
theorem roomy_iff (hn : validateName n = .ok ()) :
    roomy n = true ↔ FileTree.EntryName (draftName n) := by
  have hslash := slash_notMem_of_checkEntry (checkEntry_of_validateName hn)
  rw [roomy, Bool.and_eq_true_iff, Bool.not_eq_true', decide_eq_true_iff, Bool.eq_false_iff, ne_eq,
    List.contains_iff_mem]
  have hnul : '\x00' ∈ n.toList ↔ '\x00' ∈ (draftName n).toList := by
    simp [toList_draftName]
  rw [hnul]
  exact ⟨fun h => entryName_of_length (slash_notMem_draftName hslash) h.1 length_draftName h.2,
    fun h => ⟨h.nul, h.short⟩⟩

/-- Where there is room for a draft there is room for the document. -/
theorem entryName_fileName (h : FileTree.EntryName (draftName n)) :
    FileTree.EntryName (fileName n) := by
  have hslash : '/' ∉ n.toList := fun hmem => h.slash (by simp [toList_draftName, hmem])
  have hnul : '\x00' ∉ n.toList := fun hmem => h.nul (by simp [toList_draftName, hmem])
  refine entryName_of_length (slash_notMem_fileName hslash) (by simp [toList_fileName, hnul])
    length_fileName (le_trans ?_ h.short)
  simp only [fileName, draftName, String.utf8ByteSize_append]
  omega

/-- What has to succeed when a document is written. -/
theorem write_eq_ok {text : String} {g t₁ : FileTree} (hname : validateName n = .ok ())
    (hmake : t.makeDirectories d.workingDir d.path = .ok g) (htext : Yaml.write m = .ok text)
    (hput : g.writeFile d.workingDir (d.draftPath n) (.text text) = .ok t₁)
    (hmove : t₁.renameFile d.workingDir (d.draftPath n) (d.filePath n) = .ok t') :
    d.write n m t = (.ok (), t') := by
  unfold write
  refine bind_eq_ok_iff.2 ⟨(), t, by rw [hname]; rfl, ?_⟩
  refine bind_eq_ok_iff.2 ⟨(), g, by simp only [hmake], ?_⟩
  refine bind_eq_ok_iff.2 ⟨text, g, by rw [htext]; rfl, ?_⟩
  refine bind_eq_ok_iff.2 ⟨(), t₁, by simp only [hput], ?_⟩
  simp only [hmove]

theorem delete_eq_ok (hcheck : checkEntry n = .ok ())
    (hremove : t.removeFile d.workingDir (d.filePath n) = .ok t') :
    d.delete n t = (.ok (), t') := by
  unfold delete
  refine bind_eq_ok_iff.2 ⟨(), t, by rw [hcheck]; rfl, ?_⟩
  simp only [hremove]

theorem exists_delete_eq_error {o : OsError} (hcheck : checkEntry n = .ok ())
    (hremove : t.removeFile d.workingDir (d.filePath n) = .error o) :
    ∃ e, d.delete n t = (.error e, t) := by
  unfold delete
  cases o <;> exact ⟨_, bind_eq_error_iff.2
    (.inr ⟨(), t, by rw [hcheck]; rfl, by simp only [hremove]; rfl⟩)⟩

/-! ### Tidy directories -/

/-- **A tidy directory**: it is there and has no directories in it, all its documents can be read,
and they can be written again. -/
structure Tidy (d : Directory) (t : FileTree) : Prop where
  wellFormed : t.WellFormed
  flat : ∃ p, t.Leads d.workingDir d.path p ∧ ∀ x, t.get? (p ++ [x]) ≠ some .directory
  legible : d.Legible t
  readsBack : ∀ n m, d.read t n = .ok ⟨n, m⟩ → Yaml.ReadsBack m

theorem tidy_of_empty (ht : t.WellFormed) (hd : d.path ≠ "") (hp : t.Leads d.workingDir d.path p)
    (hempty : ∀ x, t.get? (p ++ [x]) = none) : d.Tidy t ∧ d.documents t = .empty := by
  have hholds : ∀ n c, ¬d.Holds t n c := by
    intro n c hc
    rw [holds_iff_get? hp, hempty] at hc
    cases hc
  have hread : ∀ n e, d.read t n ≠ .ok e := fun n e he => by
    obtain ⟨-, -, c, hc, -⟩ := (read_eq_ok_iff hd).1 he
    exact hholds n c hc
  refine ⟨⟨ht, ⟨p, hp, fun x => by rw [hempty]; nofun⟩, fun n c hc => absurd hc (hholds n c),
    fun n m hm => absurd hm (hread n _)⟩, NameMap.ext_get? fun n => ?_⟩
  ext m
  rw [get?_documents_eq_some_iff hd, NameMap.get?_empty]
  exact iff_of_false (hread n _) nofun

section Tidy

variable (h : d.Tidy t) (hd : d.path ≠ "")

include h hd

/-- **A tidy directory stays tidy** when one document is revised, and the other documents stay as
they are. -/
theorem Tidy.revised (hrev : d.Revises n content t t' q)
    (hflat : ∀ x, t'.get? (q ++ [x]) ≠ some .directory)
    (hnew : ∀ c, content = some c → ∃ m, d.read t' n = .ok ⟨n, m⟩ ∧ Yaml.ReadsBack m) :
    d.Tidy t' ∧ ∀ k, k ≠ n → (d.documents t').get? k = (d.documents t).get? k := by
  obtain ⟨p, hp, -⟩ := h.flat
  have hholds := fun k c => hrev.holds_self_iff (k := k) (c := c) h.wellFormed (.inl ⟨p, hp⟩)
  have hother : ∀ k, k ≠ n → ∀ c, d.Holds t k c ↔ d.Holds t' k c := fun k hk c => by
    rw [hholds, if_neg hk]
  refine ⟨⟨hrev.wellFormed, ⟨q, hrev.leads, hflat⟩, fun k c hc hseen => ?_, fun k m hm => ?_⟩,
    fun k hk => ?_⟩
  · rw [hholds] at hc
    split at hc
    · rename_i hk
      subst hk
      exact (hnew c hc).imp fun m hm => hm.1
    · rename_i hk
      exact (h.legible k c hc hseen).imp fun m hm => (read_eq_ok_congr hd (hother k hk)).1 hm
  · by_cases hk : k = n
    · subst hk
      obtain ⟨-, -, c, hc, -⟩ := (read_eq_ok_iff hd).1 hm
      rw [hholds, if_pos rfl] at hc
      obtain ⟨m', hm', hback⟩ := hnew c hc
      rw [hm'] at hm
      cases hm
      exact hback
    · exact h.readsBack k m ((read_eq_ok_congr hd (hother k hk)).2 hm)
  · rw [get?_documents hd, get?_documents hd, doc?_congr hd (hother k hk)]

/-! ### Writing -/

/-- **What fits is written**, and nothing else changes. -/
theorem Tidy.exists_write (hfits : fits n m = true) (hm : Yaml.ReadsBack m) : ∃ t',
    d.write n m t = (.ok (), t') ∧ d.Tidy t' ∧ d.documents t' = (d.documents t).insert n m := by
  obtain ⟨hname, hroomy, text, htext⟩ := fits_iff.1 hfits
  obtain ⟨p, hp, hflat⟩ := h.flat
  have hdraft := (roomy_iff hname).1 hroomy
  have hfile := entryName_fileName hdraft
  have hne := entry_ne_draft p n n
  -- the draft is put into the directory, and then it is moved
  have hmake := FileTree.makeDirectories_of_leads hd hp
  have hput := FileTree.writeFile_entry hp hd hdraft (hflat _) (.text text)
  have hget := FileTree.get?_put t (p := p ++ [draftName n]) (by simp) (.file (.text text))
  have hp₁ := hp.of_keeps (FileTree.keeps_put (hflat (draftName n)) (.file (.text text)))
  have hmove := FileTree.renameFile_entry hp₁ hd hdraft hfile fileName_ne_draftName.symm
    ((hget _).trans (if_pos rfl)) (by rw [hget, if_neg hne]; exact hflat _)
  have hwrite := write_eq_ok hname hmake htext hput hmove
  obtain ⟨text', q, htext', hrev, -⟩ := revises_of_write h.wellFormed hd hwrite
  have hread := read_of_write h.wellFormed hd hwrite hm
  obtain rfl : q = p := hrev.leads.unique (hp.of_keeps hrev.keeps)
  have hflat' : ∀ x, (((t.put (q ++ [draftName n]) (.file (.text text))).erase
      (q ++ [draftName n])).put (q ++ [fileName n]) (.file (.text text))).get? (q ++ [x])
        ≠ some .directory := by
    intro x
    rw [FileTree.get?_put _ (by simp), FileTree.get?_erase _ (by simp), hget]
    split
    · nofun
    · split
      · nofun
      · exact hflat x
  obtain ⟨htidy, hother⟩ := h.revised hd hrev hflat' fun _ _ => ⟨m, hread, hm⟩
  refine ⟨_, hwrite, htidy, NameMap.ext_get? fun k => ?_⟩
  rw [NameMap.get?_insert]
  split
  · rename_i hk
    subst hk
    exact (get?_documents_eq_some_iff hd).2 hread
  · rename_i hk
    exact hother k hk

/-- **What does not fit is not written**, and nothing changes. -/
theorem Tidy.exists_write_error (hfits : fits n m ≠ true) :
    ∃ e, d.write n m t = (.error e, t) := by
  obtain ⟨p, hp, -⟩ := h.flat
  have hmake := FileTree.makeDirectories_of_leads hd hp
  rcases hname : validateName n with e | ⟨⟩
  · exact ⟨e, bind_eq_error_iff.2 (.inl (by rw [hname]; rfl))⟩
  rcases htext : Yaml.write m with e | text
  · exact ⟨.yaml e, bind_eq_error_iff.2 (.inr ⟨(), t, by rw [hname]; rfl, bind_eq_error_iff.2 (.inr
      ⟨(), t, by simp only [hmake], bind_eq_error_iff.2 (.inl (by rw [htext]; rfl))⟩)⟩)⟩
  have hroomy : ¬FileTree.EntryName (draftName n) := fun hdraft =>
    hfits (fits_iff.2 ⟨hname, (roomy_iff hname).2 hdraft, text, htext⟩)
  rcases hput : t.writeFile d.workingDir (d.draftPath n) (.text text) with e | t₁
  · exact ⟨.write n e.message, bind_eq_error_iff.2 (.inr ⟨(), t, by rw [hname]; rfl,
      bind_eq_error_iff.2 (.inr ⟨(), t, by simp only [hmake], bind_eq_error_iff.2 (.inr
        ⟨text, t, by rw [htext]; rfl, bind_eq_error_iff.2 (.inl (by simp only [hput]))⟩)⟩)⟩)⟩
  · -- what can be put into the directory has a name that a file can have
    obtain ⟨x, hx, -⟩ := FileTree.exists_of_writeFile h.wellFormed hput
    obtain ⟨_, _, _, hdraft⟩ := FileTree.exists_leads_of_entry hd
      (slash_notMem_draftName (slash_notMem_of_checkEntry (checkEntry_of_validateName hname)))
      length_draftName hx
    exact absurd hdraft hroomy

/-! ### Deleting -/

/-- **A document that is there is deleted**, and nothing else changes. -/
theorem Tidy.exists_delete (hn : (d.documents t).contains n = true) : ∃ t',
    d.delete n t = (.ok (), t') ∧ d.Tidy t' ∧ d.documents t' = (d.documents t).erase n := by
  obtain ⟨m, hm⟩ := NameMap.contains_iff.1 hn
  obtain ⟨hcheck, hentry, c, ⟨p, hp, hc⟩, -⟩ :=
    (read_eq_ok_iff hd).1 ((get?_documents_eq_some_iff hd).1 hm)
  have hdelete := delete_eq_ok hcheck (FileTree.removeFile_entry hp hd hentry hc)
  obtain ⟨q, hrev, hback⟩ := revises_of_delete h.wellFormed hd hdelete
  obtain ⟨p', hp', hflat⟩ := h.flat
  obtain rfl : q = p' := hrev.leads.unique (hp'.of_keeps hrev.keeps)
  obtain ⟨htidy, hother⟩ := h.revised hd hrev (fun x hx => hflat x (hback _ hx)) nofun
  refine ⟨_, hdelete, htidy, NameMap.ext_get? fun k => ?_⟩
  rw [NameMap.get?_erase]
  split
  · rename_i hk
    subst hk
    ext m'
    rw [get?_documents_eq_some_iff hd]
    refine iff_of_false (fun hm' => ?_) nofun
    obtain ⟨-, -, c', hc', -⟩ := (read_eq_ok_iff hd).1 hm'
    rw [hrev.holds_self_iff h.wellFormed (.inl ⟨_, hp'⟩), if_pos rfl] at hc'
    cases hc'
  · rename_i hk
    exact hother k hk

/-- **A document that is not there is not deleted**, and nothing changes. -/
theorem Tidy.exists_delete_error (hn : (d.documents t).contains n = false) :
    ∃ e, d.delete n t = (.error e, t) := by
  rcases hcheck : checkEntry n with e | ⟨⟩
  · exact ⟨e, bind_eq_error_iff.2 (.inl (by rw [hcheck]; rfl))⟩
  · rcases hremove : t.removeFile d.workingDir (d.filePath n) with o | t'
    · exact exists_delete_eq_error hcheck hremove
    · -- what can be removed is there
      obtain ⟨x, c, hx, hc, -⟩ := FileTree.exists_of_removeFile hremove
      obtain ⟨p, hp, rfl, -⟩ := FileTree.exists_leads_of_entry hd
        (slash_notMem_fileName (slash_notMem_of_checkEntry hcheck)) length_fileName hx
      rw [(h.legible.contains_iff hd).2 ⟨hcheck, c, p, hp, hc⟩] at hn
      cases hn

/-! ### Reading -/

/-- A document that could be written but is not there is said to be missing. -/
theorem Tidy.read_missing (hfits : fits n m = true) (hn : (d.documents t).contains n = false) :
    d.read t n = .error (.notFound n) := by
  obtain ⟨hname, hroomy, -⟩ := fits_iff.1 hfits
  obtain ⟨p, hp, hflat⟩ := h.flat
  have hcheck := checkEntry_of_validateName hname
  have hnone : t.get? (p ++ [fileName n]) = none := by
    rcases hnode : t.get? (p ++ [fileName n]) with _ | node
    · rfl
    · cases node with
      | directory => exact absurd hnode (hflat _)
      | file c =>
        rw [(h.legible.contains_iff hd).2 ⟨hcheck, c, p, hp, hnode⟩] at hn
        cases hn
  have hcontent := FileTree.content_entry_missing hp hd
    (entryName_fileName ((roomy_iff hname).1 hroomy)) hnone
  unfold read
  rw [hcheck, show t.content d.workingDir (d.filePath n) = _ from hcontent]
  rfl

end Tidy

/-! ### A directory as a map -/

variable {σ : Type} {cell : Cell σ FileTree}

/-- **A tidy directory is backed by a map**, which takes what fits and keeps what reads back. -/
theorem backed (hd : d.path ≠ "") (hcell : ∀ t s, cell.get (cell.set t s) = t) :
    (directory d cell).Backed (fun s docs => d.Tidy (cell.get s) ∧ d.documents (cell.get s) = docs)
      fits Yaml.ReadsBack False where
  proper h := (fits_iff.1 h).1
  kept := by
    rintro s _ n m ⟨htidy, rfl⟩ hm
    exact htidy.readsBack n m ((get?_documents_eq_some_iff hd).1 hm)
  has := by
    rintro s _ n ⟨htidy, rfl⟩
    have hhas : (directory d cell).has n s
        = ((checkEntry n).map fun _ => (d.documents (cell.get s)).contains n, s) := by
      rw [← has_eq hd htidy.legible]
      rfl
    rw [hhas]
    rcases hcheck : checkEntry n with e | ⟨⟩
    · refine .refused e (fun hknown => ?_) ⟨htidy, rfl⟩
      have hok : checkEntry n = .ok () := by
        obtain hn | ⟨m, hm⟩ := hknown
        · exact ((htidy.legible.contains_iff hd).1 hn).1
        · exact checkEntry_of_validateName (fits_iff.1 hm).1
      rw [hcheck] at hok
      cases hok
    · exact .told ⟨htidy, rfl⟩
  read := by
    rintro s _ n ⟨htidy, rfl⟩
    change Reads _ _ _ _ _ (d.read (cell.get s) n, s)
    rcases hread : d.read (cell.get s) n with e | ⟨name, m⟩
    · have hnone : (d.documents (cell.get s)).get? n = none := by
        rw [get?_documents hd, doc?, hread]
        rfl
      refine .refused e (fun _ => hnone) (fun hknown => .inr ?_) ⟨htidy, rfl⟩
      have hno := NameMap.contains_eq_false_iff.2 hnone
      obtain hn | ⟨m, hm⟩ := hknown
      · rw [hno] at hn
        cases hn
      · rw [htidy.read_missing hd hm hno] at hread
        cases hread
        rfl
    · obtain rfl : name = n := name_of_read hread
      exact .found ((get?_documents_eq_some_iff hd).2 hread) ⟨htidy, rfl⟩
  write := by
    rintro s _ n m ⟨htidy, rfl⟩ hm
    change ∃ docs', Change.Does _ _ _ _ (d.write n m (cell.get s)).1 docs' ∧
      d.Tidy (cell.get (cell.set (d.write n m (cell.get s)).2 s)) ∧
        d.documents (cell.get (cell.set (d.write n m (cell.get s)).2 s)) = docs'
    rw [hcell]
    by_cases hfits : fits n m = true
    · obtain ⟨t', hwrite, htidy', hdocs⟩ := htidy.exists_write hd hfits hm
      rw [hwrite]
      exact ⟨_, .made hfits, htidy', hdocs⟩
    · obtain ⟨e, hwrite⟩ := htidy.exists_write_error hd hfits
      rw [hwrite]
      exact ⟨_, .refused e fun hworks => hfits hworks, htidy, rfl⟩
  delete := by
    rintro s _ n ⟨htidy, rfl⟩
    change ∃ docs', Change.Does _ _ _ _ (d.delete n (cell.get s)).1 docs' ∧
      d.Tidy (cell.get (cell.set (d.delete n (cell.get s)).2 s)) ∧
        d.documents (cell.get (cell.set (d.delete n (cell.get s)).2 s)) = docs'
    rw [hcell]
    rcases hn : (d.documents (cell.get s)).contains n with _ | _
    · obtain ⟨e, hdelete⟩ := htidy.exists_delete_error hd hn
      rw [hdelete]
      refine ⟨_, .refused e fun hworks => ?_, htidy, rfl⟩
      rw [Change.works, hn] at hworks
      cases hworks
    · obtain ⟨t', hdelete, htidy', hdocs⟩ := htidy.exists_delete hd hn
      rw [hdelete]
      exact ⟨_, .made hn, htidy', hdocs⟩

/-- A tidy directory answers for its documents, and lists them unless their names begin with a
dot. -/
theorem Tidy.answers {s : σ} (h : d.Tidy (cell.get s)) (hd : d.path ≠ "") :
    (directory d cell).Answers (fun n => !beginsWith "." n) s (d.documents (cell.get s)) where
  has n hn := by
    show d.has (cell.get s) n = _
    rw [has_eq hd h.legible, checkEntry_of_validateName hn]
    rfl
  read n _ := by
    show (d.read (cell.get s) n).toOption = _
    rw [get?_documents hd, doc?]
    rcases hread : d.read (cell.get s) n with e | ⟨name, m⟩
    · rfl
    · obtain rfl : name = n := name_of_read hread
      rfl
  list start := list_eq h.wellFormed hd h.legible start

/-- **An empty directory serves changes** as far as they fit. -/
theorem serves_of_empty (hd : d.path ≠ "") (hcell : ∀ t s, cell.get (cell.set t s) = t) {s : σ}
    (ht : (cell.get s).WellFormed) (hp : (cell.get s).Leads d.workingDir d.path p)
    (hempty : ∀ x, (cell.get s).get? (p ++ [x]) = none) {cs : List Change}
    (hcs : ∀ n m, .write n m ∈ cs → Yaml.ReadsBack m) :
    (directory d cell).Serves (fun n => !beginsWith "." n) fits cs s := by
  obtain ⟨⟨htidy, hdocs⟩, hsucceeds⟩ := (backed hd hcell).performs rfl cs
    (fun c hc => by cases c <;> first | exact hcs _ _ hc | trivial)
    (tidy_of_empty ht hd hp hempty)
  exact ⟨hdocs ▸ htidy.answers hd, hsucceeds⟩

end Directory

/-! ### What a directory takes and memory takes -/

section Fits

variable {σ : Type} {st : Storage σ} {shows : String → Bool} {docs : Documents}
  {fits fits' : String → Yaml.Mapping → Bool} {cs : List Change} {s : σ}

/-- **Where the same changes can be made**, the same comes of them; what decides about it may depend
on what has been done before. -/
theorem Change.foldl_tried_congr {P : Documents → Prop}
    (hstep : ∀ c ∈ cs, ∀ docs, P docs →
      c.works fits docs = c.works fits' docs ∧ P (c.tried fits docs))
    (hdocs : P docs) : cs.foldl (Change.tried fits) docs = cs.foldl (Change.tried fits') docs ∧
      P (cs.foldl (Change.tried fits) docs) := by
  induction cs generalizing docs with
  | nil => exact ⟨rfl, hdocs⟩
  | cons c cs ih =>
    obtain ⟨hworks, hnext⟩ := hstep c List.mem_cons_self docs hdocs
    have htried : c.tried fits docs = c.tried fits' docs := by
      rw [Change.tried, Change.tried, hworks]
    rw [List.foldl_cons, List.foldl_cons, ← htried]
    exact ih (fun c' hc' => hstep c' (List.mem_cons_of_mem c hc')) hnext

theorem Serves.congr (h : st.Serves shows fits cs s) {P : Documents → Prop} (hempty : P .empty)
    (hstep : ∀ c ∈ cs, ∀ docs, P docs →
      c.works fits docs = c.works fits' docs ∧ P (c.tried fits docs)) :
    st.Serves shows fits' cs s where
  answers := (Change.foldl_tried_congr hstep hempty).1 ▸ h.answers
  succeeds done c rest hsplit := by
    obtain ⟨hsame, hdone⟩ := Change.foldl_tried_congr (fun c' hc' => hstep c' (by
      rw [hsplit]
      exact List.mem_append_left _ hc')) hempty
    rw [h.succeeds done c rest hsplit, ← hsame]
    exact (hstep c (by rw [hsplit]; exact List.mem_append_right _ List.mem_cons_self) _ hdone).1

end Fits

/-- **A change is easy** when a directory can make it if memory can: there is room for the name, and
the data have a text. -/
def Change.Easy : Change → Prop
  | .write n m => (isProper n = true → Directory.roomy n = true) ∧ (Yaml.write m).isOk = true
  | .delete _ => True
  | .rename _ target => isProper target = true → Directory.roomy target = true

/-- Documents that have a text. -/
def Texted (docs : Documents) : Prop := ∀ n m, docs.get? n = some m → (Yaml.write m).isOk = true

theorem Directory.fits_eq {n : String} {m : Yaml.Mapping}
    (hroomy : isProper n = true → Directory.roomy n = true) (hm : (Yaml.write m).isOk = true) :
    Directory.fits n m = isProper n := by
  rw [Directory.fits, hm, Bool.and_true]
  rcases hn : isProper n with _ | _
  · rfl
  · rw [hroomy hn]
    rfl

/-- **An easy change** can be made in a directory just when it can be made in memory, and it leaves
documents that have a text. -/
theorem Change.Easy.works_eq {c : Change} (hc : c.Easy) {docs : Documents} (hdocs : Texted docs) :
    c.works Directory.fits docs = c.works (fun n _ => isProper n) docs ∧
      Texted (c.tried Directory.fits docs) := by
  have htried : Texted (c.made docs) → Texted (c.tried Directory.fits docs) := by
    intro hmade
    rw [Change.tried]
    split
    · exact hmade
    · exact hdocs
  cases c with
  | write n m =>
    refine ⟨Directory.fits_eq hc.1 hc.2, htried fun k m' hk => ?_⟩
    rw [Change.made, NameMap.get?_insert] at hk
    split at hk
    · cases hk
      exact hc.2
    · exact hdocs k m' hk
  | delete n =>
    refine ⟨rfl, htried fun k m' hk => ?_⟩
    rw [Change.made, NameMap.get?_erase] at hk
    split at hk
    · cases hk
    · exact hdocs k m' hk
  | rename source target =>
    rcases hsource : docs.get? source with _ | m
    · refine ⟨by rw [Change.works, Change.works, hsource]; rfl, htried ?_⟩
      rw [Change.made, hsource]
      exact hdocs
    · refine ⟨?_, htried fun k m' hk => ?_⟩
      · rw [Change.works, Change.works, hsource]
        exact Directory.fits_eq hc (hdocs source m hsource)
      · rw [Change.made, hsource, NameMap.get?_erase, NameMap.get?_insert] at hk
        split at hk
        · cases hk
        · split at hk
          · cases hk
            exact hdocs source m hsource
          · exact hdocs k m' hk

/-! ### What comes of changes -/

namespace Directory

/-- **A directory keeps documents.** It is empty at first, and then documents are written, deleted
and renamed in it, one after the other, in texts that say what was written. It serves these changes
like a map that takes what fits: under every accepted name it has and reads what the map has in the
end. A map in memory serves them as well, and does so in the same way if all of them are easy. But
lists are without the names that begin with a dot, which are accepted nevertheless. -/
theorem serves_changes {σ : Type} {d : Directory} {cell : Cell σ FileTree} (hd : d.path ≠ "")
    (hcell : ∀ t s, cell.get (cell.set t s) = t) {s : σ} {p : Place}
    (ht : (cell.get s).WellFormed) (hp : (cell.get s).Leads d.workingDir d.path p)
    (hempty : ∀ x, (cell.get s).get? (p ++ [x]) = none) {cs : List Change}
    (hcs : ∀ n m, .write n m ∈ cs → Yaml.ReadsBack m) :
    (directory d cell).Serves (fun n => !beginsWith "." n) fits cs s ∧
      ((∀ c ∈ cs, c.Easy) →
        (directory d cell).Serves (fun n => !beginsWith "." n) (fun n _ => isProper n) cs s) ∧
      ∀ {ρ : Type} (held : Cell ρ Documents), (∀ docs r, held.get (held.set docs r) = docs) →
        ∀ r, held.get r = .empty →
          (memory held).Serves (fun _ => true) (fun n _ => isProper n) cs r := by
  have hserves := serves_of_empty hd hcell ht hp hempty hcs
  refine ⟨hserves, fun heasy => hserves.congr (P := Texted) nofun fun c hc docs hdocs =>
    (heasy c hc).works_eq hdocs, fun held hheld r hr => serves_memory held hheld cs hr⟩

/-! ### In an empty directory -/

/-- A tree of files as a part of itself. -/
def treeCell : Cell FileTree FileTree := ⟨id, fun t _ => t⟩

/-- A directory at the root. -/
def config : Directory := ⟨"config", []⟩

/-- The tree that has this directory, with nothing in it. -/
def bare : FileTree := ⟨[(["config"], .directory)]⟩

theorem leads_bare : bare.Leads config.workingDir config.path ["config"] :=
  ⟨eq_ok_of_toOption (by decide +kernel), rfl⟩

theorem get?_bare (x : String) : bare.get? (["config"] ++ [x]) = none := by
  rw [FileTree.get?_of_ne_nil (by simp)]
  rfl

theorem wellFormed_bare : bare.WellFormed := by decide +kernel

/-- A page that is written and moved, one with a bad name, one whose name begins with a dot, and one
that is not there. -/
def pages : List Change :=
  [.write "blog.home" [(.string "title", .string "welcome")], .write "home" [],
    .write ".blog.draft" [], .rename "blog.home" "blog.news", .delete "blog.start"]

instance : DecidablePred Change.Easy
  | .write _ _ => inferInstanceAs (Decidable (_ ∧ _))
  | .delete _ => inferInstanceAs (Decidable True)
  | .rename _ _ => inferInstanceAs (Decidable (_ → _))

theorem serves_changes_pages :
    (config.path ≠ "" ∧ (treeCell.get bare).WellFormed ∧
      (treeCell.get bare).Leads config.workingDir config.path ["config"] ∧
      (∀ x, (treeCell.get bare).get? (["config"] ++ [x]) = none) ∧
      (∀ n m, .write n m ∈ pages → Yaml.ReadsBack m) ∧ ∀ c ∈ pages, c.Easy) ∧
    (directory config treeCell).Serves (fun n => !beginsWith "." n) fits pages bare ∧
    (directory config treeCell).Serves (fun n => !beginsWith "." n) (fun n _ => isProper n) pages
      bare ∧
    (pages.foldl (Change.tried fits) .empty).keys = [".blog.draft", "blog.news"] := by
  have hback : ∀ n m, .write n m ∈ pages → Yaml.ReadsBack m := by
    intro n m hmem
    simp only [pages, List.mem_cons, Change.write.injEq, reduceCtorEq, List.not_mem_nil,
      or_false] at hmem
    obtain ⟨rfl, rfl⟩ | ⟨rfl, rfl⟩ | ⟨rfl, rfl⟩ := hmem <;> decide +kernel
  have heasy : ∀ c ∈ pages, c.Easy := by decide +kernel
  have hcell : ∀ t s, treeCell.get (treeCell.set t s) = t := fun _ _ => rfl
  obtain ⟨hserves, hsame, -⟩ := serves_changes (by decide) hcell wellFormed_bare leads_bare
    get?_bare hback
  exact ⟨⟨by decide, wellFormed_bare, leads_bare, get?_bare, hback, heasy⟩, hserves, hsame heasy,
    by decide +kernel⟩

/-- **A document that is there is not always listed**, though it has been written under an accepted
name. -/
theorem not_always_listed :
    ¬∀ (cs : List Change) (n : String), validateName n = .ok () →
      (∀ k m, .write k m ∈ cs → Yaml.ReadsBack m) →
      (((directory config treeCell).has n
          ((directory config treeCell).perform cs bare)).1 = .ok true
        ↔ ∃ names, ((directory config treeCell).list ""
            ((directory config treeCell).perform cs bare)).1 = .ok names ∧ n ∈ names) := by
  intro h
  have hback : ∀ k m, .write k m ∈ [Change.write ".home" []] → Yaml.ReadsBack m := by
    intro k m hmem
    cases List.mem_singleton.1 hmem
    decide +kernel
  have hname : validateName ".home" = .ok () := isProper_iff.1 (by decide)
  have hcell : ∀ t s, treeCell.get (treeCell.set t s) = t := fun _ _ => rfl
  have hserves : (directory config treeCell).Serves _ _ _ bare :=
    serves_of_empty (by decide) hcell wellFormed_bare leads_bare get?_bare hback
  obtain ⟨names, hlist, hmem⟩ := (h [.write ".home" []] ".home" hname hback).1 <| by
    rw [hserves.answers.has _ hname]
    exact congrArg Except.ok (by decide +kernel)
  rw [hserves.answers.list] at hlist
  cases hlist
  exact absurd hmem (by decide +kernel)

end Directory

end SiteConfig.Storage
