import Mathlib
import SiteConfig.Proofs.Copying
import SiteConfig.Proofs.Desk

/-!
# What can be copied into a directory

Both kinds of active storages can be copied into a directory of documents.

Another directory can, wherever it is (`SiteConfig.Storage.Directory.source`). Where the two are
different places none of them notices what is done to the other one. Where they are the same place,
which paths do not tell, a document is written over itself, and nothing is deleted, since what is
listed is the same.

A database can, through its cache (`SiteConfig.Storage.Records.source`). The records are in a file
that is not the file of any document, also where documents are written to the directory of the
database; so they stay as they are, and what is remembered of them stays true.
-/

namespace SiteConfig

/-! ### What a reading says -/

namespace Document

variable {x : Except ConfigError Document} {n : String} {m : Yaml.Mapping}

/-- The data of a document that is read under a name. -/
theorem data_eq_some_iff (hname : ∀ e, x = .ok e → e.name = n) :
    x.toOption.map (·.data) = some m ↔ x = .ok ⟨n, m⟩ := by
  rcases x with e | ⟨name, data⟩
  · exact iff_of_false (fun h => by cases h) fun h => by cases h
  · obtain rfl : name = n := hname _ rfl
    constructor <;>
    · intro h
      cases h
      rfl

theorem eq_ok_iff_exists_data (hname : ∀ e, x = .ok e → e.name = n) {e : Document} :
    x = .ok e ↔ ∃ m, x.toOption.map (·.data) = some m ∧ e = ⟨n, m⟩ := by
  simp only [data_eq_some_iff hname]
  constructor
  · rintro rfl
    obtain rfl := hname e rfl
    exact ⟨e.data, rfl, rfl⟩
  · rintro ⟨m, hm, rfl⟩
    exact hm

end Document

namespace Storage

variable {a d : Directory} {r : Records} {t t' : FileTree} {p q : Place} {n k : String}
  {m : Yaml.Mapping} {text : String} {content : Option FileContent}

/-! ### Copying from a directory -/

namespace Directory

/-- The names that a directory lists in some files. -/
def listed (a : Directory) (t : FileTree) : List String := (a.list t "").toOption.getD []

/-- A document of a directory, if it can be read. -/
def doc? (a : Directory) (t : FileTree) (n : String) : Option Yaml.Mapping :=
  (a.read t n).toOption.map (·.data)

theorem list_eq_listed (ht : t.WellFormed) : a.list t "" = .ok (a.listed t) := by
  obtain ⟨l, hl, -⟩ := exists_list ht a
  rw [listed, hl]
  rfl

theorem mem_listed_iff (ht : t.WellFormed) : n ∈ a.listed t ↔ Shown n ∧ ∃ c, a.Holds t n c := by
  obtain ⟨l, hl, -, hmem⟩ := exists_list ht a
  rw [listed, hl]
  exact hmem n

theorem sorted_listed (ht : t.WellFormed) : (a.listed t).Pairwise (· < ·) := by
  obtain ⟨l, hl, hsorted, -⟩ := exists_list ht a
  rw [listed, hl]
  exact hsorted

theorem doc?_eq_some_iff : a.doc? t n = some m ↔ a.read t n = .ok ⟨n, m⟩ :=
  Document.data_eq_some_iff fun _ => name_of_read

theorem doc?_congr (ha : a.path ≠ "") (h : ∀ c, a.Holds t n c ↔ a.Holds t' n c) :
    a.doc? t' n = a.doc? t n := by
  ext m
  rw [doc?_eq_some_iff, doc?_eq_some_iff, read_eq_ok_congr ha h]

/-- **A document that is written as it is** is the same afterwards, and so are the others. -/
theorem Revises.sameDocuments_of_written (ha : a.path ≠ "") (ht : t.WellFormed)
    (h : d.Revises n (some (.text text)) t t' q) (hn : n ∈ a.listed t) (hm : a.doc? t n = some m)
    (htext : Document.ofYaml n text = .ok ⟨n, m⟩) : SameDocuments a.listed a.doc? t t' := by
  obtain ⟨-, c₀, p, hp, hc₀⟩ := (mem_listed_iff ht).1 hn
  have hholds := fun k c => h.holds_iff (k := k) (c := c) hp
  by_cases hpq : p = q
  · have hsame : ∀ k, k ≠ n → ∀ c, a.Holds t k c ↔ a.Holds t' k c := fun k hk c => by
      rw [hholds, if_neg fun heq => hk heq.2]
    have hself : ∀ c, a.Holds t' n c ↔ c = .text text := fun c => by
      rw [hholds, if_pos ⟨hpq, rfl⟩, Option.some.injEq, eq_comm]
    refine ⟨?_, fun k _ => ?_⟩
    · rw [listed, listed, list_congr ht h.wellFormed fun k _ => ?_]
      by_cases hk : k = n
      · subst hk
        exact iff_of_true ⟨c₀, p, hp, hc₀⟩ ⟨_, (hself _).2 rfl⟩
      · exact exists_congr (hsame k hk)
    · by_cases hk : k = n
      · subst hk
        obtain ⟨hcheck, hentry, -⟩ := (read_eq_ok_iff ha).1 (doc?_eq_some_iff.1 hm)
        rw [hm, doc?_eq_some_iff, read_eq_ok_iff ha]
        exact ⟨hcheck, hentry, _, (hself _).2 rfl, htext⟩
      · exact doc?_congr ha (hsame k hk)
  · have hsame : ∀ k c, a.Holds t k c ↔ a.Holds t' k c := fun k c => by
      rw [hholds, if_neg fun heq => hpq heq.1]
    exact ⟨by rw [listed, listed, list_congr ht h.wellFormed fun k _ => exists_congr (hsame k)],
      fun k _ => doc?_congr ha (hsame k)⟩

/-- **A document that is not listed** is not missed. -/
theorem Revises.sameDocuments_of_deleted (ha : a.path ≠ "") (ht : t.WellFormed)
    (h : d.Revises n none t t' q) (hback : t'.Keeps t) (hn : n ∉ a.listed t) :
    SameDocuments a.listed a.doc? t t' := by
  have hsame : ∀ k, Shown k → ∀ c, a.Holds t k c ↔ a.Holds t' k c := by
    intro k hk c
    by_cases hlead : ∃ p, t.Leads a.workingDir a.path p
    · obtain ⟨p, hp⟩ := hlead
      rw [h.holds_iff hp]
      split
      · rename_i heq
        refine iff_of_false (fun hc => hn ((mem_listed_iff ht).2 ?_)) fun h => by cases h
        rw [← heq.2]
        exact ⟨hk, c, hc⟩
      · rfl
    · -- what is not there does not appear when something is deleted
      exact iff_of_false (fun ⟨p, hp, _⟩ => hlead ⟨p, hp⟩)
        fun ⟨p, hp, _⟩ => hlead ⟨p, hp.of_keeps hback⟩
  refine ⟨?_, fun k hk => doc?_congr ha (hsame k ((mem_listed_iff ht).1 hk).1)⟩
  rw [listed, listed, list_congr ht h.wellFormed fun k hk => exists_congr (hsame k hk)]

/-- **The documents of a directory** can be copied into another one, or into the same. -/
def source (a d : Directory) (ha : a.path ≠ "") : Source (World.directory a) d where
  Ready w := w.files.WellFormed
  listed := a.listed
  doc? := a.doc?
  readMany := rfl
  wellFormed h := h
  sorted h := sorted_listed h
  list h := Prod.ext (list_eq_listed h) rfl
  read_left _ h := ⟨rfl, h⟩
  read_eq_ok_iff _ _ _ := Document.eq_ok_iff_exists_data fun _ => name_of_read
  written h hn hm htext hrev :=
    ⟨hrev.wellFormed, hrev.sameDocuments_of_written ha h hn hm htext⟩
  deleted h hn hrev hback := ⟨hrev.wellFormed, hrev.sameDocuments_of_deleted ha h hback hn⟩

end Directory

/-! ### Copying from a database -/

namespace Records

variable {key : String} {w w' : World} {c : FileContent}

/-- The file of the records. -/
def fileName : String := "db"

theorem entryName_fileName : FileTree.EntryName fileName :=
  ⟨by decide, by decide, by decide, by decide, by decide, by decide⟩

/-- The records are in an entry of their directory. -/
theorem content_eq_ok_iff (hr : r.path ≠ "") (hp : t.Leads r.workingDir r.path p) :
    t.content r.workingDir r.filePath = .ok c ↔ t.get? (p ++ [fileName]) = some (.file c) := by
  have hentry := hp.entry hr entryName_fileName
  rw [FileTree.content_eq_ok_iff]
  constructor
  · rintro ⟨q, hq, hc⟩
    cases hentry.symm.trans hq
    exact hc
  · exact fun hc => ⟨_, hentry, hc⟩

/-- The same records are loaded from a file that holds the same. -/
theorem load_congr (h : ∀ c, t.content r.workingDir r.filePath = .ok c ↔
    t'.content r.workingDir r.filePath = .ok c) : r.load t' = r.load t := by
  unfold load
  rcases hc : t.content r.workingDir r.filePath with e | c
  · rcases hc' : t'.content r.workingDir r.filePath with e' | c'
    · rfl
    · rw [(h c').2 hc'] at hc
      cases hc
  · rw [(h c).1 hc]

/-- **Documents are no records**: the records stay as they are, wherever documents are written. -/
theorem load_of_revises (hr : r.path ≠ "") (hp : t.Leads r.workingDir r.path p)
    (h : d.Revises n content t t' q) : r.load t' = r.load t := by
  refine load_congr fun c => ?_
  rw [content_eq_ok_iff hr hp, content_eq_ok_iff hr (hp.of_keeps h.keeps)]
  have hother : ∀ {x : String}, 3 ≤ x.toList.length → p ++ [fileName] ≠ q ++ [x] := by
    intro x hx heq
    have hname := List.singleton_inj.1 (List.append_inj_right' heq rfl)
    rw [← hname] at hx
    exact absurd hx (by decide)
  exact (h.other _ c (hother Directory.length_fileName) (hother Directory.length_draftName)).symm

/-- **A database that has been opened**: its directory is there, and what is remembered of its
documents is true. -/
structure Opened (r : Records) (key : String) (w : World) : Prop where
  wellFormed : w.files.WellFormed
  there : ∃ p, w.files.Leads r.workingDir r.path p
  faithful : ∀ n known, ((World.cacheCell key).get w).get? n = some known →
    found (readText (r.load w.files) n) = .ok known

theorem get_set_cacheCell (key : String) (c : Cache) (w : World) :
    (World.cacheCell key).get ((World.cacheCell key).set c w) = c := by
  show (((w.caches.insert key c).get? key).getD .empty : Cache) = c
  rw [NameMap.get?_insert, if_pos rfl]
  rfl

theorem read_database (label : String) (r : Records) (n : String) (w : World) :
    (World.database label r).read n w = (readText (r.load w.files) n, w) := rfl

/-- **Looking up a document** gives what its text says, and leaves the database open. -/
theorem exists_lookUp (label : String) (h : r.Opened key w) (n : String) : ∃ w',
    lookUp (World.database label r) (World.cacheCell key) n w
      = (found (readText (r.load w.files) n), w') ∧ w'.files = w.files ∧ r.Opened key w' := by
  rw [Cacheable.lookUp_apply]
  rcases hn : ((World.cacheCell key).get w).get? n with _ | known
  · have hfind : (World.database label r).find n w
        = (found (readText (r.load w.files) n), w) := by
      rw [find_apply, read_database]
    simp only
    rw [Attempt.bind_apply, hfind]
    rcases hfound : found (readText (r.load w.files) n) with e | known
    · exact ⟨w, rfl, rfl, h⟩
    · refine ⟨(World.cacheCell key).set (((World.cacheCell key).get w).insert n known) w, rfl, rfl,
        h.wellFormed, h.there, fun k known' hk => ?_⟩
      rw [get_set_cacheCell, NameMap.get?_insert] at hk
      split at hk
      · rename_i heq
        cases hk
        rw [heq]
        exact hfound
      · exact h.faithful k known' hk
  · exact ⟨w, by rw [h.faithful n known hn], rfl, h⟩

theorem name_of_readText {texts : Texts} {e : Document} (h : readText texts n = .ok e) :
    e.name = n := by
  unfold readText at h
  split at h
  · exact Document.name_of_ofYaml h
  · cases h

/-- The only document that is ever said to be missing is the one that was asked for. -/
theorem eq_notFound_of_readText {texts : Texts} {e : ConfigError}
    (h : readText texts n = .error e) (he : e.isNotFound = true) : e = .notFound n := by
  unfold readText at h
  split at h
  · rw [Document.isNotFound_of_ofYaml h] at he
    cases he
  · cases h
    rfl

theorem exists_read (label : String) (h : r.Opened key w) (n : String) : ∃ w',
    (cached (World.database label r) (World.cacheCell key)).read n w
      = (readText (r.load w.files) n, w') ∧ w'.files = w.files ∧ r.Opened key w' := by
  obtain ⟨w', hlook, hfiles, hw'⟩ := exists_lookUp label h n
  refine ⟨w', ?_, hfiles, hw'⟩
  rw [Cacheable.cached_read, Attempt.bind_apply, hlook]
  rcases hread : readText (r.load w.files) n with e | e
  · by_cases he : e.isNotFound = true
    · obtain rfl := eq_notFound_of_readText hread he
      rfl
    · rw [found, if_neg he]
  · obtain rfl := name_of_readText hread
    rfl

/-- An open database stays open, with the records that it has, when documents are written. -/
theorem Opened.of_revises (h : r.Opened key w) (hr : r.path ≠ "")
    (hrev : d.Revises n content w.files t' q) :
    r.Opened key { w with files := t' } ∧ r.load t' = r.load w.files := by
  obtain ⟨p, hp⟩ := h.there
  have hload := load_of_revises hr hp hrev
  refine ⟨⟨hrev.wellFormed, ⟨p, hp.of_keeps hrev.keeps⟩, fun k known hk => ?_⟩, hload⟩
  rw [hload]
  exact h.faithful k known hk

/-! ### Opening a database -/

/-- **Saving records** changes nothing but their file. -/
theorem save_leaves (ht : t.WellFormed) (hr : r.path ≠ "") (hp : t.Leads r.workingDir r.path p)
    (texts : Texts) : (r.save texts t).WellFormed ∧ t.Keeps (r.save texts t) ∧
      (r.save texts t).Keeps t ∧ ∀ q c, q ≠ p ++ [fileName] →
        ((r.save texts t).get? q = some (.file c) ↔ t.get? q = some (.file c)) := by
  unfold save
  rcases hw : t.writeFile r.workingDir r.filePath (.records texts) with e | t'
  · exact ⟨ht, fun _ h => h, fun _ h => h, fun _ _ _ => Iff.rfl⟩
  · obtain ⟨x, hx, hdir, rfl, hwf⟩ := FileTree.exists_of_writeFile ht hw
    cases (hp.entry hr entryName_fileName).symm.trans hx
    have hne := FileTree.ne_nil_of_get?_ne hdir
    refine ⟨hwf, FileTree.keeps_put hdir _, FileTree.keeps_of_put hne, fun q c hq => ?_⟩
    change (t.put (p ++ [fileName]) (.file (.records texts))).get? q = _ ↔ _
    rw [FileTree.get?_put t hne, if_neg hq]

/-- The records that were there are still there once they have been saved. -/
theorem load_save (ht : t.WellFormed) (hr : r.path ≠ "") (hp : t.Leads r.workingDir r.path p) :
    r.load (r.save (r.load t) t) = r.load t := by
  have hkeep := (save_leaves ht hr hp (r.load t)).2.1
  unfold save at hkeep ⊢
  rcases hw : t.writeFile r.workingDir r.filePath (.records (r.load t)) with e | t'
  · rfl
  · rw [hw] at hkeep
    obtain ⟨x, hx, hdir, rfl, -⟩ := FileTree.exists_of_writeFile ht hw
    cases (hp.entry hr entryName_fileName).symm.trans hx
    change r.load (t.put (p ++ [fileName]) (.file (.records (r.load t)))) = _
    have hcontent := (content_eq_ok_iff (c := .records (r.load t)) hr (hp.of_keeps hkeep)).2 (by
      change (t.put (p ++ [fileName]) (.file (.records (r.load t)))).get? _ = _
      rw [FileTree.get?_put t (FileTree.ne_nil_of_get?_ne hdir), if_pos rfl])
    change (t.put (p ++ [fileName]) (.file (.records (r.load t)))).content _ _ = _ at hcontent
    rw [load, hcontent]
    rfl

theorem prepare_eq_ok_iff : r.prepare t = (.ok (), t') ↔
    ∃ g, t.makeDirectories r.workingDir r.path = .ok g ∧ t' = r.save (r.load g) g := by
  unfold prepare
  rcases t.makeDirectories r.workingDir r.path with e | g
  · exact iff_of_false (fun h => by cases h) fun ⟨_, h, _⟩ => by cases h
  · constructor
    · intro h
      cases h
      exact ⟨g, rfl, rfl⟩
    · rintro ⟨_, hg, rfl⟩
      cases hg
      rfl

/-- **A database that is opened** by a program that remembers nothing yet. -/
theorem opened_of_prepare (hw : w.files.WellFormed) (hr : r.path ≠ "")
    (hcold : (World.cacheCell key).get w = .empty)
    (h : World.fileCell.zoom r.prepare w = (.ok (), w')) : r.Opened key w' := by
  obtain ⟨t', hprepare, rfl⟩ := exists_of_zoom h
  obtain ⟨g, hmake, rfl⟩ := prepare_eq_ok_iff.1 hprepare
  obtain ⟨hgrow, p, hp⟩ := FileTree.grows_makeDirectories hw hr hmake
  obtain ⟨hwf, hkeep, -⟩ := save_leaves hgrow.wellFormed hr hp (r.load g)
  refine ⟨hwf, ⟨p, hp.of_keeps hkeep⟩, fun n known hn => ?_⟩
  change ((World.cacheCell key).get w).get? n = some known at hn
  rw [hcold, NameMap.get?_empty] at hn
  cases hn

/-- **Opening a database again** changes neither its records nor a document of any directory. -/
theorem reopened_of_prepare {w₁ : World} (h : r.Opened key w) (hr : r.path ≠ "")
    (hfiles : w₁.files = w.files) (hopen : World.fileCell.zoom r.prepare w₁ = (.ok (), w')) :
    r.load w'.files = r.load w.files ∧ ∀ (a : Directory) k c,
      a.Holds w'.files k c ↔ a.Holds w.files k c := by
  obtain ⟨t', hprepare, rfl⟩ := exists_of_zoom hopen
  obtain ⟨g, hmake, rfl⟩ := prepare_eq_ok_iff.1 hprepare
  obtain ⟨p, hp⟩ := h.there
  rw [hfiles, FileTree.makeDirectories_of_leads hr hp] at hmake
  cases hmake
  obtain ⟨-, hkeep, hback, hother⟩ := save_leaves h.wellFormed hr hp (r.load w.files)
  refine ⟨load_save h.wellFormed hr hp, fun a k c => ?_⟩
  have hne : ∀ q, q ++ [Directory.fileName k] ≠ p ++ [fileName] := fun q heq => by
    have hname := List.singleton_inj.1 (List.append_inj_right' heq rfl)
    exact absurd (hname ▸ Directory.length_fileName (n := k)) (by decide)
  constructor
  · rintro ⟨q, hq, hc⟩
    exact ⟨q, hq.of_keeps hback, (hother _ _ (hne q)).1 hc⟩
  · rintro ⟨q, hq, hc⟩
    exact ⟨q, hq.of_keeps hkeep, (hother _ _ (hne q)).2 hc⟩

/-- A document of a database, if it can be read. -/
def doc? (r : Records) (t : FileTree) (n : String) : Option Yaml.Mapping :=
  (readText (r.load t) n).toOption.map (·.data)

theorem doc?_of_load (h : r.load t' = r.load t) (n : String) : r.doc? t' n = r.doc? t n := by
  rw [doc?, h, doc?]

/-- The same records say the same. -/
theorem sameDocuments_of_load (h : r.load t' = r.load t) :
    SameDocuments (fun t => (r.load t).keys) r.doc? t t' :=
  ⟨congrArg NameMap.keys h, fun n _ => doc?_of_load h n⟩

/-- **The documents of a database** that is read through a cache can be copied. -/
def source (r : Records) (label key : String) (d : Directory) (hr : r.path ≠ "") :
    Source (cached (World.database label r) (World.cacheCell key)) d where
  Ready := r.Opened key
  listed t := (r.load t).keys
  doc? := r.doc?
  readMany := rfl
  wellFormed h := h.wellFormed
  sorted _ := NameMap.keys_sorted _
  list {w} _ := by
    show (Except.ok (namesFrom (r.load w.files) ""), w) = _
    rw [namesFrom_empty]
  read_left n h := by
    obtain ⟨w', hread, hfiles, hw'⟩ := exists_read label h n
    rw [hread]
    exact ⟨hfiles, hw'⟩
  read_eq_ok_iff {w} n h e := by
    obtain ⟨w', hread, -⟩ := exists_read label h n
    rw [hread]
    exact Document.eq_ok_iff_exists_data fun _ => name_of_readText
  written h _ _ _ hrev := by
    obtain ⟨hready, hload⟩ := h.of_revises hr hrev
    exact ⟨hready, sameDocuments_of_load hload⟩
  deleted h _ hrev _ := by
    obtain ⟨hready, hload⟩ := h.of_revises hr hrev
    exact ⟨hready, sameDocuments_of_load hload⟩

end Records

end Storage

end SiteConfig
