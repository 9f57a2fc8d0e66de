import Mathlib
import SiteConfig.Proofs.Cached
import SiteConfig.Proofs.Folder
import SiteConfig.Proofs.Scene
import SiteConfig.Proofs.Search
import SiteConfig.World

/-!
# Copying documents into a directory

All documents of one storage are copied into a directory: first what the storage does not have is
deleted, then everything is written, one document after the other. What the storage does not have is
found by binary search, so that its names must be in order
(`SiteConfig.Storage.isOk_searchSorted_iff`).

Nothing keeps storage and directory apart; the directory may be the very one that the storage reads,
and every document is only read when its turn comes. What is needed of the storage is stated in
`SiteConfig.Storage.Source`: that it is read off the files, and that neither the writing of one of
its own documents nor the deletion of one that it does not list is noticed there. What is needed of
the documents is that their texts say what they are (`SiteConfig.Yaml.ReadsBack`), since it is the
texts that are kept.

Each step of a copy then keeps what the storage says, and adds one document to those that the
directory has in common with it (`SiteConfig.Storage.Source.Copied`). In the end the directory
lists and reads just what the storage does (`SiteConfig.Storage.Source.exists_documents`).
-/

namespace SiteConfig

namespace NameMap

variable {α : Type} {names : List String} {f : String → Option α} {n : String} {v : α}

/-- What a function gives for some names, as a map. -/
def gather (names : List String) (f : String → Option α) : NameMap α :=
  .ofList (names.filterMap fun n => (f n).map fun v => (n, v))

theorem get?_gather_eq_some_iff : (gather names f).get? n = some v ↔ n ∈ names ∧ f n = some v := by
  have hmem : ∀ n v, (n, v) ∈ (names.filterMap fun n => (f n).map fun v => (n, v)) ↔
      n ∈ names ∧ f n = some v := by
    intro n v
    rw [List.mem_filterMap]
    constructor
    · rintro ⟨k, hk, hv⟩
      obtain ⟨v', hv', heq⟩ := Option.map_eq_some_iff.1 hv
      cases heq
      exact ⟨hk, hv'⟩
    · rintro ⟨hn, hv⟩
      exact ⟨n, hn, by rw [hv, Option.map_some]⟩
  rw [gather, get?_ofList_eq_some_iff, hmem]
  intro k v w hv hw
  have hv := ((hmem k v).1 hv).2
  rw [((hmem k w).1 hw).2] at hv
  exact (Option.some.inj hv).symm

/-- All that a function gives, where it gives something for some names only. -/
theorem get?_gather (h : ∀ n v, f n = some v → n ∈ names) (n : String) :
    (gather names f).get? n = f n := by
  ext v
  rw [get?_gather_eq_some_iff]
  exact ⟨fun hv => hv.2, fun hv => ⟨h n v hv, hv⟩⟩

/-- Sorted names and what they are bound to make a map. -/
theorem exists_keys_eq (hl : names.Pairwise (· < ·)) (hf : ∀ n ∈ names, ∃ v, f n = some v) :
    ∃ m : NameMap α, m.keys = names ∧ ∀ n v, m.get? n = some v ↔ n ∈ names ∧ f n = some v := by
  refine ⟨gather names f, eq_of_mem_iff (keys_sorted _) hl fun k => ?_,
    fun _ _ => get?_gather_eq_some_iff⟩
  rw [mem_keys_iff]
  simp only [get?_gather_eq_some_iff]
  exact ⟨fun ⟨v, hk, _⟩ => hk, fun hk => (hf k hk).imp fun v hv => ⟨hk, hv⟩⟩

end NameMap

namespace Storage

variable {s : Storage World} {d : Directory} {w w' : World} {n : String} {m : Yaml.Mapping}

/-- What is done to the files alone. -/
theorem exists_of_zoom {x : Attempt FileTree ConfigError Unit}
    (h : World.fileCell.zoom x w = (.ok (), w')) :
    ∃ t', x w.files = (.ok (), t') ∧ w' = { w with files := t' } := by
  have hfst : (x w.files).1 = .ok () := congrArg Prod.fst h
  have hsnd : { w with files := (x w.files).2 } = w' := congrArg Prod.snd h
  exact ⟨_, Prod.ext hfst rfl, hsnd.symm⟩

/-! ### Storages that are read off the files -/

/-- The same names are listed, and the same is found under them. -/
def SameDocuments (listed : FileTree → List String) (doc? : FileTree → String → Option Yaml.Mapping)
    (t t' : FileTree) : Prop :=
  listed t' = listed t ∧ ∀ n ∈ listed t, doc? t' n = doc? t n

/-- **A storage that can be copied into a directory.** As long as the world is in order, what it
lists and what can be read is determined by the files; looking leaves the files as they are. When
one of its documents is written to the directory, in a text that says what it is, or one that it
does not list is deleted there, then it still says the same. -/
structure Source (s : Storage World) (d : Directory) where
  /-- The world is in order. -/
  Ready : World → Prop
  /-- The names in some files. -/
  listed : FileTree → List String
  /-- The documents in some files that can be read. -/
  doc? : FileTree → String → Option Yaml.Mapping
  readMany : s.readMany = readEach s.read
  wellFormed : ∀ {w}, Ready w → w.files.WellFormed
  sorted : ∀ {w}, Ready w → (listed w.files).Pairwise (· < ·)
  list : ∀ {w}, Ready w → s.list "" w = (.ok (listed w.files), w)
  read_left : ∀ {w} n, Ready w → (s.read n w).2.files = w.files ∧ Ready (s.read n w).2
  read_eq_ok_iff : ∀ {w} n, Ready w → ∀ e, (s.read n w).1 = .ok e ↔
    ∃ m, doc? w.files n = some m ∧ e = ⟨n, m⟩
  written : ∀ {w t' n m text q}, Ready w → n ∈ listed w.files → doc? w.files n = some m →
    Document.ofYaml n text = .ok ⟨n, m⟩ → d.Revises n (some (.text text)) w.files t' q →
      Ready { w with files := t' } ∧ SameDocuments listed doc? w.files t'
  deleted : ∀ {w t' n q}, Ready w → n ∉ listed w.files → d.Revises n none w.files t' q →
    t'.Keeps w.files → Ready { w with files := t' } ∧ SameDocuments listed doc? w.files t'

namespace Source

variable (S : Source s d)

/-- The storage says the same in two worlds. -/
def Same (w w' : World) : Prop := SameDocuments S.listed S.doc? w.files w'.files

variable {S}

theorem Same.trans {w'' : World} (h : S.Same w w') (h' : S.Same w' w'') : S.Same w w'' :=
  ⟨h'.1.trans h.1, fun n hn => (h'.2 n (h.1 ▸ hn)).trans (h.2 n hn)⟩

variable (S)

/-- The directory holds a document of the storage. -/
def Mirrored (w : World) (n : String) : Prop :=
  ∃ m, S.doc? w.files n = some m ∧ d.read w.files n = .ok ⟨n, m⟩

/-- **What copying some names does**: the storage says the same, the directory holds the documents
of these names and those that it held, and no others. -/
structure Copied (names : List String) (w w' : World) : Prop where
  ready : S.Ready w'
  same : S.Same w w'
  keeps : w.files.Keeps w'.files
  copied : ∀ n ∈ names, S.Mirrored w' n
  kept : ∀ n ∈ S.listed w.files, S.Mirrored w n → S.Mirrored w' n
  new : ∀ k c, d.Holds w'.files k c → k ∈ names ∨ d.Holds w.files k c

variable {S}

/-- Nothing is copied as long as the files stay as they are. -/
theorem copied_nil (hw : S.Ready w') (hfiles : w'.files = w.files) : S.Copied [] w w' where
  ready := hw
  same := by
    rw [Same, hfiles]
    exact ⟨rfl, fun _ _ => rfl⟩
  keeps p hp := by rwa [hfiles]
  copied _ hn := nomatch hn
  kept n _ := by
    rw [Mirrored, Mirrored, hfiles]
    exact id
  new k c := by
    rw [hfiles]
    exact .inr

theorem Copied.append {w'' : World} {names names' : List String} (h : S.Copied names w w')
    (h' : S.Copied names' w' w'') (hnames : ∀ n ∈ names, n ∈ S.listed w.files) :
    S.Copied (names ++ names') w w'' where
  ready := h'.ready
  same := h.same.trans h'.same
  keeps := h.keeps.trans h'.keeps
  copied n hn := by
    rcases List.mem_append.1 hn with hn | hn
    · exact h'.kept n (h.same.1 ▸ hnames n hn) (h.copied n hn)
    · exact h'.copied n hn
  kept n hn hm := h'.kept n (h.same.1 ▸ hn) (h.kept n hn hm)
  new k c hc := by
    rcases h'.new k c hc with hk | hc
    · exact .inl (List.mem_append_right _ hk)
    · exact (h.new k c hc).imp_left fun hk => List.mem_append_left _ hk

/-! ### Copying one by one -/

section Each

variable (hw : S.Ready w) (hd : d.path ≠ "")

include hw hd in
/-- **Writing one document** of the storage to the directory. -/
theorem copied_write (hthere : (∃ p, w.files.Leads d.workingDir d.path p) ∨
      FileTree.Straight d.path) (hn : n ∈ S.listed w.files) (hm : S.doc? w.files n = some m)
    (hback : Yaml.ReadsBack m) (h : (World.directory d).write n m w = (.ok (), w')) :
    S.Copied [n] w w' := by
  obtain ⟨t', hwrite, rfl⟩ := exists_of_zoom (x := d.write n m) h
  have hwf := S.wellFormed hw
  obtain ⟨text, q, htext, hrev, -⟩ := Directory.revises_of_write hwf hd hwrite
  obtain ⟨hready, hsame⟩ := S.written hw hn hm (hback.ofYaml htext n) hrev
  have hself := fun k c => hrev.holds_self_iff (k := k) (c := c) hwf hthere
  have hcopied : S.Mirrored { w with files := t' } n :=
    ⟨m, (hsame.2 n hn).trans hm, Directory.read_of_write hwf hd hwrite hback⟩
  refine ⟨hready, hsame, hrev.keeps, fun k hk => ?_, fun k hk ⟨m', hm', hread⟩ => ?_, fun k c hc => ?_⟩
  · obtain rfl := List.mem_singleton.1 hk
    exact hcopied
  · by_cases hkn : k = n
    · rwa [hkn]
    · refine ⟨m', (hsame.2 k hk).trans hm', (Directory.read_eq_ok_congr hd fun c => ?_).1 hread⟩
      rw [hself, if_neg hkn]
  · by_cases hkn : k = n
    · exact .inl (hkn ▸ List.mem_singleton_self n)
    · exact .inr (by rwa [hself, if_neg hkn] at hc)

include hw hd in
/-- **Copying some documents**, by induction on the names: every document is still what it was when
its turn comes. -/
theorem copied_copyEach {names : List String} (hthere : (∃ p, w.files.Leads d.workingDir d.path p) ∨
      FileTree.Straight d.path) (hnames : ∀ n ∈ names, n ∈ S.listed w.files)
    (hback : ∀ n ∈ names, ∀ m, S.doc? w.files n = some m → Yaml.ReadsBack m)
    (h : copyEach s (World.directory d) names w = (.ok (), w')) : S.Copied names w w' := by
  induction names generalizing w with
  | nil =>
    cases h
    exact copied_nil hw rfl
  | cons n names ih =>
    obtain ⟨e, w₁, hread, h⟩ := Attempt.bind_eq_ok_iff.1 h
    obtain ⟨u, w₂, hwrite, hrest⟩ := Attempt.bind_eq_ok_iff.1 h
    have hn := hnames n List.mem_cons_self
    obtain ⟨m, hm, rfl⟩ := (S.read_eq_ok_iff n hw e).1 (congrArg Prod.fst hread)
    obtain ⟨hfiles, hw₁⟩ := S.read_left n hw
    rw [hread] at hfiles hw₁
    have hlook := copied_nil (S := S) hw₁ hfiles
    have hstep := hlook.append (copied_write hw₁ hd
      (hthere.imp_left fun ⟨p, hp⟩ => ⟨p, hp.of_keeps hlook.keeps⟩) (hlook.same.1 ▸ hn)
      ((hlook.same.2 n hn).trans hm) (hback n List.mem_cons_self m hm) hwrite)
      (fun k hk => nomatch hk)
    have hlisted := fun k hk => hnames k (List.mem_cons_of_mem n hk)
    refine hstep.append (ih hstep.ready
      (hthere.imp_left fun ⟨p, hp⟩ => ⟨p, hp.of_keeps hstep.keeps⟩) (fun k hk => ?_)
      (fun k hk m' hm' => ?_) hrest) (by simpa using hn)
    · rw [hstep.same.1]
      exact hlisted k hk
    · rw [hstep.same.2 k (hlisted k hk)] at hm'
      exact hback k (List.mem_cons_of_mem n hk) m' hm'

end Each

/-! ### Deleting one by one -/

/-- **What deleting some names does**, of which the storage lists none: the storage says the same,
and the directory holds nothing under these names and nothing new. -/
structure Cleared (S : Source s d) (names : List String) (w w' : World) : Prop where
  ready : S.Ready w'
  same : S.Same w w'
  keeps : w.files.Keeps w'.files
  left : ∀ k c, d.Holds w'.files k c → k ∉ names ∧ d.Holds w.files k c

/-- **Deleting one document** that the storage does not list. -/
theorem cleared_delete (hw : S.Ready w) (hd : d.path ≠ "") (hn : n ∉ S.listed w.files)
    (h : (World.directory d).delete n w = (.ok (), w')) : S.Cleared [n] w w' := by
  obtain ⟨t', hdelete, rfl⟩ := exists_of_zoom (x := d.delete n) h
  have hwf := S.wellFormed hw
  obtain ⟨q, hrev, hback⟩ := Directory.revises_of_delete hwf hd hdelete
  obtain ⟨hready, hsame⟩ := S.deleted hw hn hrev hback
  refine ⟨hready, hsame, hrev.keeps, fun k c hc => ?_⟩
  have hself := hrev.holds_self_iff (k := k) (c := c) hwf (.inl ⟨q, hrev.leads.of_keeps hback⟩)
  rw [hself] at hc
  split at hc
  · cases hc
  · rename_i hkn
    exact ⟨by simpa using hkn, hc⟩

theorem cleared_deleteEach {names : List String} (hw : S.Ready w) (hd : d.path ≠ "")
    (hnames : ∀ n ∈ names, n ∉ S.listed w.files)
    (h : deleteEach (World.directory d).delete names w = (.ok (), w')) : S.Cleared names w w' := by
  induction names generalizing w with
  | nil =>
    cases h
    exact ⟨hw, ⟨rfl, fun _ _ => rfl⟩, fun _ hp => hp, fun _ _ hc => ⟨List.not_mem_nil, hc⟩⟩
  | cons n names ih =>
    obtain ⟨u, w₁, hdelete, hrest⟩ := Attempt.bind_eq_ok_iff.1 h
    have hstep := cleared_delete hw hd (hnames n List.mem_cons_self) hdelete
    have hrest := ih hstep.ready (fun k hk => by
      rw [hstep.same.1]
      exact hnames k (List.mem_cons_of_mem n hk)) hrest
    refine ⟨hrest.ready, hstep.same.trans hrest.same, hstep.keeps.trans hrest.keeps, fun k c hc => ?_⟩
    obtain ⟨hk, hc⟩ := hrest.left k c hc
    obtain ⟨hkn, hc⟩ := hstep.left k c hc
    exact ⟨by simpa using ⟨List.ne_of_not_mem_cons hkn, hk⟩, hc⟩

/-! ### Copying everything -/

/-- The storage holds some documents, which are all that it lists. -/
structure Holds (S : Source s d) (w : World) (docs : Documents) : Prop where
  ready : S.Ready w
  listed : S.listed w.files = docs.keys
  doc : ∀ n m, docs.get? n = some m → S.doc? w.files n = some m

end Source

/-- A directory lists some documents and nothing else, and all of them can be read. -/
structure Directory.Offers (d : Directory) (t : FileTree) (docs : Documents) : Prop where
  list : d.list t "" = .ok docs.keys
  read : ∀ n m, docs.get? n = some m → d.read t n = .ok ⟨n, m⟩

/-- What is offered is a matter of what is held. -/
theorem Directory.Offers.congr {t t' : FileTree} {docs : Documents} (h : d.Offers t docs)
    (ht : t.WellFormed) (ht' : t'.WellFormed) (hd : d.path ≠ "")
    (hsame : ∀ k c, d.Holds t' k c ↔ d.Holds t k c) : d.Offers t' docs where
  list := by
    rw [Directory.list_congr ht' ht fun k _ => exists_congr (hsame k), h.list]
  read n m hm := (Directory.read_eq_ok_congr hd (hsame n)).2 (h.read n m hm)

namespace Source

variable {S : Source s d}

/-- **What copying everything leaves in the directory**: it lists what the storage lists. -/
theorem list_of_copied {w₁ : World} (hw : S.Ready w) (hd : d.path ≠ "")
    (hshown : ∀ n ∈ S.listed w.files, n.toList.head? ≠ some '.')
    (hold : ∀ n c, Directory.Shown n → d.Holds w₁.files n c → n ∈ S.listed w.files)
    (h : S.Copied (S.listed w.files) w₁ w') : d.list w'.files "" = .ok (S.listed w.files) := by
  obtain ⟨l, hl, hsorted, hmem⟩ := Directory.exists_list (S.wellFormed h.ready) d
  rw [hl, NameMap.eq_of_mem_iff hsorted (S.sorted hw) fun n => ?_]
  rw [hmem]
  constructor
  · rintro ⟨hs, c, hc⟩
    exact (h.new n c hc).elim id (hold n c hs)
  · intro hn
    obtain ⟨m, -, hread⟩ := h.copied n hn
    obtain ⟨hcheck, -, c, hc, -⟩ := (Directory.read_eq_ok_iff hd).1 hread
    exact ⟨Directory.shown_of_head (Directory.ne_empty_of_checkEntry hcheck) (hshown n hn), c, hc⟩

/-- **After everything has been copied** the storage and the directory hold the same documents, and
the storage holds what it held before. -/
theorem exists_documents {count : Nat} (hw : S.Ready w) (hd : d.path ≠ "")
    (hthere : (∃ p, w.files.Leads d.workingDir d.path p) ∨ FileTree.Straight d.path)
    (hshown : ∀ n ∈ S.listed w.files, n.toList.head? ≠ some '.')
    (hback : ∀ n ∈ S.listed w.files, ∀ m, S.doc? w.files n = some m → Yaml.ReadsBack m)
    (h : copyAll s (World.directory d) w = (.ok count, w')) :
    ∃ docs, S.Holds w docs ∧ S.Holds w' docs ∧ d.Offers w'.files docs := by
  obtain ⟨names, w₀, hnames, h⟩ := Attempt.bind_eq_ok_iff.1 h
  obtain ⟨old, w₁, hold, h⟩ := Attempt.bind_eq_ok_iff.1 h
  obtain ⟨u, w₂, hdelete, h⟩ := Attempt.bind_eq_ok_iff.1 h
  obtain ⟨u', w₃, hcopy, hdone⟩ := Attempt.bind_eq_ok_iff.1 h
  rw [S.list hw] at hnames
  cases hnames
  have hlist : d.list w.files "" = .ok old := congrArg Prod.fst hold
  obtain rfl : w = w₁ := congrArg Prod.snd hold
  cases hdone
  have hclear := cleared_deleteEach hw hd
    (fun n hn => ((mem_filter_searchSorted_iff (S.sorted hw)).1 hn).2) hdelete
  have hcopied := copied_copyEach hclear.ready hd
    (hthere.imp_left fun ⟨p, hp⟩ => ⟨p, hp.of_keeps hclear.keeps⟩)
    (fun n hn => by rwa [hclear.same.1])
    (fun n hn m hm => hback n hn m ((hclear.same.2 n hn).symm.trans hm)) hcopy
  -- what the directory listed before is gone now, unless the storage lists it, too
  have hleft : ∀ n c, Directory.Shown n → d.Holds w₂.files n c → n ∈ S.listed w.files := by
    intro n c hs hc
    obtain ⟨hn, hc⟩ := hclear.left n c hc
    obtain ⟨l, hl, -, hmem⟩ := Directory.exists_list (S.wellFormed hw) d
    rw [hlist] at hl
    cases hl
    by_contra hno
    exact hn ((mem_filter_searchSorted_iff (S.sorted hw)).2 ⟨(hmem n).2 ⟨hs, c, hc⟩, hno⟩)
  have hsame := hclear.same.trans hcopied.same
  obtain ⟨docs, hkeys, hget⟩ := NameMap.exists_keys_eq (S.sorted hw) (f := S.doc? w.files)
    fun n hn => by
      obtain ⟨m, hm, -⟩ := hcopied.copied n hn
      exact ⟨m, (hsame.2 n hn).symm.trans hm⟩
  have hdoc := fun n m hm => (hget n m).1 hm
  refine ⟨docs, ⟨hw, hkeys.symm, fun n m hm => (hdoc n m hm).2⟩,
    ⟨hcopied.ready, hsame.1.trans hkeys.symm, fun n m hm => ?_⟩, ?_, fun n m hm => ?_⟩
  · exact (hsame.2 n (hdoc n m hm).1).trans (hdoc n m hm).2
  · rw [list_of_copied hw hd hshown hleft hcopied, hkeys]
  · obtain ⟨m', hm', hread⟩ := hcopied.copied n (hdoc n m hm).1
    rw [hsame.2 n (hdoc n m hm).1, (hdoc n m hm).2] at hm'
    cases hm'
    exact hread

end Source

/-! ### Comparing what has been copied -/

/-- Reading the documents of some names one by one. -/
theorem yields_readEach {σ τ : Type} {read : String → Attempt σ ConfigError Document}
    {seen : σ → τ} {v : τ} {docs : Documents}
    (h : ∀ n m st, seen st = v → docs.get? n = some m → (read n).Yields seen st (.ok ⟨n, m⟩) v)
    {names : List String} (hnames : ∀ n ∈ names, ∃ m, docs.get? n = some m) {st : σ}
    (hst : seen st = v) :
    (readEach read names).Yields seen st (.ok (documentsOf docs names)) v := by
  induction names generalizing st with
  | nil => exact Attempt.yields_pure _ hst
  | cons n names ih =>
    obtain ⟨m, hm⟩ := hnames n List.mem_cons_self
    have hcons : documentsOf docs (n :: names) = [⟨n, m⟩] ++ documentsOf docs names := by
      rw [documentsOf, List.filterMap_cons, hm]
      rfl
    rw [hcons]
    exact (((h n m st hst hm).bind fun s₁ h₁ => Attempt.yields_pure (some _) h₁).recover).bind
      fun s₂ h₂ => (ih (fun k hk => hnames k (List.mem_cons_of_mem n hk)) h₂).bind
        fun s₃ h₃ => Attempt.yields_pure _ h₃

namespace Source

variable {S : Source s d} {docs : Documents}

/-- What is seen of the world: the files, and whether it is in order. -/
def seen (S : Source s d) (w : World) : FileTree × Prop := (w.files, S.Ready w)

theorem seen_eq_iff (hw : S.Ready w) : S.seen w' = S.seen w ↔ w'.files = w.files ∧ S.Ready w' := by
  rw [seen, seen, Prod.mk.injEq, eq_iff_iff, iff_true_right hw]

/-- **A storage and a directory that hold the same documents** can be compared. -/
theorem Holds.holds (h : S.Holds w docs) (hoffers : d.Offers w.files docs) {i : Importer World}
    (hsource : i.comparer.source = World.directory d) (htarget : i.comparer.target = s) :
    i.Holds S.seen (S.seen w) docs docs where
  listSource w' hw' := by
    obtain ⟨hfiles, -⟩ := (seen_eq_iff h.ready).1 hw'
    refine ⟨w', ?_, hw'⟩
    rw [hsource, ← hoffers.list, ← hfiles]
    rfl
  readSource w' hw' := by
    rw [hsource]
    refine yields_readEach (fun n m w₁ hw₁ hm => ⟨w₁, ?_, hw₁⟩) (fun n => NameMap.mem_keys_iff.1) hw'
    rw [← hoffers.read n m hm, ← ((seen_eq_iff h.ready).1 hw₁).1]
    rfl
  listTarget w' hw' := by
    obtain ⟨hfiles, hready⟩ := (seen_eq_iff h.ready).1 hw'
    refine ⟨w', ?_, hw'⟩
    rw [htarget, S.list hready, hfiles, h.listed]
  readTarget w' hw' := by
    rw [htarget, S.readMany]
    refine yields_readEach (fun n m w₁ hw₁ hm => ?_) (fun n => NameMap.mem_keys_iff.1) hw'
    obtain ⟨hfiles, hready⟩ := (seen_eq_iff h.ready).1 hw₁
    obtain ⟨hfiles', hready'⟩ := S.read_left n hready
    have hread : (s.read n w₁).1 = .ok ⟨n, m⟩ :=
      (S.read_eq_ok_iff n hready _).2 ⟨m, by rw [hfiles, h.doc n m hm], rfl⟩
    exact ⟨(s.read n w₁).2, Prod.ext hread rfl,
      (seen_eq_iff h.ready).2 ⟨hfiles'.trans hfiles, hready'⟩⟩

end Source

end Storage

end SiteConfig
