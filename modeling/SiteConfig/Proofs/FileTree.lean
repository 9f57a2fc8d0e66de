import Mathlib
import SiteConfig.FileTree.Basic
import SiteConfig.Proofs.NameMap

/-!
# What file operations do to a tree

Paths are followed step by step, so that a path means nothing by itself: it leads to a place
only in a tree that has every directory on its way. Two facts make paths usable all the same.
A path that leads somewhere goes on leading there as long as no directory is taken away
(`SiteConfig.FileTree.resolve_of_keeps`), and nothing that the program does to a tree takes
one away. And the path of an entry of a directory leads to the entry of the place of the
directory (`SiteConfig.FileTree.Leads.entry`), although joining paths is a matter of text.

Each operation is then described by what it does to places: directories are only ever added
(`SiteConfig.FileTree.Grows`), and a file is put, taken away or moved.
-/

namespace SiteConfig

/-! ### The text of paths -/

namespace Path

/-- The parts of a text between its slashes. -/
def split (l : List Char) : List (List Char) :=
  l.foldr (fun c acc =>
    match c, acc with
    | '/', acc => [] :: acc
    | c, part :: r => (c :: part) :: r
    | c, [] => [[c]]) [[]]

theorem parts_eq (p : String) : parts p = split p.toList := rfl

theorem split_slash (l : List Char) : split ('/' :: l) = [] :: split l := rfl

theorem split_cons {c : Char} (hc : c ≠ '/') {l : List Char} {part : List Char}
    {r : List (List Char)} (h : split l = part :: r) : split (c :: l) = (c :: part) :: r := by
  unfold split at h ⊢
  rw [List.foldr_cons, h]
  split
  · exact absurd rfl hc
  · rename_i heq
    cases heq
    rfl
  · rename_i heq
    cases heq

theorem split_ne_nil (l : List Char) : split l ≠ [] := by
  induction l with
  | nil => exact List.cons_ne_nil _ _
  | cons c l ih =>
    by_cases hc : c = '/'
    · subst hc
      exact List.cons_ne_nil _ _
    · obtain ⟨part, r, h⟩ := List.exists_cons_of_ne_nil ih
      rw [split_cons hc h]
      exact List.cons_ne_nil _ _

/-- Splitting at a slash. -/
theorem split_append (a b : List Char) : split (a ++ '/' :: b) = split a ++ split b := by
  induction a with
  | nil => rfl
  | cons c a ih =>
    by_cases hc : c = '/'
    · subst hc
      rw [List.cons_append, split_slash, split_slash, ih, List.cons_append]
    · obtain ⟨part, r, h⟩ := List.exists_cons_of_ne_nil (split_ne_nil a)
      rw [h, List.cons_append] at ih
      rw [List.cons_append, split_cons hc h, split_cons hc ih, List.cons_append]

/-- A text without a slash is one part. -/
theorem split_of_notMem {l : List Char} (h : '/' ∉ l) : split l = [l] := by
  induction l with
  | nil => rfl
  | cons c l ih =>
    rw [List.mem_cons, not_or] at h
    exact split_cons (Ne.symm h.1) (ih h.2)

/-- **Joining a name to a path** appends it, after a slash unless there is one. -/
theorem exists_join {path x : String} (hpath : path ≠ "") (hx : '/' ∉ x.toList) :
    ∃ mid, (join path x).toList = path.toList ++ mid ++ x.toList ∧
      ((mid = ['/']) ∨ mid = [] ∧ ∃ d, path.toList = d ++ ['/']) := by
  have hrel : isRelative x = true := by
    rw [isRelative, bne_iff_ne]
    intro h
    exact hx (List.mem_of_mem_head? h)
  have hne : path.isEmpty = false := by simpa using hpath
  rw [join, hrel, Bool.not_true, if_neg Bool.false_ne_true, hne]
  by_cases hlast : path.toList.getLast? = some '/'
  · rw [if_pos (.inr hlast), String.toList_append]
    exact ⟨[], by simp, .inr ⟨rfl, _, (List.dropLast_append_getLast? _ hlast).symm⟩⟩
  · rw [if_neg (by simp [hlast]), String.toList_append, String.toList_append]
    exact ⟨['/'], rfl, .inl rfl⟩

end Path

namespace FileTree

variable {t t' : FileTree} {p q : Place} {n : FileNode} {wd : Place} {path : String}

/-! ### Places -/

theorem get?_of_ne_nil (hp : p ≠ []) : t.get? p = t.nodes.lookup p := by
  rw [get?, if_neg (by simpa using hp)]

theorem ne_nil_of_get?_ne (h : t.get? p ≠ some .directory) : p ≠ [] := by
  rintro rfl
  exact h rfl

theorem ne_nil_of_get?_eq_none (h : t.get? p = none) : p ≠ [] :=
  ne_nil_of_get?_ne fun hdir => by
    rw [h] at hdir
    cases hdir

/-- **A tree in order** has every place once, and whatever it has stands in a directory. -/
structure WellFormed (t : FileTree) : Prop where
  nodup : (t.nodes.map (·.1)).Nodup
  inside : ∀ p n, t.get? p = some n → t.get? p.dropLast = some .directory

theorem wellFormed_empty : empty.WellFormed where
  nodup := List.nodup_nil
  inside p n h := by
    by_cases hp : p = []
    · subst hp
      rfl
    · rw [get?_of_ne_nil hp] at h
      cases h

theorem lookup_map_replace (nodes : List (Place × FileNode)) (p q : Place) (n : FileNode) :
    (nodes.map fun e => if e.1 == p then (p, n) else e).lookup q =
      if q = p then (nodes.lookup p).map fun _ => n else nodes.lookup q := by
  induction nodes with
  | nil => simp
  | cons e nodes ih =>
    obtain ⟨k, m⟩ := e
    rw [List.map_cons]
    by_cases hk : k = p
    · subst hk
      rw [if_pos (beq_self_eq_true k)]
      by_cases hq : q = k
      · subst hq
        simp
      · rw [if_neg hq] at ih ⊢
        rw [List.lookup_cons, List.lookup_cons, beq_false_of_ne hq, ih]
    · rw [if_neg (by simpa using hk), List.lookup_cons, List.lookup_cons, List.lookup_cons,
        beq_false_of_ne (Ne.symm hk), ih]
      by_cases hq : q = k
      · subst hq
        rw [if_neg hk, if_neg hk]
      · simp [beq_false_of_ne hq]

/-- **Putting a node** changes what stands at its place. -/
theorem get?_put (t : FileTree) (hp : p ≠ []) (n : FileNode) (q : Place) :
    (t.put p n).get? q = if q = p then some n else t.get? q := by
  by_cases hq : q = []
  · subst hq
    rw [if_neg (Ne.symm hp)]
    rfl
  rw [get?_of_ne_nil hq, get?_of_ne_nil hq, put]
  split
  · rename_i hany
    rw [lookup_map_replace]
    split
    · obtain ⟨e, he, hep⟩ := List.any_eq_true.1 hany
      have hsome : (t.nodes.lookup p).isSome = true :=
        List.lookup_isSome_iff.2 ⟨e, he, beq_iff_eq.2 (eq_of_beq hep).symm⟩
      obtain ⟨m, hm⟩ := Option.isSome_iff_exists.1 hsome
      rw [hm, Option.map_some]
    · rfl
  · rename_i hany
    rw [List.lookup_append]
    split
    · rename_i heq
      subst heq
      have hnone : t.nodes.lookup q = none := List.lookup_eq_none_iff.2 fun e he =>
        bne_iff_ne.2 fun heq => hany (List.any_eq_true.2 ⟨e, he, beq_iff_eq.2 heq.symm⟩)
      rw [hnone, Option.none_or, List.lookup_cons_self]
    · rename_i hne
      simp [List.lookup_cons, beq_false_of_ne hne]

/-- **Taking a place away** changes nothing else. -/
theorem get?_erase (t : FileTree) (hp : p ≠ []) (q : Place) :
    (t.erase p).get? q = if q = p then none else t.get? q := by
  by_cases hq : q = []
  · subst hq
    rw [if_neg (Ne.symm hp)]
    rfl
  rw [get?_of_ne_nil hq, get?_of_ne_nil hq, erase]
  induction t.nodes with
  | nil => simp
  | cons e nodes ih =>
    obtain ⟨k, m⟩ := e
    by_cases hk : k = p
    · rw [List.filter_cons_of_neg (by simpa using hk), ih]
      split
      · rfl
      · rename_i hqp
        rw [List.lookup_cons, beq_false_of_ne (hk ▸ hqp)]
    · rw [List.filter_cons_of_pos (by simpa using hk), List.lookup_cons, List.lookup_cons, ih]
      by_cases hq : q = k
      · subst hq
        simp [hk]
      · rw [beq_false_of_ne hq]

/-- Putting something into a directory keeps a tree in order, unless it takes the place of a
directory. -/
theorem WellFormed.put (h : t.WellFormed) (hp : p ≠ []) (hin : t.get? p.dropLast = some .directory)
    (hdir : t.get? p = some .directory → n = .directory) : (t.put p n).WellFormed where
  nodup := by
    rw [FileTree.put]
    split
    · rw [List.map_map]
      refine (List.map_congr_left fun e _ => ?_) ▸ h.nodup
      show e.1 = (if e.1 == p then (p, n) else e).1
      split
      · rename_i he
        exact eq_of_beq he
      · rfl
    · rename_i hany
      rw [List.map_append, List.map_singleton]
      refine List.nodup_append.2 ⟨h.nodup, List.nodup_singleton _, ?_⟩
      rintro a ha b hb rfl
      obtain rfl : a = p := List.mem_singleton.1 hb
      exact hany (by simpa using ha)
  inside q m hq := by
    rw [get?_put t hp] at hq
    have hparent : t.get? q.dropLast = some .directory := by
      split at hq
      · rename_i heq
        rw [heq]
        exact hin
      · exact h.inside q m hq
    rw [get?_put t hp]
    split
    · rename_i heq
      rw [heq] at hparent
      rw [hdir hparent]
    · exact hparent

/-- Taking a file away keeps a tree in order. -/
theorem WellFormed.erase (h : t.WellFormed) (hp : t.get? p ≠ some .directory) :
    (t.erase p).WellFormed where
  nodup := h.nodup.sublist (List.filter_sublist.map _)
  inside q m hq := by
    have hne := ne_nil_of_get?_ne hp
    rw [get?_erase t hne] at hq
    split at hq
    · cases hq
    · have hparent := h.inside q m hq
      have hother : q.dropLast ≠ p := fun heq => hp (heq ▸ hparent)
      rwa [get?_erase t hne, if_neg hother]

theorem WellFormed.lookup_iff (h : t.WellFormed) : t.nodes.lookup p = some n ↔ (p, n) ∈ t.nodes := by
  constructor
  · intro hp
    obtain ⟨l, r, hsplit, -⟩ := List.lookup_eq_some_iff.1 hp
    rw [hsplit]
    exact List.mem_append_right _ List.mem_cons_self
  · intro hp
    obtain ⟨l, r, hsplit⟩ := List.append_of_mem hp
    have hn := h.nodup
    rw [hsplit, List.map_append, List.nodup_append] at hn
    refine List.lookup_eq_some_iff.2 ⟨l, r, hsplit, fun e he => bne_iff_ne.2 ?_⟩
    exact Ne.symm (hn.2.2 e.1 (List.mem_map_of_mem he) p (by simp))

/-- Whether a tree is in order can be found out. -/
theorem wellFormed_iff : t.WellFormed ↔ (t.nodes.map (·.1)).Nodup ∧
    ∀ e ∈ t.nodes, t.isDirectoryAt e.1.dropLast = true := by
  have hdir : ∀ p, t.isDirectoryAt p = true ↔ t.get? p = some .directory := by
    intro p
    unfold isDirectoryAt
    split
    · rename_i h
      exact iff_of_true rfl h
    · rename_i h
      exact iff_of_false (fun h => by cases h) h
  simp only [hdir]
  constructor
  · refine fun h => ⟨h.nodup, fun ⟨p, n⟩ he => ?_⟩
    by_cases hp : p = []
    · subst hp
      rfl
    · exact h.inside p n ((get?_of_ne_nil hp).trans (h.lookup_iff.2 he))
  · rintro ⟨hnodup, hin⟩
    refine ⟨hnodup, fun p n hn => ?_⟩
    by_cases hp : p = []
    · subst hp
      rfl
    · rw [get?_of_ne_nil hp] at hn
      obtain ⟨l, r, hsplit, -⟩ := List.lookup_eq_some_iff.1 hn
      exact hin (p, n) (hsplit ▸ List.mem_append_right _ List.mem_cons_self)

instance : Decidable t.WellFormed := decidable_of_iff _ wellFormed_iff.symm

/-- **A child of a directory** is what stands under its name. -/
theorem get?_children (h : t.WellFormed) (p : Place) (x : String) :
    (t.children p).get? x = t.get? (p ++ [x]) := by
  unfold children
  generalize hl : t.nodes.filterMap _ = l
  have hmem : ∀ x n, (x, n) ∈ l ↔ (p ++ [x], n) ∈ t.nodes := by
    intro x n
    rw [← hl, List.mem_filterMap]
    constructor
    · rintro ⟨⟨q, m⟩, he, hsome⟩
      rcases hlast : q.getLast? with _ | name <;> simp only [hlast] at hsome
      · cases hsome
      · split at hsome
        · rename_i heq
          cases hsome
          rwa [← eq_of_beq heq, List.dropLast_append_getLast? _ hlast]
        · cases hsome
    · intro hx
      exact ⟨_, hx, by simp⟩
  ext n
  rw [get?_of_ne_nil (by simp), h.lookup_iff, NameMap.get?_ofList_eq_some_iff]
  · exact hmem x n
  · intro k v w hv hw
    have hv := h.lookup_iff.2 ((hmem k v).1 hv)
    have hw := h.lookup_iff.2 ((hmem k w).1 hw)
    exact Option.some_injective _ (hv.symm.trans hw)

/-! ### Following paths -/

/-- No directory is taken away. -/
def Keeps (t t' : FileTree) : Prop := ∀ p, t.get? p = some .directory → t'.get? p = some .directory

theorem Keeps.trans {t'' : FileTree} (h : t.Keeps t') (h' : t'.Keeps t'') : t.Keeps t'' :=
  fun p hp => h' p (h p hp)

/-- Putting something where there is no directory takes none away. -/
theorem keeps_put (hp : t.get? p ≠ some .directory) (n : FileNode) : t.Keeps (t.put p n) := by
  intro q hq
  have hother : q ≠ p := by
    rintro rfl
    exact hp hq
  rwa [get?_put t (ne_nil_of_get?_ne hp), if_neg hother]

/-- A file that is put is no directory. -/
theorem keeps_of_put {c : FileContent} (hp : p ≠ []) : (t.put p (.file c)).Keeps t := by
  intro q hq
  rw [get?_put t hp] at hq
  split at hq
  · cases hq
  · exact hq

/-- Taking away something else takes no directory away. -/
theorem keeps_erase (hp : t.get? p ≠ some .directory) : t.Keeps (t.erase p) := by
  intro q hq
  have hother : q ≠ p := by
    rintro rfl
    exact hp hq
  rwa [get?_erase t (ne_nil_of_get?_ne hp), if_neg hother]

/-- A step is one from a directory. -/
theorem directory_of_step {x : String} (h : t.step p x = .ok q) : t.get? p = some .directory := by
  unfold step at h
  rcases hp : t.get? p with _ | n
  · rw [hp] at h
    cases h
  · cases n with
    | directory => rfl
    | file c =>
      rw [hp] at h
      cases h

theorem step_congr (h : t.get? p = some .directory) (h' : t'.get? p = some .directory)
    (x : String) : t.step p x = t'.step p x := by
  unfold step
  rw [h, h']

theorem foldlM_step_of_keeps (h : t.Keeps t') {names : List String}
    (hq : names.foldlM t.step p = .ok q) : names.foldlM t'.step p = .ok q := by
  induction names generalizing p with
  | nil => exact hq
  | cons x names ih =>
    rw [List.foldlM_cons] at hq ⊢
    rcases hx : t.step p x with e | m <;> rw [hx] at hq
    · cases hq
    · have hdir := directory_of_step hx
      rw [← step_congr hdir (h p hdir), hx]
      exact ih hq

/-- **A path leads on** to the same place when no directory is taken away. -/
theorem resolve_of_keeps (h : t.Keeps t') (hq : t.resolve wd path = .ok q) :
    t'.resolve wd path = .ok q := by
  unfold resolve at hq ⊢
  split at hq
  · cases hq
  · rename_i hne
    rw [if_neg hne]
    split at hq
    · cases hq
    · rename_i hnul
      rw [if_neg hnul]
      exact foldlM_step_of_keeps h hq

/-- A path leads to a directory. -/
structure Leads (t : FileTree) (wd : Place) (path : String) (p : Place) : Prop where
  resolve : t.resolve wd path = .ok p
  directory : t.get? p = some .directory

theorem Leads.of_keeps (h : t.Leads wd path p) (hk : t.Keeps t') : t'.Leads wd path p :=
  ⟨resolve_of_keeps hk h.resolve, hk p h.directory⟩

theorem Leads.unique (h : t.Leads wd path p) (h' : t.Leads wd path q) : p = q := by
  have heq := h.resolve.symm.trans h'.resolve
  cases heq
  rfl

/-- What stands at a path stands at its place. -/
theorem node?_eq_ok_iff :
    t.node? wd path = .ok n ↔ ∃ p, t.resolve wd path = .ok p ∧ t.get? p = some n := by
  unfold node?
  rcases hr : t.resolve wd path with e | p
  · exact iff_of_false (fun h => by cases h) fun ⟨p, h, _⟩ => by cases h
  · simp only [bind, Except.bind]
    constructor
    · intro h
      split at h
      · cases h
        exact ⟨p, rfl, ‹_›⟩
      · cases h
    · rintro ⟨q, hq, hn⟩
      cases hq
      rw [hn]

theorem isDirectory_iff : t.isDirectory wd path = true ↔ ∃ p, t.Leads wd path p := by
  have hnode : t.isDirectory wd path = true ↔ t.node? wd path = .ok .directory := by
    unfold isDirectory
    split
    · rename_i h
      exact iff_of_true rfl h
    · rename_i h
      exact iff_of_false (fun h => by cases h) h
  rw [hnode, node?_eq_ok_iff]
  exact exists_congr fun p => ⟨fun h => ⟨h.1, h.2⟩, fun h => ⟨h.resolve, h.directory⟩⟩

theorem isFile_iff : t.isFile wd path = true ↔
    ∃ p c, t.resolve wd path = .ok p ∧ t.get? p = some (.file c) := by
  have hnode : t.isFile wd path = true ↔ ∃ c, t.node? wd path = .ok (.file c) := by
    unfold isFile
    split
    · rename_i c h
      exact iff_of_true rfl ⟨c, h⟩
    · rename_i h
      exact iff_of_false (fun h => by cases h) fun ⟨c, hc⟩ => h c hc
  rw [hnode, exists_comm]
  exact exists_congr fun c => node?_eq_ok_iff

/-- What a file holds, by the place of its path. -/
theorem content_eq_ok_iff {c : FileContent} :
    t.content wd path = .ok c ↔ ∃ p, t.resolve wd path = .ok p ∧ t.get? p = some (.file c) := by
  rw [← node?_eq_ok_iff, content]
  rcases t.node? wd path with e | n
  · exact iff_of_false (fun h => by cases h) fun h => by cases h
  · cases n with
    | directory => exact iff_of_false (fun h => by cases h) fun h => by cases h
    | file c' =>
      constructor
      · intro h
        cases h
        rfl
      · intro h
        cases h
        rfl

/-- What is listed of a directory are its children. -/
theorem Leads.list (h : t.Leads wd path p) : t.list wd path = .ok (t.children p) := by
  unfold FileTree.list
  simp only [h.resolve, bind, Except.bind, h.directory]

/-- A name that an entry of a directory can have. -/
structure EntryName (x : String) : Prop where
  slash : '/' ∉ x.toList
  nul : '\x00' ∉ x.toList
  nonempty : x ≠ ""
  dot : x ≠ "."
  dots : x ≠ ".."
  short : x.utf8ByteSize ≤ maxFileName

theorem step_entry (hp : t.get? p = some .directory) {x : String} (hx : EntryName x) :
    t.step p x = .ok (p ++ [x]) := by
  unfold step
  rw [hp]
  simp [hx.nonempty, hx.dot, hx.dots, Nat.not_lt.2 hx.short]

/-- An empty step makes no difference to the next one. -/
theorem step_blank (t : FileTree) (p : Place) (x : String) :
    (t.step p "" >>= fun q => t.step q x) = t.step p x := by
  unfold step
  rcases hp : t.get? p with _ | n
  · rfl
  · cases n with
    | directory =>
      simp [bind, Except.bind, hp]
    | file c => rfl

/-- **Joining a name to a path** is one more step. -/
theorem resolve_join (hpath : path ≠ "") {x : String} (hslash : '/' ∉ x.toList)
    (hnul : '\x00' ∉ x.toList) :
    t.resolve wd (Path.join path x) = t.resolve wd path >>= fun p => t.step p x := by
  obtain ⟨mid, hjoin, hmid⟩ := Path.exists_join hpath hslash
  have hne : path.toList ≠ [] := by simpa using hpath
  have hmidnul : '\x00' ∉ mid := by
    rcases hmid with rfl | ⟨rfl, -⟩ <;> decide
  have hempty : ∀ {s : String}, s.toList ≠ [] → ¬s.isEmpty = true := by simp
  have hjne : (Path.join path x).toList ≠ [] := by
    rw [hjoin]
    simp [hne]
  have hrel : Path.isRelative (Path.join path x) = Path.isRelative path := by
    rw [Path.isRelative, Path.isRelative, hjoin, List.append_assoc, List.head?_append_of_ne_nil _ hne]
  have hnulj : (Path.join path x).toList.contains '\x00' = path.toList.contains '\x00' := by
    rw [Bool.eq_iff_iff, List.contains_iff_mem, List.contains_iff_mem, hjoin]
    simp [hmidnul, hnul]
  rw [resolve, resolve, if_neg (hempty hjne), if_neg (hempty hne), hnulj, hrel]
  by_cases hc : path.toList.contains '\x00' = true
  · rw [if_pos hc, if_pos hc]
    rfl
  · rw [if_neg hc, if_neg hc, Path.parts_eq, Path.parts_eq, hjoin]
    rcases hmid with rfl | ⟨rfl, d, hd⟩
    · rw [List.append_assoc, List.singleton_append, Path.split_append,
        Path.split_of_notMem hslash, List.map_append, List.foldlM_append, List.map_singleton,
        String.ofList_toList]
      simp
    · -- the slash that is there already makes an empty step
      rw [List.append_nil, hd, List.append_assoc, List.singleton_append, Path.split_append,
        Path.split_append, Path.split_of_notMem hslash, List.map_append, List.map_append,
        List.foldlM_append, List.foldlM_append, bind_assoc]
      refine bind_congr fun q => ?_
      have hblank := step_blank t q x
      simpa [Path.split_of_notMem, String.ofList_toList] using hblank.symm

/-- **The path of an entry** leads to the place of the entry. -/
theorem Leads.entry (h : t.Leads wd path p) (hpath : path ≠ "") {x : String} (hx : EntryName x) :
    t.resolve wd (Path.join path x) = .ok (p ++ [x]) := by
  rw [resolve_join hpath hx.slash hx.nul, h.resolve]
  exact step_entry h.directory hx

/-- What the path of an entry leads to is an entry of the directory at the path. -/
theorem exists_leads_of_entry (hpath : path ≠ "") {x : String} (hslash : '/' ∉ x.toList)
    (hlen : 3 ≤ x.toList.length) (h : t.resolve wd (Path.join path x) = .ok q) :
    ∃ p, t.Leads wd path p ∧ q = p ++ [x] ∧ EntryName x := by
  have hnul : '\x00' ∉ x.toList := by
    intro hmem
    obtain ⟨mid, hjoin, -⟩ := Path.exists_join hpath hslash
    have hcontains : (Path.join path x).toList.contains '\x00' = true := by
      rw [List.contains_iff_mem, hjoin]
      exact List.mem_append_right _ hmem
    rw [resolve, if_pos hcontains] at h
    split at h <;> cases h
  rw [resolve_join hpath hslash hnul] at h
  rcases hr : t.resolve wd path with e | p <;> rw [hr] at h
  · cases h
  change t.step p x = .ok q at h
  have hne : ∀ y : String, y.toList.length < 3 → x ≠ y := by
    rintro y hy rfl
    omega
  have hblank := hne "" (by decide)
  have hdot := hne "." (by decide)
  have hdots := hne ".." (by decide)
  have hp := directory_of_step h
  unfold step at h
  rw [hp] at h
  simp only [String.isEmpty_iff, hblank, hdot, or_self, if_false, hdots] at h
  split at h
  · cases h
  · rename_i hshort
    cases h
    exact ⟨p, ⟨hr, hp⟩, rfl, hslash, hnul, hblank, hdot, hdots, Nat.le_of_not_lt hshort⟩

/-! ### Paths that do not step back -/

/-- Whatever a place stands in is a directory. -/
theorem WellFormed.directory_of_prefix (h : t.WellFormed) (hq : t.get? q = some .directory)
    (hp : p <+: q) : t.get? p = some .directory := by
  obtain ⟨l, rfl⟩ := hp
  induction l using List.reverseRecOn with
  | nil => rwa [List.append_nil] at hq
  | append_singleton l x ih =>
    refine ih ?_
    have hin := h.inside _ _ hq
    rwa [← List.append_assoc, List.dropLast_concat] at hin

theorem prefix_of_foldlM_step {names : List String} (hnames : ".." ∉ names)
    (h : names.foldlM t.step p = .ok q) : p <+: q := by
  induction names generalizing p with
  | nil =>
    cases h
    exact List.prefix_rfl
  | cons x names ih =>
    rw [List.mem_cons, not_or] at hnames
    rw [List.foldlM_cons] at h
    rcases hx : t.step p x with e | m <;> rw [hx] at h
    · cases h
    · refine .trans ?_ (ih hnames.2 h)
      unfold step at hx
      rw [directory_of_step hx, if_neg (Ne.symm hnames.1)] at hx
      simp only at hx
      split at hx
      · cases hx
        exact List.prefix_rfl
      · split at hx
        · cases hx
        · cases hx
          exact List.prefix_append _ _

/-- A path goes straight to its place: it does not step back. -/
def Straight (path : String) : Prop := ".." ∉ (Path.parts path).map String.ofList

instance : Decidable (Straight path) := inferInstanceAs (Decidable (".." ∉ _))

/-- **A straight path** that leads to a directory later led there before, if there was one. -/
theorem Leads.of_straight (h : t'.Leads wd path q) (ht : t.WellFormed)
    (hpath : Straight path) (hq : t.get? q = some .directory) : t.Leads wd path q := by
  have hfold : ∀ (names : List String) (p : Place), ".." ∉ names →
      names.foldlM t'.step p = .ok q → names.foldlM t.step p = .ok q := by
    intro names
    induction names with
    | nil => exact fun p _ h => h
    | cons x names ih =>
      intro p hnames hfold
      have hp := ht.directory_of_prefix hq (prefix_of_foldlM_step hnames hfold)
      rw [List.foldlM_cons] at hfold ⊢
      rcases hx : t'.step p x with e | m <;> rw [hx] at hfold
      · cases hfold
      · rw [step_congr hp (directory_of_step hx), hx]
        exact ih m (fun hmem => hnames (List.mem_cons_of_mem _ hmem)) hfold
  refine ⟨?_, hq⟩
  have hr := h.resolve
  unfold FileTree.resolve at hr ⊢
  split at hr
  · cases hr
  · rename_i hne
    rw [if_neg hne]
    split at hr
    · cases hr
    · rename_i hnul
      rw [if_neg hnul]
      exact hfold _ _ hpath hr

/-! ### What operations do -/

/-- **A tree grows** by directories: everything stays, and what is new is a directory. -/
structure Grows (t t' : FileTree) : Prop where
  wellFormed : t'.WellFormed
  kept : ∀ p n, t.get? p = some n → t'.get? p = some n
  new : ∀ p n, t'.get? p = some n → t.get? p = some n ∨ t.get? p = none ∧ n = .directory

theorem Grows.refl (h : t.WellFormed) : t.Grows t := ⟨h, fun _ _ h => h, fun _ _ h => .inl h⟩

theorem Grows.trans {t'' : FileTree} (h : t.Grows t') (h' : t'.Grows t'') : t.Grows t'' where
  wellFormed := h'.wellFormed
  kept p n hp := h'.kept p n (h.kept p n hp)
  new p n hp := by
    rcases h'.new p n hp with hp | ⟨hno, hdir⟩
    · exact h.new p n hp
    · refine .inr ⟨?_, hdir⟩
      rcases hn : t.get? p with _ | m
      · rfl
      · rw [h.kept p m hn] at hno
        cases hno

theorem Grows.keeps (h : t.Grows t') : t.Keeps t' := fun p hp => h.kept p _ hp

/-- Making a directory in another one. -/
theorem grows_put (h : t.WellFormed) (hp : t.get? p = none)
    (hin : t.get? p.dropLast = some .directory) : t.Grows (t.put p .directory) := by
  have hne := ne_nil_of_get?_eq_none hp
  refine ⟨h.put hne hin fun _ => rfl, fun q n hq => ?_, fun q n hq => ?_⟩
  · have hother : q ≠ p := by
      rintro rfl
      rw [hp] at hq
      cases hq
    rwa [get?_put t hne, if_neg hother]
  · rw [get?_put t hne] at hq
    split at hq
    · rename_i heq
      cases hq
      exact .inr ⟨heq ▸ hp, rfl⟩
    · exact .inl hq

/-- A step ends in a directory, or at a place in one. -/
theorem directory_of_step_none (h : t.WellFormed) {x : String} (hq : t.step p x = .ok q)
    (hno : t.get? q = none) : t.get? q.dropLast = some .directory := by
  have hp := directory_of_step hq
  unfold step at hq
  rw [hp] at hq
  simp only at hq
  split at hq
  · cases hq
    rw [hp] at hno
    cases hno
  · split at hq
    · cases hq
      rw [h.inside p _ hp] at hno
      cases hno
    · split at hq
      · cases hq
      · cases hq
        rwa [List.dropLast_concat]

/-- Takes one step, to a directory that is made when it is missing. -/
def build (acc : FileTree × Place) (name : String) : Except OsError (FileTree × Place) := do
  let q ← acc.1.step acc.2 name
  match acc.1.get? q with
  | some _ => return (acc.1, q)
  | none => return (acc.1.put q .directory, q)

theorem makeDirectories_eq (hpath : path ≠ "") : t.makeDirectories wd path =
    if path.toList.contains '\x00' then .error .nulByte
    else do
      let (t, p) ← ((Path.parts path).map String.ofList).foldlM build
        (t, if Path.isRelative path then wd else [])
      match t.get? p with
      | some (.file _) => throw .exists
      | _ => return t := by
  unfold makeDirectories
  rw [if_neg (by simpa using hpath)]
  rfl

theorem exists_of_build {x : String} (hq : build (t, p) x = .ok (t', q)) :
    t.step p x = .ok q ∧
      ((∃ n, t.get? q = some n) ∧ t' = t ∨ t.get? q = none ∧ t' = t.put q .directory) := by
  unfold build at hq
  rcases hstep : t.step p x with e | m <;> simp only [hstep] at hq
  · cases hq
  · change (match t.get? m with
      | some _ => Except.ok (t, m)
      | none => Except.ok (t.put m .directory, m)) = Except.ok (t', q) at hq
    split at hq
    · rename_i n hn
      cases hq
      exact ⟨rfl, .inl ⟨⟨n, hn⟩, rfl⟩⟩
    · rename_i hn
      cases hq
      exact ⟨rfl, .inr ⟨hn, rfl⟩⟩

/-- **One step of making directories**: the tree grows, and the step leads to something. -/
theorem grows_build (h : t.WellFormed) {x : String} (hq : build (t, p) x = .ok (t', q)) :
    t.Grows t' ∧ t'.step p x = .ok q ∧ t'.get? q ≠ none := by
  obtain ⟨hstep, ⟨⟨n, hn⟩, rfl⟩ | ⟨hno, rfl⟩⟩ := exists_of_build hq
  · exact ⟨.refl h, hstep, by simp [hn]⟩
  · have hgrow := grows_put h hno (directory_of_step_none h hstep hno)
    have hp := directory_of_step hstep
    refine ⟨hgrow, by rw [← step_congr hp (hgrow.keeps p hp), hstep], ?_⟩
    rw [get?_put t (ne_nil_of_get?_eq_none hno), if_pos rfl]
    exact Option.some_ne_none _

theorem grows_foldlM_build (h : t.WellFormed) {names : List String}
    (hq : names.foldlM build (t, p) = .ok (t', q)) :
    t.Grows t' ∧ names.foldlM t'.step p = .ok q ∧ (names ≠ [] → t'.get? q ≠ none) := by
  induction names generalizing t p with
  | nil =>
    cases hq
    exact ⟨.refl h, rfl, fun hne => absurd rfl hne⟩
  | cons x names ih =>
    rw [List.foldlM_cons] at hq
    rcases hx : build (t, p) x with e | ⟨t₁, m⟩ <;> rw [hx] at hq
    · cases hq
    · obtain ⟨hgrow, hstep, hsome⟩ := grows_build h hx
      obtain ⟨hgrow', hrest, hsome'⟩ := ih hgrow.wellFormed hq
      refine ⟨hgrow.trans hgrow', ?_, fun _ => ?_⟩
      · have hp := directory_of_step hstep
        rw [List.foldlM_cons, ← step_congr hp (hgrow'.keeps p hp), hstep]
        exact hrest
      · by_cases hnil : names = []
        · subst hnil
          cases hq
          exact hsome
        · exact hsome' hnil

/-- **Making the directories** on a path lets the tree grow, and then the path leads to a
directory. -/
theorem grows_makeDirectories (h : t.WellFormed) (hpath : path ≠ "")
    (hm : t.makeDirectories wd path = .ok t') : t.Grows t' ∧ ∃ p, t'.Leads wd path p := by
  rw [makeDirectories_eq hpath] at hm
  split at hm
  · cases hm
  rename_i hnul
  rcases hwalk : ((Path.parts path).map String.ofList).foldlM build
    (t, if Path.isRelative path then wd else []) with e | ⟨t₁, p⟩ <;> rw [hwalk] at hm
  · cases hm
  · obtain ⟨hgrow, hsteps, hsome⟩ := grows_foldlM_build h hwalk
    have hdir : t₁ = t' ∧ t₁.get? p = some .directory := by
      have hsome := hsome (by simpa [Path.parts_eq] using Path.split_ne_nil _)
      change (match t₁.get? p with
        | some (.file _) => Except.error OsError.exists
        | _ => Except.ok t₁) = Except.ok t' at hm
      rcases hp : t₁.get? p with _ | n
      · exact absurd hp hsome
      · cases n with
        | directory =>
          rw [hp] at hm
          cases hm
          exact ⟨rfl, rfl⟩
        | file c =>
          rw [hp] at hm
          cases hm
    obtain ⟨rfl, hdir⟩ := hdir
    refine ⟨hgrow, p, ?_, hdir⟩
    rw [resolve, if_neg (by simpa using hpath), if_neg hnul]
    exact hsteps

theorem directory_of_foldlM_step {names : List String} (h : names.foldlM t.step p = .ok q)
    (hq : t.get? q = some .directory) : t.get? p = some .directory := by
  cases names with
  | nil =>
    cases h
    exact hq
  | cons x names =>
    rw [List.foldlM_cons] at h
    rcases hx : t.step p x with e | m
    · rw [hx] at h
      cases h
    · exact directory_of_step hx

theorem foldlM_build_of_step {names : List String} (h : names.foldlM t.step p = .ok q)
    (hq : t.get? q = some .directory) : names.foldlM build (t, p) = .ok (t, q) := by
  induction names generalizing p with
  | nil =>
    cases h
    rfl
  | cons x names ih =>
    rw [List.foldlM_cons] at h ⊢
    rcases hx : t.step p x with e | m <;> rw [hx] at h
    · cases h
    · have hbuild : build (t, p) x = .ok (t, m) := by
        unfold build
        rw [hx]
        change (match t.get? m with
          | some _ => Except.ok (t, m)
          | none => Except.ok (t.put m .directory, m)) = _
        rw [directory_of_foldlM_step h hq]
      rw [hbuild]
      exact ih h

/-- There is nothing to make on a path that leads to a directory. -/
theorem makeDirectories_of_leads (hpath : path ≠ "") (h : t.Leads wd path p) :
    t.makeDirectories wd path = .ok t := by
  have hresolve := h.resolve
  rw [resolve, if_neg (by simpa using hpath)] at hresolve
  rw [makeDirectories_eq hpath]
  split at hresolve
  · cases hresolve
  · rename_i hnul
    rw [if_neg hnul, foldlM_build_of_step hresolve h.directory]
    simp only [bind, Except.bind, h.directory]
    rfl

/-- **Writing a file** puts it in a directory, where there was a file or nothing. -/
theorem exists_of_writeFile (h : t.WellFormed) {c : FileContent}
    (hw : t.writeFile wd path c = .ok t') :
    ∃ p, t.resolve wd path = .ok p ∧ t.get? p ≠ some .directory ∧ t' = t.put p (.file c) ∧
      t'.WellFormed := by
  unfold writeFile at hw
  rcases hr : t.resolve wd path with e | p <;> rw [hr] at hw
  · cases hw
  simp only [bind, Except.bind] at hw
  have hput : t.get? p ≠ some .directory ∧ t' = t.put p (.file c) ∧
      t.get? p.dropLast = some .directory := by
    split at hw
    · cases hw
    · rename_i c' hc
      cases hw
      exact ⟨by simp [hc], rfl, h.inside p _ hc⟩
    · rename_i hno
      split at hw
      · rename_i hin
        cases hw
        exact ⟨by simp [hno], rfl, hin⟩
      · cases hw
      · cases hw
  obtain ⟨hp, rfl, hin⟩ := hput
  exact ⟨p, rfl, hp, rfl, h.put (ne_nil_of_get?_ne hp) hin fun hdir => absurd hdir hp⟩

/-- **Removing a file** takes it away from its place. -/
theorem exists_of_removeFile (hr : t.removeFile wd path = .ok t') :
    ∃ p c, t.resolve wd path = .ok p ∧ t.get? p = some (.file c) ∧ t' = t.erase p := by
  unfold removeFile at hr
  rcases hres : t.resolve wd path with e | p <;> rw [hres] at hr
  · cases hr
  simp only [bind, Except.bind] at hr
  split at hr
  · cases hr
  · rename_i c hc
    cases hr
    exact ⟨p, c, rfl, hc, rfl⟩
  · cases hr

/-- **Moving a file** takes it away from one place and puts it at another one. -/
theorem exists_of_renameFile {source target : String}
    (hr : t.renameFile wd source target = .ok t') :
    ∃ p q n, t.resolve wd source = .ok p ∧ t.resolve wd target = .ok q ∧ t.get? p = some n ∧
      t.get? q ≠ some .directory ∧ t' = if p = q then t else (t.erase p).put q n := by
  unfold renameFile at hr
  rcases hp : t.resolve wd source with e | p <;> rw [hp] at hr
  · cases hr
  rcases hq : t.resolve wd target with e | q <;> rw [hq] at hr
  · cases hr
  simp only [bind, Except.bind] at hr
  split at hr
  · cases hr
  · cases hr
  · rename_i n hn hdir
    refine ⟨p, q, n, rfl, rfl, hn, hdir, ?_⟩
    split at hr
    · rename_i heq
      cases hr
      rw [if_pos heq]
    · rename_i hne
      cases hr
      rw [if_neg hne]

/-! ### Entries of a directory -/

section Entries

variable {x y : String} (hp : t.Leads wd path p) (hpath : path ≠ "")

include hp hpath

/-- A file can be written in a directory, where there is no directory. -/
theorem writeFile_entry (hx : EntryName x) (hdir : t.get? (p ++ [x]) ≠ some .directory)
    (c : FileContent) :
    t.writeFile wd (Path.join path x) c = .ok (t.put (p ++ [x]) (.file c)) := by
  unfold writeFile
  rw [hp.entry hpath hx]
  simp only [bind, Except.bind, List.dropLast_concat, hp.directory]
  rcases hn : t.get? (p ++ [x]) with _ | n
  · rfl
  · cases n with
    | directory => exact absurd hn hdir
    | file c' => rfl

/-- A file can be removed from a directory. -/
theorem removeFile_entry (hx : EntryName x) {c : FileContent}
    (hfile : t.get? (p ++ [x]) = some (.file c)) :
    t.removeFile wd (Path.join path x) = .ok (t.erase (p ++ [x])) := by
  unfold removeFile
  rw [hp.entry hpath hx]
  simp only [bind, Except.bind, hfile]

/-- What is in a directory can be moved to another name in it, where there is no directory. -/
theorem renameFile_entry (hx : EntryName x) (hy : EntryName y) (hxy : x ≠ y)
    (hn : t.get? (p ++ [x]) = some n) (hdir : t.get? (p ++ [y]) ≠ some .directory) :
    t.renameFile wd (Path.join path x) (Path.join path y)
      = .ok ((t.erase (p ++ [x])).put (p ++ [y]) n) := by
  have hne : p ++ [x] ≠ p ++ [y] := fun h => hxy (List.singleton_inj.1 (List.append_cancel_left h))
  unfold renameFile
  rw [hp.entry hpath hx, hp.entry hpath hy]
  simp only [bind, Except.bind, hn]
  rcases hm : t.get? (p ++ [y]) with _ | m
  · simp only [if_neg hne]
  · cases m with
    | directory => exact absurd hm hdir
    | file c => simp only [if_neg hne]

/-- There is no content where there is nothing. -/
theorem content_entry_missing (hx : EntryName x) (hn : t.get? (p ++ [x]) = none) :
    t.content wd (Path.join path x) = .error .notFound := by
  unfold content node?
  rw [hp.entry hpath hx]
  simp only [bind, Except.bind, hn]

end Entries

end FileTree

end SiteConfig
