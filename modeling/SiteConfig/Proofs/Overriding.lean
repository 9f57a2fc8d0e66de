import Mathlib
import SiteConfig.Proofs.Keeping
import SiteConfig.Proofs.Search

/-!
# A storage with replacements is a storage

Whatever the storage is, it **replies** in three ways when it is looked at: whether there is a
document, what is read, and what is listed (`SiteConfig.Storage.Replies`). Replies are **orderly**
when what is listed comes in order and is exactly what is there.

Laying replacements over a storage gives replies that are overridden by them
(`SiteConfig.Storage.Replies.over`), and these are orderly again, since every name that is put into
the list keeps it in order and adds itself only (`SiteConfig.Storage.Replies.Orderly.over`). Nothing
can be changed through the replacements (`SiteConfig.Storage.overlay_overrides`): each attempt is
refused, and neither the storage beneath nor the replacements are touched.

One thing comes before a refusal. Moving a document begins with reading it, so that moving one that
is there but cannot be read fails for this reason (`SiteConfig.Storage.not_always_read_only`).
-/

namespace SiteConfig.Storage

/-! ### Replies -/

/-- **What a storage replies** when it is looked at. -/
structure Replies where
  has : String → Except ConfigError Bool
  read : String → Except ConfigError Document
  list : String → List String

/-- What is listed is in order, and is exactly what is there. -/
structure Replies.Orderly (a : Replies) : Prop where
  sorted : ∀ start, (a.list start).Pairwise (· < ·)
  mem_list_iff : ∀ {start n}, n ∈ a.list start ↔ beginsWith start n = true ∧ a.has n = .ok true

/-- The replies with some documents replaced. -/
def Replies.over (a : Replies) (docs : Documents) : Replies where
  has n := if docs.contains n then .ok true else a.has n
  read n :=
    match docs.get? n with
    | some m => .ok ⟨n, m⟩
    | none => a.read n
  list start := (namesFrom docs start).foldl (fun acc n => insertName n acc) (a.list start)

theorem Replies.has_over (a : Replies) (docs : Documents) (n : String) :
    (a.over docs).has n = if docs.contains n then .ok true else a.has n := rfl

theorem Replies.has_over_empty (a : Replies) (n : String) : (a.over .empty).has n = a.has n := rfl

theorem Replies.read_over_empty (a : Replies) (n : String) :
    (a.over .empty).read n = a.read n := rfl

/-- **Replacements keep replies orderly**: the names that are put in are those that are there. -/
theorem Replies.Orderly.over {a : Replies} (ha : a.Orderly) (docs : Documents) :
    (a.over docs).Orderly where
  sorted start := sorted_foldl_insertName (ha.sorted start)
  mem_list_iff {start n} := by
    rw [Replies.has_over]
    refine mem_foldl_insertName_iff.trans ?_
    rw [mem_namesFrom_iff, ha.mem_list_iff]
    by_cases hn : docs.contains n = true
    · rw [if_pos hn, hn]
      tauto
    · rw [if_neg hn]
      tauto

variable {σ τ : Type} {st inner : Storage σ} {cell : Cell σ Documents} {look : σ → τ} {v : τ}
  {docs : Documents} {a : Replies} {s : σ}

/-- A storage gives some replies in all states that look in one way, and leaves them looking so. -/
structure Replying (st : Storage σ) (look : σ → τ) (v : τ) (a : Replies) : Prop where
  has : ∀ {s}, look s = v → ∀ n, (st.has n).Yields look s (a.has n) v
  read : ∀ {s}, look s = v → ∀ n, (st.read n).Yields look s (a.read n) v
  list : ∀ {s}, look s = v → ∀ start, (st.list start).Yields look s (.ok (a.list start)) v

/-- Both layers: how the storage beneath looks, and the replacements. -/
def layers (look : σ → τ) (cell : Cell σ Documents) (s : σ) : τ × Documents := (look s, cell.get s)

/-- **A storage that is covered**: the replacements are kept apart from it, and whatever they are,
it gives its replies and leaves both layers as they are. -/
structure Covered (inner : Storage σ) (cell : Cell σ Documents) (look : σ → τ) (v : τ)
    (a : Replies) : Prop where
  get_set : ∀ docs s, cell.get (cell.set docs s) = docs
  look_set : ∀ docs s, look (cell.set docs s) = look s
  tells : ∀ docs, inner.Replying (layers look cell) (v, docs) a

/-! ### Replacing documents -/

/-- Replaces documents one by one. -/
def replaceAll (cell : Cell σ Documents) (changes : List (String × Yaml.Mapping)) (s : σ) : σ :=
  changes.foldl (fun s c => (replaceData cell c.1 c.2 s).2) s

/-- The replacements that are accepted: the others have bad names. -/
def accepted (changes : List (String × Yaml.Mapping)) : List (String × Yaml.Mapping) :=
  changes.filter fun c => isProper c.1

/-- What some changes make of the replacements. -/
def replacements (docs : Documents) (changes : List (String × Yaml.Mapping)) : Documents :=
  (accepted changes).foldl (fun docs c => docs.insert c.1 c.2) docs

theorem replaceData_apply (cell : Cell σ Documents) (n : String) (m : Yaml.Mapping) (s : σ) :
    replaceData cell n m s =
      (validateName n, if isProper n then cell.set ((cell.get s).insert n m) s else s) := by
  rw [replaceData, Attempt.bind_apply, Attempt.ofExcept]
  rcases hn : validateName n with e | u
  · have hbad : isProper n ≠ true := fun h => by
      rw [isProper_iff.1 h] at hn
      cases hn
    rw [if_neg hbad]
  · rw [if_pos (isProper_iff.2 hn)]
    rfl

theorem replacements_cons (docs : Documents) (c : String × Yaml.Mapping)
    (changes : List (String × Yaml.Mapping)) : replacements docs (c :: changes) =
      replacements (if isProper c.1 then docs.insert c.1 c.2 else docs) changes := by
  rw [replacements, accepted, List.filter_cons]
  split <;> rfl

theorem Covered.layers_replaceData (h : Covered inner cell look v a) (n : String) (m : Yaml.Mapping)
    (hs : layers look cell s = (v, docs)) : layers look cell (replaceData cell n m s).2 =
      (v, if isProper n then docs.insert n m else docs) := by
  obtain ⟨hlook, hcell⟩ := Prod.mk.inj hs
  rw [replaceData_apply]
  show layers look cell (if isProper n then cell.set ((cell.get s).insert n m) s else s) = _
  split
  · exact Prod.ext ((h.look_set _ s).trans hlook) ((h.get_set _ s).trans (by rw [hcell]))
  · exact hs

/-- **After some replacements** the storage beneath looks as before. -/
theorem Covered.layers_replaceAll (h : Covered inner cell look v a)
    (changes : List (String × Yaml.Mapping)) (hs : layers look cell s = (v, docs)) :
    layers look cell (replaceAll cell changes s) = (v, replacements docs changes) := by
  induction changes generalizing s docs with
  | nil => exact hs
  | cons c changes ih =>
    rw [replacements_cons]
    exact ih (h.layers_replaceData c.1 c.2 hs)

theorem get?_foldl_insert (l : List (String × Yaml.Mapping)) (docs : Documents) (n : String) :
    (l.foldl (fun docs c => docs.insert c.1 c.2) docs).get? n =
      (l.reverse.lookup n).or (docs.get? n) := by
  induction l generalizing docs with
  | nil => rfl
  | cons c l ih =>
    rw [List.foldl_cons, ih, NameMap.get?_insert, List.reverse_cons, List.lookup_append,
      Option.or_assoc, List.lookup_cons]
    by_cases hn : n = c.1
    · rw [if_pos hn, beq_iff_eq.2 hn]
      rfl
    · rw [if_neg hn, beq_false_of_ne hn]
      rfl

/-- **The last replacement counts**, among those that are accepted. -/
theorem get?_replacements (changes : List (String × Yaml.Mapping)) (n : String) :
    (replacements .empty changes).get? n = (accepted changes).reverse.lookup n := by
  rw [replacements, get?_foldl_insert, NameMap.get?_empty, Option.or_none]

/-! ### The overlay -/

/-- **An overlay gives the replies with the documents replaced**, and touches neither layer. -/
theorem Replying.covered (h : inner.Replying (layers look cell) (v, docs) a) :
    (overlay inner cell).Replying (layers look cell) (v, docs) (a.over docs) where
  has {s} hs n := by
    obtain rfl : cell.get s = docs := (Prod.mk.inj hs).2
    refine (Attempt.yields_read cell hs).bind fun t ht => ?_
    show Attempt.Yields (if _ then pure true else inner.has n) _ t (if _ then _ else _) _
    split
    · exact Attempt.yields_pure true ht
    · exact h.has ht n
  read {s} hs n := by
    obtain rfl : cell.get s = docs := (Prod.mk.inj hs).2
    refine (Attempt.yields_read cell hs).bind fun t ht => ?_
    rw [Replies.over]
    show Attempt.Yields (match (cell.get s).get? n with
      | some m => (pure ⟨n, m⟩ : Attempt σ ConfigError Document)
      | none => inner.read n) _ t (match (cell.get s).get? n with
      | some m => .ok ⟨n, m⟩
      | none => a.read n) _
    split
    · exact Attempt.yields_pure _ ht
    · exact h.read ht n
  list {s} hs start := by
    refine (h.list hs start).bind fun t ht => (Attempt.yields_read cell ht).bind fun u hu => ?_
    rw [(Prod.mk.inj ht).2]
    exact Attempt.yields_pure _ hu

/-- **Moving a document** is refused once it has been read. -/
theorem Replying.yields_rename (h : inner.Replying (layers look cell) (v, docs) a)
    (hs : layers look cell s = (v, docs)) (source target : String) :
    ((overlay inner cell).rename source target).Yields (layers look cell) s
      ((a.over docs).read source >>= fun _ => .error (.readOnly (overlay inner cell).label))
      (v, docs) :=
  (h.covered.read hs source).bind_except fun _ _ ht => (Attempt.yields_fail _ ht).bind_error

/-- **Deleting many documents** is refused at the first of them. -/
theorem Replying.yields_deleteAll (h : inner.Replying (layers look cell) (v, docs) a)
    (hs : layers look cell s = (v, docs)) {start : String} (hl : (a.over docs).list start ≠ []) :
    ((overlay inner cell).deleteAll start).Yields (layers look cell) s
      (.error (.readOnly (overlay inner cell).label)) (v, docs) := by
  refine (h.covered.list hs start).bind fun t ht => ?_
  obtain ⟨n, l, hcons⟩ := List.exists_cons_of_ne_nil hl
  rw [hcons]
  exact ((Attempt.yields_fail _ ht).bind_error).bind_error

/-- **Replacements override what is beneath them.** Where the storage beneath lists in order exactly
what is there, so does the overlay, after whatever replacements: a document that has been replaced
is there, as the last accepted replacement says, and the others are what they are beneath. Each
attempt to write, to delete, to move a document that can be read, or to delete some that are there
is refused; moving one that cannot be read fails as reading it does; and both layers stay as they
are. -/
theorem overlay_overrides (h : Covered inner cell look v a) (ha : a.Orderly) (hs : look s = v)
    (hnew : cell.get s = .empty) (changes : List (String × Yaml.Mapping)) :
    ∃ (docs : Documents) (b : Replies),
      layers look cell (replaceAll cell changes s) = (v, docs) ∧
      (∀ n, b.has n = if ((accepted changes).reverse.lookup n).isSome then .ok true else a.has n) ∧
      (∀ n, b.read n = match (accepted changes).reverse.lookup n with
        | some m => .ok ⟨n, m⟩
        | none => a.read n) ∧
      b.Orderly ∧ (overlay inner cell).Replying (layers look cell) (v, docs) b ∧
      ∀ {t}, layers look cell t = (v, docs) →
        let refusal := ConfigError.readOnly (overlay inner cell).label
        (∀ n m, (overlay inner cell).write n m t = (.error refusal, t)) ∧
        (∀ n, (overlay inner cell).delete n t = (.error refusal, t)) ∧
        (∀ n k, ((overlay inner cell).rename n k).Yields (layers look cell) t
          (match b.read n with
            | .ok _ => .error refusal
            | .error e => .error e) (v, docs)) ∧
        ∀ start, b.list start ≠ [] →
          ((overlay inner cell).deleteAll start).Yields (layers look cell) t (.error refusal)
            (v, docs) := by
  have hdocs : layers look cell s = (v, .empty) := Prod.ext hs hnew
  have hget := fun n => get?_replacements changes n
  have hreplying := h.tells (replacements .empty changes)
  refine ⟨replacements .empty changes, a.over (replacements .empty changes),
    h.layers_replaceAll changes hdocs, fun n => ?_, fun n => ?_, ha.over _, hreplying.covered,
    fun {t} ht => ⟨fun _ _ => rfl, fun _ => rfl, fun n k => ?_, fun start hl =>
      hreplying.yields_deleteAll ht hl⟩⟩
  · rw [← hget]
    rfl
  · rw [← hget]
    rfl
  · have hrename := hreplying.yields_rename ht n k
    rcases hread : (a.over (replacements .empty changes)).read n with e | d <;>
      rw [hread] at hrename <;> exact hrename

/-! ### A page that cannot be read -/

/-- A directory with a page that is no mapping. -/
def spoilt : FileTree :=
  ⟨[(["config"], .directory), (["config", "blog.home.yml"], .file (.text "welcome"))]⟩

/-- What the directory replies. -/
def spoiltReplies : Replies where
  has := Directory.config.has spoilt
  read := Directory.config.read spoilt
  list start := (Directory.config.list spoilt start).toOption.getD []

/-- The directory, as the first of two layers. -/
def spoiltStorage : Storage (FileTree × Documents) := directory Directory.config .first

theorem leads_spoilt : spoilt.Leads Directory.config.workingDir Directory.config.path ["config"] :=
  ⟨eq_ok_of_toOption (by decide +kernel), rfl⟩

theorem holds_spoilt_iff : (∃ c, Directory.config.Holds spoilt n c) ↔ n = "blog.home" := by
  simp only [Directory.holds_iff_get? leads_spoilt]
  constructor
  · rintro ⟨c, hc⟩
    rw [FileTree.get?_of_ne_nil (by simp)] at hc
    obtain ⟨l, r, hsplit, -⟩ := List.lookup_eq_some_iff.1 hc
    have hmem : (["config"] ++ [Directory.fileName n], FileNode.file c) ∈ spoilt.nodes := by
      rw [hsplit]
      exact List.mem_append_right _ List.mem_cons_self
    rcases List.mem_cons.1 hmem with heq | hmem
    · cases heq
    · have hname : ["config"] ++ [Directory.fileName n]
          = ["config"] ++ [Directory.fileName "blog.home"] :=
        (Prod.mk.inj (List.mem_singleton.1 hmem)).1
      exact Directory.fileName_inj.1 (List.singleton_inj.1 (List.append_cancel_left hname))
  · rintro rfl
    exact ⟨.text "welcome", rfl⟩

theorem has_spoilt_iff : Directory.config.has spoilt n = .ok true ↔ n = "blog.home" := by
  constructor
  · intro h
    rw [Directory.has, except_bind_eq_ok_iff] at h
    obtain ⟨⟨⟩, hcheck, hfile⟩ := h
    obtain ⟨q, c, hq, hc⟩ := FileTree.isFile_iff.1 (Except.ok.inj hfile)
    obtain ⟨p, hp, rfl, -⟩ := FileTree.exists_leads_of_entry (by decide)
      (Directory.slash_notMem_fileName (Directory.slash_notMem_of_checkEntry hcheck))
      Directory.length_fileName hq
    exact holds_spoilt_iff.1 ⟨c, p, hp, hc⟩
  · rintro rfl
    exact eq_ok_of_toOption (by decide +kernel)

theorem orderly_spoilt : spoiltReplies.Orderly := by
  have hlist := Directory.exists_list_from (t := spoilt) (by decide +kernel) Directory.config
  refine ⟨fun start => ?_, fun {start n} => ?_⟩ <;> obtain ⟨l, hl, hsorted, hmem⟩ := hlist start
  · simp only [spoiltReplies, hl, Except.toOption, Option.getD_some]
    exact hsorted
  · simp only [spoiltReplies, hl, Except.toOption, Option.getD_some]
    rw [hmem, holds_spoilt_iff, has_spoilt_iff]
    constructor
    · rintro ⟨-, hstart, rfl⟩
      exact ⟨hstart, rfl⟩
    · rintro ⟨hstart, rfl⟩
      exact ⟨Directory.shown_of_head (by decide) (by decide), hstart, rfl⟩

theorem covered_spoilt : Covered spoiltStorage .second Prod.fst spoilt spoiltReplies where
  get_set _ _ := rfl
  look_set _ _ := rfl
  tells docs := by
    have hstate : ∀ {s}, layers Prod.fst (.second : Cell (FileTree × Documents) Documents) s =
        (spoilt, docs) → s = (spoilt, docs) := fun hs => hs
    refine ⟨fun hs n => ?_, fun hs n => ?_, fun hs start => ?_⟩ <;> rw [hstate hs]
    · exact ⟨(spoilt, docs), rfl, rfl⟩
    · exact ⟨(spoilt, docs), rfl, rfl⟩
    · obtain ⟨l, hl, -⟩ := Directory.exists_list_from (t := spoilt) (by decide +kernel)
        Directory.config start
      refine ⟨(spoilt, docs), ?_, rfl⟩
      show (Directory.config.list spoilt start, (spoilt, docs)) = _
      simp only [spoiltReplies, hl, Except.toOption, Option.getD_some]

/-- Whether a document is refused for its data. -/
def refusesData (r : Except ConfigError Document) : Bool :=
  match r with
  | .error (.invalidData _ _) => true
  | _ => false

theorem exists_of_refusesData {r : Except ConfigError Document} (h : refusesData r = true) :
    ∃ n reason, r = .error (.invalidData n reason) := by
  rcases r with e | d
  · cases e
    case invalidData n reason => exact ⟨n, reason, rfl⟩
    all_goals cases h
  · cases h

theorem refusesData_spoilt : refusesData (Directory.config.read spoilt "blog.home") = true := by
  decide +kernel

/-- **A page that is there but cannot be read** is not refused when it is moved: that it cannot be
read comes first. -/
theorem not_always_read_only :
    Covered spoiltStorage .second Prod.fst spoilt spoiltReplies ∧ spoiltReplies.Orderly ∧
      ((overlay spoiltStorage .second).has "blog.home" (spoilt, .empty)).1 = .ok true ∧
      ((overlay spoiltStorage .second).rename "blog.home" "blog.news" (spoilt, .empty)).1 ≠
        .error (.readOnly (overlay spoiltStorage .second).label) := by
  have hnew : layers Prod.fst (.second : Cell (FileTree × Documents) Documents) (spoilt, .empty) =
      (spoilt, .empty) := rfl
  have hreplying := covered_spoilt.tells .empty
  obtain ⟨s₁, hhas, -⟩ := hreplying.covered.has hnew "blog.home"
  obtain ⟨s₂, hrename, -⟩ := hreplying.yields_rename hnew "blog.home" "blog.news"
  obtain ⟨n, reason, hread⟩ := exists_of_refusesData refusesData_spoilt
  have hthere : spoiltReplies.has "blog.home" = .ok true := has_spoilt_iff.2 rfl
  have hspoilt : spoiltReplies.read "blog.home" = .error (.invalidData n reason) := hread
  rw [Replies.has_over_empty, hthere] at hhas
  rw [Replies.read_over_empty, hspoilt] at hrename
  refine ⟨covered_spoilt, orderly_spoilt, by rw [hhas], ?_⟩
  rw [hrename]
  nofun

/-- Two changes of the page that is spoilt, and one with a bad name. -/
def repairs : List (String × Yaml.Mapping) :=
  [("blog.home", []), ("home", []), ("blog.home", [(.string "title", .string "welcome")])]

theorem lookup_repairs : (accepted repairs).reverse.lookup "blog.home" =
    some [(.string "title", .string "welcome")] := by
  have hproper : isProper "blog.home" = true := by decide +kernel
  have hbad : isProper "home" = false := by decide +kernel
  simp [accepted, repairs, hproper, hbad]

theorem overlay_overrides_repairs :
    Covered spoiltStorage .second Prod.fst spoilt spoiltReplies ∧ spoiltReplies.Orderly ∧
      ∃ (docs : Documents) (b : Replies), b.Orderly ∧
        layers Prod.fst .second (replaceAll .second repairs (spoilt, .empty)) = (spoilt, docs) ∧
        (overlay spoiltStorage .second).Replying (layers Prod.fst .second) (spoilt, docs) b ∧
        b.read "blog.home" = .ok ⟨"blog.home", [(.string "title", .string "welcome")]⟩ ∧
        ((overlay spoiltStorage .second).rename "blog.home" "blog.news").Yields
          (layers Prod.fst .second) (spoilt, docs)
          (.error (.readOnly (overlay spoiltStorage .second).label)) (spoilt, docs) := by
  obtain ⟨docs, b, hlayers, -, hread, horderly, hreplying, hrefused⟩ :=
    overlay_overrides covered_spoilt orderly_spoilt (s := (spoilt, .empty)) rfl rfl repairs
  have hhome := hread "blog.home"
  rw [lookup_repairs] at hhome
  have hrename := (hrefused (t := (spoilt, docs)) rfl).2.2.1 "blog.home" "blog.news"
  rw [hhome] at hrename
  exact ⟨covered_spoilt, orderly_spoilt, docs, b, horderly, hlayers, hreplying, hhome, hrename⟩

end SiteConfig.Storage
