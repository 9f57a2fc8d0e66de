import Mathlib
import SiteConfig.Proofs.Sharing

/-!
# What does not count as a change

Two values are **reordered** forms of one another when they differ at most in the order of keys,
at whatever depth (`SiteConfig.Yaml.Value.Reordered`). On values that were read this is what
sameness computes (`SiteConfig.Yaml.Value.same_iff_reordered`): sameness looks for partners one
by one, and as no two entries have one partner, the partners are the other mapping in another
order.

So it can be told of two storages whether they **match** as far as an import is concerned
(`SiteConfig.Storage.Matches`): what is left of their documents once these have been transformed is
under the same names, and differs at most in the order of keys. Snapshots of storages that match are
the same (`SiteConfig.Storage.same_snapshot_iff`), and have the same changelist
(`SiteConfig.Changelist.between_eq_of_same`).

Where nothing is rewritten in any other way, a list of transforms drops some documents and removes
some keys from the others, whatever the order in which it is written
(`SiteConfig.Transform.applyAll_eq_ite`). Then it is the documents that are dropped and the keys that
are removed that do not count (`SiteConfig.Storage.matches_iff_of_plain`).
-/

namespace SiteConfig

namespace Yaml

namespace Value

/-- **The same value, but for the order of keys** in the mappings within it. -/
inductive Reordered : Value → Value → Prop
  | null : Reordered .null .null
  | bool (b : Bool) : Reordered (.bool b) (.bool b)
  | number {a b : Number} (h : a.same b = true) : Reordered (.number a) (.number b)
  | string (s : String) : Reordered (.string s) (.string s)
  | sequence {xs ys : List Value} (hlen : xs.length = ys.length)
      (h : ∀ (k : Nat) (hx : k < xs.length) (hy : k < ys.length), Reordered xs[k] ys[k]) :
      Reordered (.sequence xs) (.sequence ys)
  | mapping {xs ys zs : Mapping} (hperm : ys.Perm zs) (hlen : xs.length = ys.length)
      (hkey : ∀ (k : Nat) (hx : k < xs.length) (hy : k < ys.length), Reordered xs[k].1 ys[k].1)
      (hval : ∀ (k : Nat) (hx : k < xs.length) (hy : k < ys.length), Reordered xs[k].2 ys[k].2) :
      Reordered (.mapping xs) (.mapping zs)
  | tagged (t : String) {v w : Value} (h : Reordered v w) : Reordered (.tagged t v) (.tagged t w)

theorem Reordered.same {v w : Value} (h : v.Reordered w) : v.same w = true := by
  induction h with
  | null => rfl
  | bool b => simp [Value.same]
  | number h => exact h
  | string s => simp [Value.same]
  | sequence hlen _ ih =>
    rw [Value.same, sameItems_iff, List.forall₂_iff_get]
    exact ⟨hlen, ih⟩
  | mapping hperm hlen _ _ ihkey ihval =>
    rw [Value.same, Bool.and_eq_true, beq_iff_eq, sameEntries_iff]
    refine ⟨hlen.trans hperm.length_eq, fun e he => ?_⟩
    obtain ⟨k, hk, rfl⟩ := List.getElem_of_mem he
    have hy := hlen ▸ hk
    exact ⟨_, hperm.subset (List.getElem_mem hy), ihkey k hk hy, ihval k hk hy⟩
  | tagged t _ ih => rw [Value.same, beq_self_eq_true, Bool.true_and, ih]

/-- What is the same is reordered at most, if no mapping repeats a key. -/
theorem Proper.reordered {v w : Value} (pv : v.Proper) (pw : w.Proper) (h : v.same w = true) :
    v.Reordered w := by
  induction hn : sizeOf v using Nat.strong_induction_on generalizing v w with
  | _ n ih =>
    subst hn
    cases v <;> cases w <;> simp only [Value.same, Bool.false_eq_true] at h
    case null.null => exact .null
    case bool.bool => exact beq_iff_eq.1 h ▸ .bool _
    case number.number => exact .number h
    case string.string => exact beq_iff_eq.1 h ▸ .string _
    case sequence.sequence xs ys =>
      rw [Value.Proper, properItems_iff] at pv pw
      obtain ⟨hlen, hitems⟩ := List.forall₂_iff_get.1 (sameItems_iff.1 h)
      refine .sequence hlen fun k hx hy => ?_
      have hmem := List.getElem_mem hx
      exact ih _ (sizeOf_lt_of_mem_items hmem) (pv _ hmem) (pw _ (List.getElem_mem hy))
        (hitems k hx hy) rfl
    case mapping.mapping xs zs =>
      rw [Bool.and_eq_true, beq_iff_eq, sameEntries_iff] at h
      have hentries := (proper_mapping_iff.1 pv).2
      have hentries' := (proper_mapping_iff.1 pw).2
      have hinj := pairwise_not_sameEntry pv fun f hf e he hef =>
        ⟨(hentries e he).1.same_symm (hentries' f hf).1 hef.1,
          (hentries e he).2.same_symm (hentries' f hf).2 hef.2⟩
      -- the entries of one mapping are put in the order of the other one
      obtain ⟨ys, hperm, hrel⟩ := exists_perm_forall₂ h.1 h.2 hinj
      obtain ⟨hlen, hpartner⟩ := List.forall₂_iff_get.1 hrel
      refine .mapping hperm hlen (fun k hx hy => ?_) fun k hx hy => ?_
      · have hmem := List.getElem_mem hx
        have hmem' := hperm.subset (List.getElem_mem hy)
        exact ih _ (sizeOf_lt_of_mem_entries hmem).1 (hentries _ hmem).1 (hentries' _ hmem').1
          (hpartner k hx hy).1 rfl
      · have hmem := List.getElem_mem hx
        have hmem' := hperm.subset (List.getElem_mem hy)
        exact ih _ (sizeOf_lt_of_mem_entries hmem).2 (hentries _ hmem).2 (hentries' _ hmem').2
          (hpartner k hx hy).2 rfl
    case tagged.tagged t v u w =>
      rw [Value.Proper] at pv pw
      rw [Bool.and_eq_true, beq_iff_eq] at h
      obtain ⟨rfl, hvw⟩ := h
      exact .tagged t (ih _ (by simp) pv pw hvw rfl)

/-- **Sameness is the order of keys not counting.** -/
theorem same_iff_reordered {v w : Value} (pv : v.Proper) (pw : w.Proper) :
    v.same w = true ↔ v.Reordered w := ⟨pv.reordered pw, Reordered.same⟩

/-- What is the same is the same string. -/
theorem asString?_of_same {v w : Value} (h : v.same w = true) : v.asString? = w.asString? := by
  induction hn : sizeOf v using Nat.strong_induction_on generalizing v w with
  | _ n ih =>
    subst hn
    cases v <;> cases w <;> simp only [Value.same, Bool.false_eq_true] at h
    case string.string => rw [beq_iff_eq.1 h]
    case tagged.tagged t v u w =>
      rw [Bool.and_eq_true] at h
      have hsub : v.asString? = w.asString? := ih (sizeOf v) (by simp) h.2 rfl
      exact hsub
    all_goals rfl

end Value

namespace Mapping

open Value

/-- A key of a proper mapping belongs to one entry. -/
theorem get?_eq_some_iff {m : Mapping} (hm : (mapping m).Proper) {key : String} {v : Value} :
    m.get? key = some v ↔ (.string key, v) ∈ m := by
  have hkey : ∀ e : Value × Value, hasKey key e = true ↔ e.1 = .string key := by
    rintro ⟨k, w⟩
    cases k <;> simp [hasKey]
  unfold get?
  constructor
  · intro h
    obtain ⟨⟨k, w⟩, hfind, rfl⟩ := Option.map_eq_some_iff.1 h
    obtain rfl := (hkey _).1 (List.find?_some hfind)
    exact List.mem_of_find?_eq_some hfind
  · intro h
    obtain ⟨as, bs, rfl⟩ := List.append_of_mem h
    -- keys are unique, and so the first entry with the key is the one
    have hno : ∀ e ∈ as, ¬hasKey key e = true := by
      intro e he hek
      have hne := (List.pairwise_append.1 (proper_mapping_iff.1 hm).1).2.2 e he _
        List.mem_cons_self
      rw [(hkey e).1 hek, same_self] at hne
      cases hne
    rw [List.find?_append, List.find?_eq_none.2 hno]
    simp [hasKey]

/-- Mappings that are the same bind a key to the same value. -/
theorem exists_get?_of_same {a b : Mapping} (ha : (mapping a).Proper) (hb : (mapping b).Proper)
    (h : a.same b = true) {key : String} {v : Value} (hv : a.get? key = some v) :
    ∃ w, b.get? key = some w ∧ v.same w = true := by
  rw [Mapping.same, Bool.and_eq_true, sameEntries_iff] at h
  obtain ⟨⟨k, w⟩, hf, hk, hvw⟩ := h.2 _ ((get?_eq_some_iff ha).1 hv)
  cases k <;> simp only [Value.same, Bool.false_eq_true, beq_iff_eq] at hk
  subst hk
  exact ⟨w, (get?_eq_some_iff hb).2 hf, hvw⟩

end Mapping

end Yaml

open Yaml

/-! ### Documents -/

namespace Document

/-- **Two documents that match**: one name, and the same content without repeated keys. -/
structure Matches (d e : Document) : Prop where
  name : d.name = e.name
  content : d.sameContent e = true
  left : d.Proper
  right : e.Proper

/-- Documents with the same content have the same identifier. -/
theorem Matches.uuid?_eq {d e : Document} (h : d.Matches e) : d.uuid? = e.uuid? := by
  unfold uuid? get?
  rcases hd : d.data.get? uuidKey with _ | v
  · rcases he : e.data.get? uuidKey with _ | w
    · rfl
    · obtain ⟨v, hv, -⟩ :=
        Mapping.exists_get?_of_same h.right h.left (h.left.sameContent_symm h.right h.content) he
      rw [hd] at hv
      cases hv
  · obtain ⟨w, hw, hvw⟩ := Mapping.exists_get?_of_same h.left h.right h.content hd
    rw [hw]
    exact Value.asString?_of_same hvw

/-- Contents that are the same can be exchanged in a comparison. -/
theorem Matches.sameContent_eq {d d' e e' : Document} (hd : d.Matches d') (he : e.Matches e') :
    d.sameContent e = d'.sameContent e' := by
  rw [Bool.eq_iff_iff]
  constructor
  · intro h
    exact sameContent_trans (sameContent_trans (hd.left.sameContent_symm hd.right hd.content) h)
      he.content
  · intro h
    exact sameContent_trans (sameContent_trans hd.content h)
      (he.left.sameContent_symm he.right he.content)

theorem forall₂_map_name {l l' : List Document} (h : List.Forall₂ Matches l l') :
    l.map (·.name) = l'.map (·.name) := by
  induction h with
  | nil => rfl
  | cons hd _ ih => rw [List.map_cons, List.map_cons, hd.name, ih]

end Document

/-! ### Snapshots -/

namespace Snapshot

variable {s t : Snapshot}

theorem sameDocuments_iff {l m : List (String × Document)} :
    sameDocuments l m = true ↔ List.Forall₂ (fun e f => e.1 = f.1 ∧ e.2.same f.2 = true) l m := by
  induction l generalizing m with
  | nil => cases m <;> simp [sameDocuments]
  | cons e l ih =>
    obtain ⟨n, d⟩ := e
    cases m with
    | nil => simp [sameDocuments]
    | cons f m =>
      obtain ⟨k, d'⟩ := f
      simp [sameDocuments, ih, and_assoc]

/-- **Snapshots that agree are the same**: their names come in one order. -/
theorem same_iff_agrees (hs : s.Named) (ht : t.Named) : s.same t = true ↔ s.Agrees t := by
  refine ⟨agrees_of_same, fun h => ?_⟩
  have hkeys : s.keys = t.keys := NameMap.eq_of_mem_iff s.keys_sorted t.keys_sorted fun k => by
    rw [NameMap.mem_keys_iff, NameMap.mem_keys_iff]
    exact h.1 k
  rw [NameMap.keys, NameMap.keys] at hkeys
  rw [Snapshot.same, sameDocuments_iff, List.forall₂_iff_get]
  -- names are sorted, so that documents of the same name are at the same position
  have hlen : s.entries.length = t.entries.length := by
    simpa using congrArg List.length hkeys
  refine ⟨hlen, fun k hk hk' => ?_⟩
  have hname : (s.entries.get ⟨k, hk⟩).1 = (t.entries.get ⟨k, hk'⟩).1 := by
    have := List.getElem_of_eq hkeys (by simpa using hk)
    simpa using this
  have hd : s.get? (s.entries.get ⟨k, hk⟩).1 = some (s.entries.get ⟨k, hk⟩).2 :=
    NameMap.mem_entries_iff.1 (List.get_mem _ _)
  have he : t.get? (s.entries.get ⟨k, hk⟩).1 = some (t.entries.get ⟨k, hk'⟩).2 := by
    rw [hname]
    exact NameMap.mem_entries_iff.1 (List.get_mem _ _)
  refine ⟨hname, ?_⟩
  rw [Document.same, Bool.and_eq_true, beq_iff_eq]
  exact ⟨(hs _ _ hd).trans (ht _ _ he).symm, h.2 _ _ _ hd he⟩

theorem contains_eq_of_same (h : s.same t = true) (n : String) : s.contains n = t.contains n := by
  rw [Bool.eq_iff_iff, NameMap.contains_iff, NameMap.contains_iff]
  exact (agrees_of_same h).1 n

theorem agreesAt_iff_rel {n : String} :
    s.AgreesAt t n ↔ Option.Rel (fun d e => d.sameContent e = true) (s.get? n) (t.get? n) := by
  unfold AgreesAt
  rcases s.get? n with _ | d <;> rcases t.get? n with _ | e <;> simp

/-- What snapshots that are the same hold under a name matches. -/
theorem rel_get? (hs : s.Named) (ht : t.Named) (ps : s.Proper) (pt : t.Proper)
    (h : s.same t = true) (n : String) : Option.Rel Document.Matches (s.get? n) (t.get? n) := by
  have hrel := agreesAt_iff_rel.1 (agrees_iff_forall.1 (agrees_of_same h) n)
  rcases hd : s.get? n with _ | d <;> rcases he : t.get? n with _ | e <;> rw [hd, he] at hrel <;>
    cases hrel
  · exact .none
  · rename_i hcontent
    exact .some ⟨(hs n d hd).trans (ht n e he).symm, hcontent, ps n d hd, pt n e he⟩

/-- The documents of snapshots that are the same match one by one. -/
theorem forall₂_values (ps : s.Proper) (pt : t.Proper) (h : s.same t = true) :
    List.Forall₂ Document.Matches s.values t.values := by
  rw [Snapshot.same, sameDocuments_iff] at h
  rw [NameMap.values, NameMap.values, List.forall₂_map_left_iff, List.forall₂_map_right_iff]
  refine (List.forall₂_iff_get.2 ⟨h.length_eq, fun k hk hk' => ?_⟩)
  have hsame := (List.forall₂_iff_get.1 h).2 k hk hk'
  rw [Document.same, Bool.and_eq_true, beq_iff_eq] at hsame
  exact ⟨hsame.2.1, hsame.2.2, ps _ _ (NameMap.mem_entries_iff.1 (List.get_mem _ _)),
    pt _ _ (NameMap.mem_entries_iff.1 (List.get_mem _ _))⟩

end Snapshot

/-! ### Changelists -/

namespace Changelist

open Document

variable {l l' new new' old old' : List Document} {s s' t t' : Snapshot}

theorem forall₂_firstOf (u : String) (h : List.Forall₂ Matches l l') :
    Option.Rel Matches (firstOf u l) (firstOf u l') := by
  induction h with
  | nil => exact .none
  | @cons d d' l l' hd _ ih =>
    unfold firstOf at ih ⊢
    rw [List.find?_cons, List.find?_cons, hd.uuid?_eq]
    split
    · exact .some hd
    · exact ih

theorem forall₂_other (u : String) (h : List.Forall₂ Matches l l') :
    List.Forall₂ Matches (l.filter fun e => e.uuid? ≠ some u) (l'.filter fun e => e.uuid? ≠ some u) :=
  List.rel_filter (fun d d' hd => by simp [hd.uuid?_eq]) h

/-- Documents that match are paired off alike. -/
theorem pair_eq (hnew : List.Forall₂ Matches new new') (hold : List.Forall₂ Matches old old') :
    pair new old = pair new' old' := by
  induction hnew generalizing old old' with
  | nil => rfl
  | @cons d d' new new' hd _ ih =>
    -- a partner is looked for by uuid, and is there on both sides or on neither
    by_cases hnone : ∀ u, d.uuid? = some u → firstOf u old = none
    · have hnone' : ∀ u, d'.uuid? = some u → firstOf u old' = none := by
        intro u hu
        have hrel := forall₂_firstOf u hold
        rw [hnone u (hd.uuid?_eq.trans hu)] at hrel
        rcases he' : firstOf u old' with _ | e'
        · rfl
        · rw [he'] at hrel
          cases hrel
      rw [pair_cons_of_none hnone, pair_cons_of_none hnone', ih hold, hd.name]
    · push Not at hnone
      obtain ⟨u, hu, hfirst⟩ := hnone
      obtain ⟨e, he⟩ := Option.ne_none_iff_exists'.1 hfirst
      have hrel := forall₂_firstOf u hold
      rw [he] at hrel
      rcases he' : firstOf u old' with _ | e' <;> rw [he'] at hrel <;> cases hrel
      rename_i hee
      rw [pair_cons_of_some hu he, pair_cons_of_some (hd.uuid?_eq.symm.trans hu) he',
        ih (forall₂_other u hold), hd.name, hee.name, hd.sameContent_eq hee]

theorem forall₂_onlyIn (hs : List.Forall₂ Matches s.values s'.values)
    (ht : t.same t' = true) : List.Forall₂ Matches (onlyIn s t) (onlyIn s' t') := by
  refine List.rel_filter (fun d d' hd => ?_) hs
  show (!t.contains d.name) = true ↔ (!t'.contains d'.name) = true
  rw [hd.name, Snapshot.contains_eq_of_same ht]

theorem differing_eq (hs : ∀ n, Option.Rel Matches (s.get? n) (s'.get? n))
    (ht : List.Forall₂ Matches t.values t'.values) : differing s t = differing s' t' := by
  refine forall₂_map_name (List.rel_filter (fun e e' he => ?_) ht)
  have hrel := hs e.name
  simp only [← he.name]
  rcases hd : s.get? e.name with _ | d <;> rcases hd' : s'.get? e.name with _ | d' <;>
    rw [hd, hd'] at hrel <;> cases hrel
  rename_i hdd
  simp only [hdd.sameContent_eq he]

/-- **Snapshots that are the same have one changelist.** -/
theorem between_eq_of_same (ns : s.Named) (ns' : s'.Named) (ps : s.Proper) (ps' : s'.Proper)
    (pt : t.Proper) (pt' : t'.Proper) (hs : s.same s' = true) (ht : t.same t' = true) :
    between s t = between s' t' := by
  have hsource := Snapshot.forall₂_values ps ps' hs
  have htarget := Snapshot.forall₂_values pt pt' ht
  have hold := forall₂_onlyIn htarget hs
  have hpair := pair_eq (forall₂_onlyIn hsource ht) hold
  have hdiffering := differing_eq (Snapshot.rel_get? ns ns' ps ps' hs) htarget
  simp only [between, hpair, hdiffering, forall₂_map_name hold]

end Changelist

/-! ### Transforms -/

namespace Transform

/-- The keys that some transforms remove. -/
def stripped : List Transform → List String
  | [] => []
  | .stripKeys keys :: ts => keys ++ stripped ts
  | _ :: ts => stripped ts

/-- Whether some transforms drop a name. -/
def drops (ts : List Transform) (name : String) : Bool :=
  ts.any fun t =>
    match t with
    | .dropWhere test => test name
    | _ => false

/-- Some transforms only drop documents by their names and remove keys. -/
def Plain (ts : List Transform) : Prop := ∀ f, .rewrite f ∉ ts

theorem plain_nil : Plain [] := fun _ => List.not_mem_nil

/-- **What plain transforms do**: they drop a document by its name, or remove keys from it. -/
theorem applyAll_eq_ite {ts : List Transform} (hts : Plain ts) (d : Document) :
    applyAll ts d = if drops ts d.name then none else some (d.removeAll (stripped ts)) := by
  induction ts generalizing d with
  | nil => rfl
  | cons t ts ih =>
    have ih := ih fun f hf => hts f (List.mem_cons_of_mem _ hf)
    rw [applyAll, List.foldlM_cons]
    cases t with
    | rewrite f => exact absurd List.mem_cons_self (hts f)
    | stripKeys keys =>
      show applyAll ts (d.removeAll keys) = _
      rw [ih, Document.name_removeAll, stripped, Document.removeAll, Document.removeAll,
        Document.removeAll, ← List.foldl_append]
      rfl
    | dropWhere test =>
      show (if test d.name then none else some d : Option Document).bind (applyAll ts) = _
      rw [drops, List.any_cons]
      by_cases htest : test d.name = true
      · rw [if_pos htest]
        simp [htest]
      · rw [if_neg htest, Option.bind_some, ih]
        simp [htest, drops, stripped]

example : applyAll [.dropNames "devel.", .stripKeys ["name"]]
    ⟨"devel.page", [(.string "name", .string "New")]⟩ = none := by
  rfl

end Transform

/-! ### Storages that match -/

namespace Storage

/-- **Two storages match, as far as an import is concerned**: what is left of a document is in both of
them or in neither, and the contents differ at most in the order of keys. -/
def Matches (ts : List Transform) (docs docs' : Documents) : Prop :=
  ∀ n, Option.Rel (fun d e => Value.Reordered (.mapping d.data) (.mapping e.data))
    ((docs.get? n).bind fun m => Transform.applyAll ts ⟨n, m⟩)
    ((docs'.get? n).bind fun m => Transform.applyAll ts ⟨n, m⟩)

/-- **Two storages match but for some names and keys**: under any other name there is a document in
both of them or in neither, and the contents differ at most in the order of keys and in these keys. -/
def MatchesBut (names : String → Bool) (keys : List String) (docs docs' : Documents) : Prop :=
  ∀ n, names n = false →
    Option.Rel (fun m m' => Value.Reordered (.mapping (Document.removeAll ⟨n, m⟩ keys).data)
        (.mapping (Document.removeAll ⟨n, m'⟩ keys).data))
      (docs.get? n) (docs'.get? n)

variable {ts : List Transform} {docs docs' : Documents}

/-- **What does not count** where transforms are plain: the documents that they drop, and the keys that
they remove. -/
theorem matches_iff_of_plain (hts : Transform.Plain ts) :
    Matches ts docs docs' ↔
      MatchesBut (Transform.drops ts) (Transform.stripped ts) docs docs' := by
  refine forall_congr' fun n => ?_
  simp only [Transform.applyAll_eq_ite hts]
  by_cases hn : Transform.drops ts n = true
  · simp [hn]
  · rw [Bool.not_eq_true] at hn
    rcases docs.get? n with _ | m <;> rcases docs'.get? n with _ | m' <;> simp [hn]

theorem Proper.proper_snapshot (h : Proper docs) (ts : List Transform) :
    (Storage.snapshot ts docs).Proper := by
  intro n d hd
  rw [get?_snapshot, Option.bind_eq_some_iff] at hd
  obtain ⟨m, hm, hd⟩ := hd
  exact Transform.proper_applyAll (d := ⟨n, m⟩) (h n m hm) hd

/-- **Snapshots are the same just when the storages match.** -/
theorem same_snapshot_iff (h : Proper docs) (h' : Proper docs') :
    (snapshot ts docs).same (snapshot ts docs') = true ↔ Matches ts docs docs' := by
  rw [Snapshot.same_iff_agrees (named_snapshot _ _) (named_snapshot _ _),
    Snapshot.agrees_iff_forall]
  refine forall_congr' fun n => ?_
  have hp := h.proper_snapshot ts n
  have hp' := h'.proper_snapshot ts n
  rw [Snapshot.agreesAt_iff_rel, ← get?_snapshot, ← get?_snapshot]
  rcases hd : (snapshot ts docs).get? n with _ | d <;>
    rcases he : (snapshot ts docs').get? n with _ | e
  · simp
  · simp
  · simp
  · simp only [Option.rel_some_some]
    exact Value.same_iff_reordered (hp d hd) (hp' e he)

end Storage

end SiteConfig
