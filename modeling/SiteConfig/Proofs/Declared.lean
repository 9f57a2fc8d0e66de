import Mathlib
import SiteConfig.Proofs.Admission
import SiteConfig.Proofs.Records
import SiteConfig.Proofs.Sameness

/-!
# What a section of dependencies declares

The dependencies of a document are read twice: its schema judges the JSON form of the section, and a
decoder of its own takes the lists out of it. Both agree on what a section is. Whatever the schema
accepts can be read, and what is read for each of the four keys is the plain list followed by the
enforced names that it lacks (`SiteConfig.Document.dependencies_of_accepted`).

In between there are sections as lists of strings by the four keys
(`SiteConfig.Yaml.Value.IsDependencies`). What they **declare** under a key
(`SiteConfig.Yaml.Value.declared`) is told by looking keys up, so that the order of entries is
nothing to it, whereas the decoder goes through the entries one after the other.
-/

namespace SiteConfig

open Yaml

namespace Dependencies

/-! ### Names that are added -/

theorem nodup_eraseDups (l : List String) : l.eraseDups.Nodup := by
  induction hn : l.length using Nat.strong_induction_on generalizing l with
  | _ n ih =>
    subst hn
    cases l with
    | nil => exact .nil
    | cons k l =>
      rw [List.eraseDups_cons, List.nodup_cons]
      refine ⟨fun h => ?_, ih _ (Nat.lt_succ_of_le (List.length_filter_le _ _)) _ rfl⟩
      have hne := (List.mem_filter.1 (List.mem_eraseDups.1 h)).2
      simp at hne

/-- **Merged names**: those of the one list and then what it lacks, each where it first occurs. -/
theorem mergeNames_eq (names extra : List String) :
    mergeNames names extra = names ++ (extra.filter (· ∉ names)).eraseDups := by
  induction extra generalizing names with
  | nil => exact (List.append_nil names).symm
  | cons n extra ih =>
    rw [mergeNames, List.foldl_cons]
    by_cases hn : n ∈ names
    · rw [if_pos (List.contains_iff_mem.2 hn), List.filter_cons_of_neg (by simpa using hn)]
      exact ih names
    · rw [if_neg fun h => hn (List.contains_iff_mem.1 h),
        List.filter_cons_of_pos (by simpa using hn),
        List.eraseDups_cons, List.filter_filter]
      refine (ih (names ++ [n])).trans ?_
      rw [List.append_assoc, List.singleton_append]
      refine congrArg (fun l => names ++ n :: l.eraseDups) (List.filter_congr fun k _ => ?_)
      simp [and_comm, beq_eq_decide]

/-! ### Lists by key -/

variable {d e : Dependencies} {key key' : String} {f g : String → List String}

/-- The dependencies with a list for each of the four keys. -/
def ofLists (f : String → List String) : Dependencies :=
  ⟨f "module", f "theme", f "config", f "content"⟩

theorem ofLists_congr (h : ∀ key ∈ listKeys, f key = g key) : ofLists f = ofLists g := by
  simp only [ofLists, h "module" (by decide), h "theme" (by decide), h "config" (by decide),
    h "content" (by decide)]

/-- The list of one of the four keys. -/
def names (d : Dependencies) (key : String) : List String :=
  if key = "module" then d.module
  else if key = "theme" then d.theme
  else if key = "config" then d.config
  else d.content

theorem mem_listKeys_iff : key ∈ listKeys ↔
    key = "module" ∨ key = "theme" ∨ key = "config" ∨ key = "content" := by
  simp [listKeys]

theorem names_ofLists (hkey : key ∈ listKeys) : (ofLists f).names key = f key := by
  rcases mem_listKeys_iff.1 hkey with rfl | rfl | rfl | rfl <;> rfl

theorem names_setList (hkey : key ∈ listKeys) (l : List String) :
    (d.setList key l).names key = l := by
  rcases mem_listKeys_iff.1 hkey with rfl | rfl | rfl | rfl <;> rfl

theorem names_setList_of_ne (hkey : key ∈ listKeys) (hkey' : key' ∈ listKeys) (h : key ≠ key')
    (l : List String) : (d.setList key l).names key' = d.names key' := by
  rcases mem_listKeys_iff.1 hkey with rfl | rfl | rfl | rfl <;>
    rcases mem_listKeys_iff.1 hkey' with rfl | rfl | rfl | rfl <;>
    first
    | rfl
    | exact absurd rfl h

theorem eq_of_names (h : ∀ key ∈ listKeys, d.names key = e.names key) : d = e := by
  have hkey := fun key hkey => h key (mem_listKeys_iff.2 hkey)
  rcases d with ⟨dm, dt, dc, dx⟩
  rcases e with ⟨em, et, ec, ex⟩
  obtain rfl : dm = em := hkey "module" (by simp)
  obtain rfl : dt = et := hkey "theme" (by simp)
  obtain rfl : dc = ec := hkey "config" (by simp)
  obtain rfl : dx = ex := hkey "content" (by simp)
  rfl

/-- The place of the list of a key, which is read in some way. -/
def slot (read : Decoder (List String)) (key : String) : Slot Dependencies :=
  .single key read (·.names key) fun l d => d.setList key l

theorem slots (read : Decoder (List String)) : Slots (listKeys.map (slot read)) (fun _ => ())
    fun d key v => return d.setList key (← read v) where
  nodup := show listKeys.Nodup by decide
  get_set i hi v l d _ := by
    obtain ⟨key, hkey, rfl⟩ := List.mem_map.1 hi
    exact names_setList hkey l
  get_other i hi j hj hij l d := by
    obtain ⟨key, hkey, rfl⟩ := List.mem_map.1 hi
    obtain ⟨key', hkey', rfl⟩ := List.mem_map.1 hj
    exact names_setList_of_ne hkey hkey' hij l
  rest_set _ _ _ _ := rfl
  ext d e _ h := eq_of_names fun key hkey => h _ (List.mem_map_of_mem hkey)
  take i hi d v t := by
    obtain ⟨key, hkey, rfl⟩ := List.mem_map.1 hi
    simp only [except_bind_eq_ok_iff, pure, Except.pure, Except.ok.injEq, eq_comm (b := t)]
    rfl

end Dependencies

/-! ### Sections -/

namespace Yaml

namespace Mapping

variable {m : Mapping} {key key' : String}

theorem get?_cons (e : Value × Value) (m : Mapping) (key : String) :
    get? (e :: m) key = if hasKey key e then some e.2 else m.get? key := by
  rw [get?, List.find?_cons]
  cases hasKey key e <;> rfl

/-- A string is a key like others. -/
theorem get?_eq_valueAt? (m : Mapping) (key : String) : m.get? key = m.valueAt? (.string key) := by
  rw [get?, valueAt?, findKey?]
  refine congrArg _ (List.find?_congr fun e _ => ?_)
  rw [Bool.eq_iff_iff, hasKey_iff]
  rcases e with ⟨k, v⟩
  cases k <;> simp [Value.same]

/-- Where keys are strings, the first text is the first key. -/
theorem member?_eq_get? (h : ∀ e ∈ m, ∃ k, e.1 = .string k) (key : String) :
    m.member? key = m.get? key := by
  rw [member?, get?]
  refine congrArg _ (List.find?_congr fun e he => ?_)
  obtain ⟨k, hk⟩ := h e he
  rw [hk, Bool.eq_iff_iff, hasKey_iff, hk]
  simp [Value.asString?, Value.untag]

theorem get?_remove_of_ne (h : key ≠ key') : (m.remove key).get? key' = m.get? key' := by
  induction m with
  | nil => rfl
  | cons e m ih =>
    rw [remove] at ih ⊢
    by_cases he : hasKey key e = true
    · have hne : hasKey key' e = false := by
        rw [Bool.eq_false_iff, Ne, hasKey_iff, hasKey_iff.1 he, Value.string.injEq]
        exact h
      rw [List.filter_cons_of_neg (by simpa using he), ih, get?_cons, hne]
      rfl
    · rw [List.filter_cons_of_pos (by simpa using he), get?_cons, get?_cons, ih]

end Mapping

namespace Value

open Dependencies (Section ofLists listKeys slot slots names_ofLists nodup_eraseDups strictList
  decodePlain)

variable {v w : Value} {m : Mapping} {key : String} {K : List String} {Q : String → Value → Prop}

/-- The texts in a sequence. -/
def texts : Value → List String
  | .sequence items => items.filterMap asString?
  | _ => []

/-- The texts that are listed under a key. -/
def listed (v : Value) (key : String) : List String :=
  match v with
  | .mapping m => ((Mapping.get? m key).map texts).getD []
  | _ => []

/-- The texts that are listed under a key of what is enforced. -/
def enforced (v : Value) (key : String) : List String :=
  match v with
  | .mapping m => ((Mapping.get? m "enforced").map (·.listed key)).getD []
  | _ => []

/-- **What a section declares** under a key: what is listed and then, of what is enforced, all that
is not listed, each where it first occurs. -/
def declared (v : Value) (key : String) : List String :=
  v.listed key ++ ((v.enforced key).filter (· ∉ v.listed key)).eraseDups

/-- Nothing is lost and nothing is added. -/
theorem mem_declared_iff {n : String} :
    n ∈ v.declared key ↔ n ∈ v.listed key ∨ n ∈ v.enforced key := by
  rw [declared, List.mem_append, List.mem_eraseDups, List.mem_filter, decide_eq_true_eq]
  tauto

/-- A name that is repeated is one that is repeated in the list. -/
theorem count_declared_of_lt {n : String} (h : 1 < (v.declared key).count n) :
    (v.declared key).count n = (v.listed key).count n := by
  rw [declared, List.count_append] at h ⊢
  by_cases hn : n ∈ v.listed key
  · rw [Nat.add_eq_left, List.count_eq_zero, List.mem_eraseDups, List.mem_filter,
      decide_eq_true_eq]
    exact fun hfilter => hfilter.2 hn
  · have honce := List.nodup_iff_count_le_one.1
      (nodup_eraseDups ((v.enforced key).filter (· ∉ v.listed key))) n
    rw [List.count_eq_zero.2 hn] at h
    omega

theorem mapM_string {items : List Value} (h : ∀ i ∈ items, ∃ s, i = .string s) :
    items.mapM Decode.string = .ok (items.filterMap asString?) := by
  induction items with
  | nil => rfl
  | cons i items ih =>
    obtain ⟨⟨s, rfl⟩, hitems⟩ := List.forall_mem_cons.1 h
    rw [List.mapM_cons, ih hitems]
    rfl

theorem Texts.strictList (h : v.Texts) : strictList v = .ok v.texts := by
  obtain ⟨items, rfl, hitems⟩ := h
  exact mapM_string hitems

theorem Texts.list (h : v.Texts) : Decode.list Decode.string v = .ok v.texts := by
  obtain ⟨items, rfl, hitems⟩ := h
  exact mapM_string hitems

theorem Texts.hasTag (h : v.Texts) : Dependencies.hasTag v = false := by
  obtain ⟨items, rfl, hitems⟩ := h
  show Dependencies.anyTag items = false
  induction items with
  | nil => rfl
  | cons i items ih =>
    obtain ⟨⟨s, rfl⟩, hrest⟩ := List.forall_mem_cons.1 hitems
    exact ih hrest

theorem Keyed.exists_string (h : (mapping m).Keyed K Q) {e : Value × Value} (he : e ∈ m) :
    ∃ k ∈ K, e.1 = .string k ∧ Q k e.2 := by
  obtain ⟨m', heq, hm⟩ := h
  cases heq
  exact hm e he

/-- **Lists are read as they are**, in whatever way the list of a key is read. -/
theorem Lists.record {read : Decoder (List String)} (hread : ∀ v, v.Texts → read v = .ok v.texts)
    (pm : (mapping m).Proper) (hm : (mapping m).Lists) (name : String) :
    Decode.record name listKeys .none (fun d key v => return d.setList key (← read v)) (.mapping m)
      = .ok (ofLists (mapping m).listed) := by
  have hstring : ∀ e ∈ m, ∃ k, e.1 = .string k := fun e he => by
    obtain ⟨k, -, hk, -⟩ := hm.exists_string he
    exact ⟨k, hk⟩
  have hkeys : (listKeys.map (slot read)).map (·.key) = listKeys := rfl
  rw [← hkeys]
  refine (slots read).record_eq_ok_iff.2 ⟨m, rfl, ⟨fun e he => ?_, ?_⟩, fun i hi => ?_, rfl⟩
  · obtain ⟨k, hk⟩ := hstring e he
    exact ⟨k, by rw [hk]; rfl⟩
  · -- texts that are the same would be keys that are the same
    refine (proper_mapping_iff.1 pm).1.imp_of_mem fun {e f} he hf hne key _ hek hfk => ?_
    obtain ⟨k, hk⟩ := hstring e he
    obtain ⟨l, hl⟩ := hstring f hf
    rw [hk] at hek hne
    rw [hl] at hfk hne
    cases hek
    cases hfk
    simp [Value.same] at hne
  · obtain ⟨key, hkey, rfl⟩ := List.mem_map.1 hi
    show (slot read key).Holds .none (m.member? key) _
    rw [Mapping.member?_eq_get? hstring]
    have hlisted : (slot read key).get (ofLists (mapping m).listed) = (mapping m).listed key :=
      names_ofLists hkey
    rcases hv : m.get? key with _ | v
    · rw [Slot.Holds, hlisted, listed, hv]
      exact (names_ofLists (f := fun _ => []) hkey).symm
    · rw [Slot.Holds, hlisted, listed, hv]
      obtain ⟨k, -, -, htexts⟩ := hm.exists_string ((Mapping.get?_eq_some_iff pm).1 hv)
      exact hread v htexts

/-! ### Reading a section -/

/-- The plain entries are read like a record of their own. -/
theorem decodePlain_eq (l : List (String × Value)) : decodePlain l =
    Decode.record "DependencyLists" listKeys .none
      (fun d key v => return d.setList key (← strictList v))
      (.mapping (l.map fun e => (.string e.1, e.2))) := by
  let take : Dependencies → String → Value → Except Mismatch Dependencies :=
    fun d key v => return d.setList key (← strictList v)
  have hrun : (l.map fun e => (Value.string e.1, e.2)).foldlM (Decode.takeEntry listKeys take)
      ([], .none) = l.foldlM (fun acc e => Decode.takeEntry listKeys take acc (.string e.1, e.2))
        ([], .none) := List.foldlM_map
  rw [Decode.record_eq]
  refine (congrArg (fun x => x >>= fun acc => Except.ok acc.2) (hrun.trans ?_)).symm
  refine congrArg (fun f => l.foldlM f ([], Dependencies.none)) ?_
  funext acc e
  simp only [Decode.takeEntry, take, bind_assoc, pure_bind]
  rfl

/-- The entries of a section, one by one. -/
theorem IsDependencies.cons {e : Value × Value} (h : (mapping (e :: m)).IsDependencies) :
    (mapping m).IsDependencies ∧ ∃ k, e.1 = .string k ∧
      if k = "enforced" then e.2.Lists else e.2.Texts := by
  obtain ⟨k, -, hk, hvalue⟩ := Keyed.exists_string h List.mem_cons_self
  exact ⟨⟨m, rfl, fun f hf => Keyed.exists_string h (List.mem_cons_of_mem _ hf)⟩, k, hk, hvalue⟩

theorem Proper.tail {e : Value × Value} (h : (mapping (e :: m)).Proper) : (mapping m).Proper := by
  rw [proper_mapping_iff] at h ⊢
  exact ⟨(List.pairwise_cons.1 h.1).2, fun f hf => h.2 f (List.mem_cons_of_mem _ hf)⟩

/-- A key that an entry has is not to be found again. -/
theorem Proper.get?_tail {key : String} (h : (mapping ((.string key, v) :: m)).Proper) :
    Mapping.get? m key = none := by
  rw [Mapping.get?, Option.map_eq_none_iff, List.find?_eq_none]
  intro f hf hkey
  have hne := (List.pairwise_cons.1 (proper_mapping_iff.1 h).1).1 f hf
  rw [Mapping.hasKey_iff.1 hkey, same_self] at hne
  cases hne

/-- What is known once a section has been gone through: the entries other than the enforced one, and
what that one says. -/
def taken (s : Section) (m : Mapping) (l : List (String × Value)) : Section where
  plain := s.plain ++ l
  enforced := match m.get? "enforced" with
    | none => s.enforced
    | some w => some (some (ofLists w.listed))

theorem take_enforced {s : Section} (hs : s.enforced = none) (pv : v.Proper) (hv : v.Lists) :
    s.take (.string "enforced", v) = .ok { s with enforced := some (some (ofLists v.listed)) } := by
  obtain ⟨m, rfl, -⟩ := id hv
  have hread : Dependencies.decodeLists (.mapping m) = .ok (ofLists (mapping m).listed) :=
    hv.record (fun _ => Texts.list) pv "DependencyLists"
  show (if s.enforced.isSome then throw (.duplicateField "enforced") else do
    return { s with enforced := some (← (Dependencies.decodeLists (.mapping m)).map some) }) = _
  rw [hs, hread]
  rfl

theorem take_plain {k : String} (s : Section) (hk : k ≠ "enforced") (hv : v.Texts) :
    s.take (.string k, v) = .ok { s with plain := s.plain ++ [(k, v)] } := by
  show (if k = "enforced" then _ else if Dependencies.hasTag v then _ else _) = _
  rw [if_neg hk, hv.hasTag]
  rfl

/-- **Entry by entry**: what is enforced is read, and the other entries are kept for later. -/
theorem IsDependencies.foldlM_take (pm : (mapping m).Proper) (hm : (mapping m).IsDependencies)
    (s : Section) (hs : m.get? "enforced" ≠ none → s.enforced = none) :
    ∃ l, m.foldlM Section.take s = .ok (taken s m l) ∧
      l.map (fun e => (Value.string e.1, e.2)) = m.remove "enforced" := by
  induction m generalizing s with
  | nil =>
    refine ⟨[], ?_, rfl⟩
    rw [taken, List.append_nil]
    rfl
  | cons e m ih =>
    obtain ⟨hrest, k, hk, hvalue⟩ := hm.cons
    obtain ⟨e₁, v⟩ := e
    obtain rfl : e₁ = .string k := hk
    have pv := ((proper_mapping_iff.1 pm).2 _ List.mem_cons_self).2
    rw [List.foldlM_cons]
    by_cases hk : k = "enforced"
    · subst hk
      have hnone : Mapping.get? m "enforced" = none := pm.get?_tail
      obtain ⟨l, hl, hlist⟩ := ih pm.tail hrest
        { s with enforced := some (some (ofLists v.listed)) } fun h => absurd hnone h
      refine ⟨l, ?_, hlist.trans ?_⟩
      · rw [take_enforced (hs (by simp [Mapping.get?_cons, Mapping.hasKey])) pv hvalue]
        refine hl.trans ?_
        rw [taken, taken, hnone, Mapping.get?_cons, if_pos (by rfl)]
      · rw [Mapping.remove, Mapping.remove, List.filter_cons_of_neg (by simp [Mapping.hasKey])]
    · rw [if_neg hk] at hvalue
      have hother : Mapping.hasKey "enforced" (.string k, v) = false := by
        simpa [Mapping.hasKey] using hk
      have hget : Mapping.get? ((.string k, v) :: m) "enforced" =
          Mapping.get? m "enforced" := by
        rw [Mapping.get?_cons, hother, if_neg Bool.false_ne_true]
      obtain ⟨l, hl, hlist⟩ := ih pm.tail hrest { s with plain := s.plain ++ [(k, v)] }
        fun h => hs (hget ▸ h)
      refine ⟨(k, v) :: l, ?_, ?_⟩
      · rw [take_plain s hk hvalue]
        refine hl.trans ?_
        rw [taken, taken, hget, List.append_assoc, List.singleton_append]
      · rw [List.map_cons, hlist, Mapping.remove, Mapping.remove,
          List.filter_cons_of_pos (by simpa using hother)]

/-- The entries that are not enforced are lists. -/
theorem IsDependencies.lists_remove (hm : (mapping m).IsDependencies) :
    (mapping (m.remove "enforced")).Lists := by
  refine ⟨_, rfl, fun e he => ?_⟩
  obtain ⟨he, hne⟩ := List.mem_filter.1 he
  obtain ⟨k, hin, hk, hvalue⟩ := Keyed.exists_string hm he
  have hother : k ≠ "enforced" := by
    rintro rfl
    rw [Mapping.hasKey_iff.2 hk] at hne
    cases hne
  rw [if_neg hother] at hvalue
  exact ⟨k, (List.mem_cons.1 hin).resolve_left hother, hk, hvalue⟩

/-- The entries that are not enforced are read as the plain lists. -/
theorem IsDependencies.reads_plain (pm : (mapping m).Proper) (hm : (mapping m).IsDependencies)
    {l : List (String × Value)}
    (hl : l.map (fun e => (Value.string e.1, e.2)) = m.remove "enforced") :
    decodePlain l = .ok (ofLists (mapping m).listed) := by
  rw [decodePlain_eq, hl, hm.lists_remove.record (fun _ => Texts.strictList)
    (Proper.remove pm "enforced") "DependencyLists"]
  refine congrArg _ (Dependencies.ofLists_congr fun key hkey => ?_)
  have hne : "enforced" ≠ key := by
    rintro rfl
    exact absurd hkey (by decide)
  simp only [listed, Mapping.get?_remove_of_ne hne]

/-- **What is read of a section** is what it declares. -/
theorem IsDependencies.decode (pv : v.Proper) (hv : v.IsDependencies) :
    Dependencies.decode v = .ok (ofLists v.declared) := by
  obtain ⟨m, rfl, -⟩ := id hv
  obtain ⟨l, hl, hlist⟩ := hv.foldlM_take pv ⟨[], none⟩ fun _ => rfl
  show (m.foldlM Section.take ⟨[], none⟩ >>= _) = _
  rw [hl]
  show (decodePlain l >>= _) = _
  rw [hv.reads_plain pv hlist]
  rcases hget : Mapping.get? m "enforced" with _ | w
  · have htaken : (taken ⟨[], none⟩ m l).enforced = none := by simp only [taken, hget]
    simp only [bind, Except.bind, htaken]
    refine congrArg _ (Dependencies.ofLists_congr fun key _ => ?_)
    simp [declared, enforced, hget]
  · have htaken : (taken ⟨[], none⟩ m l).enforced = some (some (ofLists w.listed)) := by
      simp only [taken, hget]
    simp only [bind, Except.bind, htaken]
    show Except.ok (ofLists fun key => Dependencies.mergeNames ((mapping m).listed key)
      (w.listed key)) = _
    refine congrArg _ (Dependencies.ofLists_congr fun key _ => ?_)
    rw [Dependencies.mergeNames_eq, declared]
    simp only [enforced, hget, Option.map_some, Option.getD_some]

/-! ### The order of entries -/

theorem texts_of_same (h : v.same w = true) : v.texts = w.texts := by
  cases v <;> cases w <;> simp only [Value.same, Bool.false_eq_true] at h <;> try rfl
  case sequence.sequence xs ys =>
    have hitems := sameItems_iff.1 h
    rw [texts, texts]
    clear h
    induction hitems with
    | nil => rfl
    | cons hxy _ ih => rw [List.filterMap_cons, List.filterMap_cons, asString?_of_same hxy, ih]

theorem Texts.of_same (h : v.same w = true) (hv : v.Texts) : w.Texts := by
  obtain ⟨xs, rfl, hxs⟩ := hv
  cases w <;> simp only [Value.same, Bool.false_eq_true] at h
  case sequence ys =>
    refine ⟨ys, rfl, fun y hy => ?_⟩
    obtain ⟨i, hi, rfl⟩ := List.getElem_of_mem hy
    obtain ⟨hlen, hitems⟩ := List.forall₂_iff_get.1 (sameItems_iff.1 h)
    have hx := hlen.symm ▸ hi
    obtain ⟨s, hs⟩ := hxs _ (List.getElem_mem hx)
    have hsame : (Value.string s).same ys[i] = true := hs ▸ hitems i hx hi
    rcases hy : ys[i] <;> rw [hy] at hsame <;> simp only [Value.same, Bool.false_eq_true] at hsame
    exact ⟨_, rfl⟩

/-- A mapping with the same entries has the same keys. -/
theorem Keyed.of_same (hQ : ∀ k v w, v.Proper → w.Proper → v.same w = true → Q k v → Q k w)
    (pv : v.Proper) (pw : w.Proper) (h : v.same w = true) (hv : v.Keyed K Q) : w.Keyed K Q := by
  have hback := pv.same_symm pw h
  obtain ⟨a, rfl, ha⟩ := hv
  cases w <;> simp only [Value.same, Bool.false_eq_true] at h hback
  case mapping b =>
    rw [Bool.and_eq_true, sameEntries_iff] at hback
    refine ⟨b, rfl, fun f hf => ?_⟩
    obtain ⟨e, he, hkey, hvalue⟩ := hback.2 f hf
    obtain ⟨k, hk, hek, hQe⟩ := ha e he
    have pe := ((proper_mapping_iff.1 pv).2 e he).2
    have pf := ((proper_mapping_iff.1 pw).2 f hf).2
    obtain ⟨f₁, f₂⟩ := f
    rw [hek] at hkey
    cases f₁ <;> simp only [Value.same, Bool.false_eq_true, beq_iff_eq] at hkey
    exact ⟨k, hk, congrArg _ hkey, hQ k _ _ pe pf (pf.same_symm pe hvalue) hQe⟩

theorem Lists.of_same (pv : v.Proper) (pw : w.Proper) (h : v.same w = true) (hv : v.Lists) :
    w.Lists :=
  Keyed.of_same (fun _ _ _ _ _ hsame htexts => htexts.of_same hsame) pv pw h hv

theorem IsDependencies.of_same (pv : v.Proper) (pw : w.Proper) (h : v.same w = true)
    (hv : v.IsDependencies) : w.IsDependencies := by
  refine Keyed.of_same (fun k x y px py hsame hx => ?_) pv pw h hv
  split at hx
  · rw [if_pos ‹_›]
    exact hx.of_same px py hsame
  · rw [if_neg ‹_›]
    exact hx.of_same hsame

/-- What is bound to a key is the same. -/
theorem rel_get? {a b : Mapping} (ha : (mapping a).Proper) (hb : (mapping b).Proper)
    (h : (mapping a).same (mapping b) = true) (key : String) :
    Option.Rel (fun x y => x.same y = true) (Mapping.get? a key) (Mapping.get? b key) := by
  rw [Mapping.get?_eq_valueAt?, Mapping.get?_eq_valueAt?]
  exact Mapping.rel_valueAt? ha hb trivial h

theorem listed_of_same (pv : v.Proper) (pw : w.Proper) (h : v.same w = true) (key : String) :
    v.listed key = w.listed key := by
  cases v <;> cases w <;> try exact absurd h Bool.false_ne_true
  case mapping.mapping a b =>
    have hrel := rel_get? pv pw h key
    rw [listed, listed]
    rcases hx : Mapping.get? a key with _ | x <;> rcases hy : Mapping.get? b key with _ | y <;>
      rw [hx, hy] at hrel <;> cases hrel
    rename_i hxy
    exact texts_of_same hxy
  all_goals rfl

/-- **What is declared does not depend on the order** of entries. -/
theorem declared_of_same (pv : v.Proper) (pw : w.Proper) (h : v.same w = true) (key : String) :
    v.declared key = w.declared key := by
  have henforced : v.enforced key = w.enforced key := by
    cases v <;> cases w <;> try exact absurd h Bool.false_ne_true
    case mapping.mapping a b =>
      have hrel := rel_get? pv pw h "enforced"
      rw [enforced, enforced]
      rcases hx : Mapping.get? a "enforced" with _ | x <;>
        rcases hy : Mapping.get? b "enforced" with _ | y <;> rw [hx, hy] at hrel <;> cases hrel
      rename_i hxy
      have px := ((proper_mapping_iff.1 pv).2 _ ((Mapping.get?_eq_some_iff pv).1 hx)).2
      have py := ((proper_mapping_iff.1 pw).2 _ ((Mapping.get?_eq_some_iff pw).1 hy)).2
      exact listed_of_same px py hxy key
    all_goals rfl
  rw [declared, declared, listed_of_same pv pw h, henforced]

end Value

end Yaml

/-! ### Documents -/

namespace Document

variable {d : Document} {v : Value}

/-- **The section of dependencies is accepted**: the schema that every document is held to for it
finds nothing wrong with its JSON form. -/
structure Accepted (d : Document) (v : Value) : Prop where
  found : d.get? dependenciesKey = some v
  allowed : ∃ j x schema, v.toJson = .ok j ∧
    Schema.baseMembers.find? (·.1 == dependenciesKey) = some x ∧
    Schema.ofJson x.2 = .ok schema ∧ Schema.violations [] j schema = []

theorem Proper.of_get? (pd : d.Proper) {key : String} (h : d.get? key = some v) : v.Proper :=
  ((Value.proper_mapping_iff.1 pd).2 _ ((Mapping.get?_eq_some_iff pd).1 h)).2

theorem Accepted.isDependencies (pd : d.Proper) (h : d.Accepted v) : v.IsDependencies := by
  obtain ⟨j, x, schema, hj, hx, hschema, hviolations⟩ := h.allowed
  cases hx
  cases Schema.ofJson_dependencies.symm.trans hschema
  exact Value.isDependencies_of_violations (pd.of_get? h.found) hj hviolations

/-- Of a document that is accepted as a whole, the section is. -/
theorem accepted_of_judge {name : String} {source : Json} {s : NamedSchema}
    (hs : NamedSchema.ofJson name source = .ok s) (hsource : source.ObjectSchema)
    (hkey : ¬source.Declares dependenciesKey) (pd : d.Proper)
    (hv : d.get? dependenciesKey = some v) (hd : s.judge d = []) : d.Accepted v := by
  obtain ⟨j, hj, hviolations⟩ :=
    (NamedSchema.isDependencies_of_judge hs hsource hkey pd hv hd).exists_violations
  exact ⟨hv, j, _, _, hj, rfl, Schema.ofJson_dependencies, hviolations []⟩

/-- A section of dependencies is read as what it declares. -/
theorem dependencies_of_isDependencies (hd : d.get? dependenciesKey = some v) (pv : v.Proper)
    (hv : v.IsDependencies) : d.dependencies = .ok (.ofLists v.declared) := by
  have hread := hv.decode pv
  obtain ⟨m, rfl, -⟩ := hv
  rw [dependencies, hd]
  show (Dependencies.decode (.mapping m)).mapError _ = _
  rw [hread]
  rfl

/-- **What the schema accepts can be read**: for each of the four keys it is the plain list,
followed by the enforced names that it lacks, each where it first occurs. So every name is there and
no other one, and only the plain list repeats names. Another order of the entries makes no
difference. -/
theorem dependencies_of_accepted (pd : d.Proper) (h : d.Accepted v) :
    d.dependencies = .ok (.ofLists fun key =>
        v.listed key ++ ((v.enforced key).filter (· ∉ v.listed key)).eraseDups) ∧
      (∀ key n, (n ∈ v.declared key ↔ n ∈ v.listed key ∨ n ∈ v.enforced key) ∧
        (1 < (v.declared key).count n → (v.declared key).count n = (v.listed key).count n)) ∧
      ∀ (e : Document) (w : Value), e.get? dependenciesKey = some w → v.Reordered w →
        e.dependencies = d.dependencies := by
  have pv := pd.of_get? h.found
  have hv := h.isDependencies pd
  have hread := dependencies_of_isDependencies h.found pv hv
  refine ⟨hread, fun key n => ⟨Value.mem_declared_iff, Value.count_declared_of_lt⟩,
    fun e w hw hvw => ?_⟩
  have pw := hvw.proper pv
  rw [hread, dependencies_of_isDependencies hw pw (hv.of_same pv pw hvw.same)]
  exact congrArg _ (Dependencies.ofLists_congr fun key _ =>
    (Value.declared_of_same pv pw hvw.same key).symm)

/-- A page that needs some extensions, one of them twice. -/
def page : Document :=
  ⟨"page.home", [(.string "label", .string "Home"), (.string "dependencies", .mapping
    [(.string "enforced", .mapping
        [(.string "module", .sequence [.string "views", .string "node"])]),
      (.string "module", .sequence [.string "node", .string "user"]),
      (.string "theme", .sequence [.string "claro", .string "claro"])])]⟩

/-- A schema that only asks for an object. -/
def anyObject : Json := .object [("type", .string "object")]

theorem proper_page : page.Proper := by
  simp [Proper, page, Value.Proper, Value.ProperEntries, Value.ProperItems, Mapping.hasDuplicate,
    Value.same]

theorem dependencies_of_accepted_page : ∃ s v, NamedSchema.ofJson "page" anyObject = .ok s ∧
    page.Proper ∧ s.judge page = [] ∧ page.Accepted v ∧
      page.dependencies = .ok ⟨["node", "user", "views"], ["claro", "claro"], [], []⟩ := by
  have hjudge : (NamedSchema.ofJson "page" anyObject).toOption.map
      (fun s => (s.judge page).length) = some 0 := by decide +kernel
  cases hs : NamedSchema.ofJson "page" anyObject with
  | error e =>
    rw [hs] at hjudge
    cases hjudge
  | ok s =>
    rw [hs] at hjudge
    have haccepted := List.length_eq_zero_iff.1 (Option.some_inj.1 hjudge)
    have hsection := accepted_of_judge hs ⟨rfl, rfl⟩ (by rintro ⟨listed, hlisted, -⟩; cases hlisted)
      proper_page rfl haccepted
    have hread := (dependencies_of_accepted proper_page hsection).1
    exact ⟨s, _, rfl, proper_page, haccepted, hsection, hread.trans rfl⟩

end Document

end SiteConfig
