import Mathlib
import SiteConfig.Proofs.Backing
import SiteConfig.Proofs.Copying

/-!
# Making one storage hold what another one holds

A storage becomes a replica of another one in two loops over two lists of names: first what the
other one does not have is deleted, then everything is written. All that is asked of the two is that
they are independent of one another and each is backed by a map, whose names it lists in order
(`SiteConfig.Storage.Paired`).

Either loop may fail anywhere. What it leaves of the target is then between what was there and what
the source has (`SiteConfig.Storage.Between`): under every name there is the old document or the one
of the source, and nothing is lost that the source has. If both loops come to their end, then there
is nothing left but what the source has (`SiteConfig.Storage.Paired.replicates`).
-/

namespace SiteConfig.Storage

open Attempt

variable {σ : Type} {s s' : σ} {src tgt tgt' : Documents} {names : List String}

/-! ### Independent storages -/

/-- **What listing all names gives**: the names of the documents in order, unless anything can fail.
The state that is left looks the same. -/
inductive Lists (I : σ → Prop) (fallible : Prop) (docs : Documents) :
    Except ConfigError (List String) × σ → Prop
  | listed {s : σ} : I s → Lists I fallible docs (.ok docs.keys, s)
  | refused (e : ConfigError) {s : σ} : fallible → I s → Lists I fallible docs (.error e, s)

/-- **Two independent storages**: a state holds documents of both, and each of the two is backed by
a map whatever the other one holds, which it leaves alone. -/
structure Paired (source target : Storage σ) (R : σ → Documents → Documents → Prop)
    (fits fits' : String → Yaml.Mapping → Bool) (keeps keeps' : Yaml.Mapping → Prop)
    (fallible : Prop) : Prop where
  backedSource : ∀ tgt, source.Backed (fun s src => R s src tgt) fits keeps fallible
  backedTarget : ∀ src, target.Backed (fun s tgt => R s src tgt) fits' keeps' fallible
  listsSource : ∀ {s src tgt}, R s src tgt →
    Lists (fun s => R s src tgt) fallible src (source.list "" s)
  listsTarget : ∀ {s src tgt}, R s src tgt →
    Lists (fun s => R s src tgt) fallible tgt (target.list "" s)

/-- A storage **leaves something alone**: whatever it is asked to do, it stays as it is. -/
structure LeavesAlone (st : Storage σ) (P : σ → Prop) : Prop where
  has : ∀ n {s}, P s → P (st.has n s).2
  read : ∀ n {s}, P s → P (st.read n s).2
  write : ∀ n m {s}, P s → P (st.write n m s).2
  delete : ∀ n {s}, P s → P (st.delete n s).2
  list : ∀ start {s}, P s → P (st.list start s).2

section Beside

variable {st : Storage σ} {I K : σ → Documents → Prop} {P : σ → Prop}
  {fits : String → Yaml.Mapping → Bool} {keeps : Yaml.Mapping → Prop} {fallible : Prop}

/-- A storage that leaves something alone is backed by its map beside it. -/
theorem Backed.beside (h : st.Backed I fits keeps fallible) (hP : st.LeavesAlone P)
    (hK : ∀ s docs, K s docs ↔ I s docs ∧ P s) : st.Backed K fits keeps fallible where
  proper := h.proper
  kept hs := h.kept ((hK _ _).1 hs).1
  has {s docs} n hs := by
    obtain ⟨hI, hs⟩ := (hK s docs).1 hs
    have htells := h.has n hI
    have hleft := hP.has n hs
    generalize st.has n s = told at htells hleft
    cases htells with
    | told hI => exact .told ((hK _ _).2 ⟨hI, hleft⟩)
    | refused e hknown hI => exact .refused e hknown ((hK _ _).2 ⟨hI, hleft⟩)
  read {s docs} n hs := by
    obtain ⟨hI, hs⟩ := (hK s docs).1 hs
    have hreads := h.read n hI
    have hleft := hP.read n hs
    generalize st.read n s = read at hreads hleft
    cases hreads with
    | found hn hI => exact .found hn ((hK _ _).2 ⟨hI, hleft⟩)
    | refused e hmissing hknown hI => exact .refused e hmissing hknown ((hK _ _).2 ⟨hI, hleft⟩)
  write {s docs} n m hs hm := by
    obtain ⟨hI, hs⟩ := (hK s docs).1 hs
    obtain ⟨docs', hdoes, hI'⟩ := h.write n m hI hm
    exact ⟨docs', hdoes, (hK _ _).2 ⟨hI', hP.write n m hs⟩⟩
  delete {s docs} n hs := by
    obtain ⟨hI, hs⟩ := (hK s docs).1 hs
    obtain ⟨docs', hdoes, hI'⟩ := h.delete n hI
    exact ⟨docs', hdoes, (hK _ _).2 ⟨hI', hP.delete n hs⟩⟩

end Beside

/-- Documents in a cell leave alone whatever does not depend on the cell. -/
theorem leavesAlone_memory {cell : Cell σ Documents} {P : σ → Prop}
    (hP : ∀ docs {s}, P s → P (cell.set docs s)) : (memory cell).LeavesAlone P where
  has _ _ hs := hs
  read _ _ hs := hs
  write n m s hs := by
    rcases hn : validateName n with e | ⟨⟩
    · rwa [write_memory_error hn]
    · rw [write_memory hn]
      exact hP _ hs
  delete n s hs := by
    rcases hn : (cell.get s).contains n with _ | _
    · rwa [delete_memory_error hn]
    · rw [delete_memory hn]
      exact hP _ hs
  list _ _ hs := hs

theorem lists_memory {cell : Cell σ Documents} (I : σ → Prop) {s : σ} (hs : I s)
    {docs : Documents} (hdocs : cell.get s = docs) :
    Lists I False docs ((memory cell).list "" s) := by
  subst hdocs
  have hall : namesFrom (cell.get s) "" = (cell.get s).keys :=
    List.filter_eq_self.2 fun _ _ => rfl
  have hlist : (memory cell).list "" s = (.ok (cell.get s).keys, s) := by
    rw [← hall]
    rfl
  rw [hlist]
  exact .listed hs

/-- **Documents in two cells** are two independent storages. -/
theorem paired_memory {cell cell' : Cell σ Documents}
    (hcell : ∀ docs s, cell.get (cell.set docs s) = docs)
    (hcell' : ∀ docs s, cell'.get (cell'.set docs s) = docs)
    (hleft : ∀ docs s, cell'.get (cell.set docs s) = cell'.get s)
    (hleft' : ∀ docs s, cell.get (cell'.set docs s) = cell.get s) :
    Paired (memory cell) (memory cell') (fun s src tgt => cell.get s = src ∧ cell'.get s = tgt)
      (fun n _ => isProper n) (fun n _ => isProper n) (fun _ => True) (fun _ => True) False where
  backedSource _ := (backed_memory cell hcell).beside
    (leavesAlone_memory fun docs s hs => (hleft docs s).trans hs) fun _ _ => Iff.rfl
  backedTarget _ := (backed_memory cell' hcell').beside
    (leavesAlone_memory fun docs s hs => (hleft' docs s).trans hs) fun _ _ => And.comm
  listsSource {_ src _} hs :=
    lists_memory (fun s => cell.get s = src ∧ cell'.get s = _) hs hs.1
  listsTarget {_ _ tgt} hs :=
    lists_memory (fun s => cell.get s = _ ∧ cell'.get s = tgt) hs hs.2

/-- Some documents are **between** others: under every name there is what one or the other has. -/
def Between (src tgt tgt' : Documents) : Prop :=
  ∀ n, tgt'.get? n = tgt.get? n ∨ tgt'.get? n = src.get? n

theorem Between.refl : Between src tgt tgt := fun _ => .inl rfl

theorem Between.trans {tgt'' : Documents} (h : Between src tgt tgt')
    (h' : Between src tgt' tgt'') : Between src tgt tgt'' := fun n => by
  rcases h' n with hn | hn
  · rw [hn]
    exact h n
  · exact .inr hn

theorem Between.erase {n : String} (hn : src.get? n = none) : Between src tgt (tgt.erase n) := by
  intro k
  rw [NameMap.get?_erase]
  split
  · rename_i hk
    exact .inr (hk ▸ hn.symm)
  · exact .inl rfl

theorem Between.insert {n : String} {m : Yaml.Mapping} (hn : src.get? n = some m) :
    Between src tgt (tgt.insert n m) := by
  intro k
  rw [NameMap.get?_insert]
  split
  · rename_i hk
    exact .inr (hk ▸ hn.symm)
  · exact .inl rfl

/-- The names that are deleted: those that the source does not list, by binary search. -/
def stale (src tgt : Documents) : List String :=
  tgt.keys.filter fun n => !(searchSorted src.keys n).isOk

theorem mem_stale_iff {n : String} : n ∈ stale src tgt ↔ n ∈ tgt.keys ∧ n ∉ src.keys :=
  mem_filter_searchSorted_iff src.keys_sorted

theorem get?_eq_none_of_notMem_keys {docs : Documents} {n : String} (h : n ∉ docs.keys) :
    docs.get? n = none :=
  Option.eq_none_iff_forall_ne_some.2 fun m hm => h (NameMap.mem_keys_iff.2 ⟨m, hm⟩)

/-- **What the two loops make of the target** is the source: a name that the source does not have
was deleted, unless nothing was there. -/
theorem eq_source_of_loops {cleared copied : Documents}
    (hcleared : ∀ n, cleared.get? n = if n ∈ stale src tgt then none else tgt.get? n)
    (hcopied : ∀ n, copied.get? n = if n ∈ src.keys then src.get? n else cleared.get? n) :
    copied = src := by
  refine NameMap.ext_get? fun n => ?_
  rw [hcopied, hcleared]
  by_cases hn : n ∈ src.keys
  · rw [if_pos hn]
  · rw [if_neg hn, get?_eq_none_of_notMem_keys hn]
    by_cases hstale : n ∈ stale src tgt
    · rw [if_pos hstale]
    · rw [if_neg hstale]
      exact get?_eq_none_of_notMem_keys fun htgt => hstale (mem_stale_iff.2 ⟨htgt, hn⟩)

namespace Paired

variable {source target : Storage σ} {R : σ → Documents → Documents → Prop}
  {fits fits' : String → Yaml.Mapping → Bool} {keeps keeps' : Yaml.Mapping → Prop}
  {fallible : Prop} (h : Paired source target R fits fits' keeps keeps' fallible)

/-! ### One loop after the other -/

/-- **What becomes of the target in a loop**: the source is as it was, and the target is between
what it was and the source. If the loop comes to its end then the target is what it should be, and
where nothing can fail, it comes to its end if it can. -/
structure Leaves (R : σ → Documents → Documents → Prop) (fallible works : Prop)
    (src tgt : Documents) (final : String → Option Yaml.Mapping)
    (done : Except ConfigError Unit × σ) : Prop where
  exists_documents : ∃ tgt', R done.2 src tgt' ∧ Between src tgt tgt' ∧
    (done.1 = .ok () → ∀ n, tgt'.get? n = final n)
  ends : works → ¬fallible → done.1 = .ok ()

include h in
/-- **Deleting what the source does not have**, by induction on the names. -/
theorem leaves_deleteEach (hs : R s src tgt) (hnames : ∀ n ∈ names, src.get? n = none) :
    Leaves R fallible (names.Nodup ∧ ∀ n ∈ names, tgt.contains n = true) src tgt
      (fun n => if n ∈ names then none else tgt.get? n) (deleteEach target.delete names s) := by
  induction names generalizing s tgt with
  | nil => exact ⟨⟨tgt, hs, .refl, fun _ n => by simp⟩, fun _ _ => rfl⟩
  | cons k names ih =>
    obtain ⟨tgt₁, hdoes, hs₁⟩ := (h.backedTarget src).delete k hs
    rw [deleteEach, bind_apply]
    rcases hdelete : target.delete k s with ⟨e | ⟨⟩, s₁⟩ <;> rw [hdelete] at hdoes hs₁
    · -- the loop ends here, and the document is still there
      cases hdoes with
      | refused _ hno =>
        exact ⟨⟨tgt, hs₁, .refl, fun hok => by cases hok⟩, fun hworks hreliable =>
          absurd (hno (hworks.2 k List.mem_cons_self)) hreliable⟩
      | halfway _ _ hc _ _ => cases hc
    · cases hdoes with
      | made _ =>
        obtain ⟨⟨tgt₂, hs₂, hbetween, hfinal⟩, hends⟩ :=
          ih hs₁ fun n hn => hnames n (List.mem_cons_of_mem k hn)
        refine ⟨⟨tgt₂, hs₂, (Between.erase (hnames k List.mem_cons_self)).trans hbetween,
          fun hok n => ?_⟩, fun ⟨hnodup, hthere⟩ => hends ⟨hnodup.of_cons, fun n hn => ?_⟩⟩
        · rw [hfinal hok, Change.made, NameMap.get?_erase]
          by_cases hnk : n = k <;> by_cases hmem : n ∈ names <;> simp [hnk, hmem]
        · rw [Change.made, NameMap.contains, NameMap.get?_erase, if_neg]
          · exact hthere n (List.mem_cons_of_mem k hn)
          · rintro rfl
            exact (List.nodup_cons.1 hnodup).1 hn

include h in
/-- **Copying what the source has**, by induction on the names. -/
theorem leaves_copyEach (hs : R s src tgt) (hkeeps : ∀ n m, src.get? n = some m → keeps' m)
    (hnames : ∀ n ∈ names, ∃ m, src.get? n = some m) :
    Leaves R fallible (∀ n m, src.get? n = some m → fits' n m = true) src tgt
      (fun n => if n ∈ names then src.get? n else tgt.get? n)
      (copyEach source target names s) := by
  induction names generalizing s tgt with
  | nil => exact ⟨⟨tgt, hs, .refl, fun _ n => by simp⟩, fun _ _ => rfl⟩
  | cons k names ih =>
    have hread := (h.backedSource tgt).read k hs
    rw [copyEach, bind_apply]
    generalize source.read k s = read at hread
    cases hread with
    | refused e hmissing hknown hs₁ =>
      refine ⟨⟨tgt, hs₁, .refl, fun hok => by cases hok⟩, fun _ hreliable => ?_⟩
      obtain ⟨m, hm⟩ := hnames k List.mem_cons_self
      have hno := (hknown (.inl (NameMap.contains_iff.2 ⟨m, hm⟩))).resolve_left hreliable
      rw [hmissing hno] at hm
      cases hm
    | @found m s₁ hk hs₁ =>
      obtain ⟨tgt₂, hdoes, hs₂⟩ := (h.backedTarget src).write k m hs₁ (hkeeps k m hk)
      simp only
      rw [bind_apply]
      rcases hwrite : target.write k m s₁ with ⟨e | ⟨⟩, s₂⟩ <;> rw [hwrite] at hdoes hs₂
      · cases hdoes with
        | refused _ hno =>
          exact ⟨⟨tgt, hs₂, .refl, fun hok => by cases hok⟩, fun hfits hreliable =>
            absurd (hno (hfits k m hk)) hreliable⟩
        | halfway _ _ hc _ _ => cases hc
      · cases hdoes with
        | made _ =>
          obtain ⟨⟨tgt₃, hs₃, hbetween, hfinal⟩, hends⟩ :=
            ih hs₂ fun n hn => hnames n (List.mem_cons_of_mem k hn)
          refine ⟨⟨tgt₃, hs₃, (Between.insert hk).trans hbetween, fun hok n => ?_⟩, hends⟩
          rw [hfinal hok, Change.made, NameMap.get?_insert]
          by_cases hnk : n = k <;> by_cases hmem : n ∈ names <;> simp [hnk, hmem, hk]

/-! ### Replicas -/

/-- **What copying everything does**, by its outcome and the state that it leaves. Either everything
has been copied, and then the target has the documents of the source and no others; or something
failed, and then the target is between what it was and the source. The source stays as it is. -/
inductive Copies (R : σ → Documents → Documents → Prop) (src tgt : Documents) :
    Except ConfigError Nat × σ → Prop
  | replicated {s : σ} : R s src src → Copies R src tgt (.ok src.keys.length, s)
  | failed (e : ConfigError) {s : σ} {tgt' : Documents} : R s src tgt' → Between src tgt tgt' →
      Copies R src tgt (.error e, s)

include h in
/-- **A storage becomes a replica** of another one, or stays between what it was and the other one.
Where nothing can fail but what does not fit, it becomes a replica if everything fits. -/
theorem replicates (hs : R s src tgt) (hkeeps : ∀ n m, src.get? n = some m → keeps' m) :
    Copies R src tgt (source.copyAll target s) ∧
      (¬fallible → (∀ n m, src.get? n = some m → fits' n m = true) →
        (source.copyAll target s).1 = .ok src.keys.length) := by
  have hsource := h.listsSource hs
  rw [copyAll, bind_apply]
  generalize source.list "" s = listed at hsource
  cases hsource with
  | refused e hfallible hs₁ =>
    exact ⟨.failed e hs₁ .refl, fun hreliable => absurd hfallible hreliable⟩
  | @listed s₁ hs₁ =>
    have htarget := h.listsTarget hs₁
    simp only
    rw [bind_apply]
    generalize target.list "" s₁ = listed at htarget
    cases htarget with
    | refused e hfallible hs₂ =>
      exact ⟨.failed e hs₂ .refl, fun hreliable => absurd hfallible hreliable⟩
    | @listed s₂ hs₂ =>
      obtain ⟨⟨tgt₃, hs₃, hbetween, hcleared⟩, hends⟩ :=
        h.leaves_deleteEach hs₂ fun n hn => get?_eq_none_of_notMem_keys (mem_stale_iff.1 hn).2
      have hclears : ¬fallible → (deleteEach target.delete (stale src tgt) s₂).1 = .ok () :=
        hends ⟨tgt.nodup_keys.filter _, fun n hn =>
          NameMap.contains_iff.2 (NameMap.mem_keys_iff.1 (mem_stale_iff.1 hn).1)⟩
      show Copies R src tgt ((deleteEach target.delete (stale src tgt) >>= _) s₂) ∧
        (¬fallible → _ → ((deleteEach target.delete (stale src tgt) >>= _) s₂).1 = _)
      rw [bind_apply]
      rcases hdelete : deleteEach target.delete (stale src tgt) s₂ with ⟨e | ⟨⟩, s₃⟩ <;>
        rw [hdelete] at hs₃ hcleared hclears
      · exact ⟨.failed e hs₃ hbetween, fun hreliable => by cases hclears hreliable⟩
      · obtain ⟨⟨tgt₄, hs₄, hbetween', hcopied⟩, hends⟩ :=
          h.leaves_copyEach hs₃ hkeeps fun n => NameMap.mem_keys_iff.1
        simp only
        rw [bind_apply]
        rcases hcopy : copyEach source target src.keys s₃ with ⟨e | ⟨⟩, s₄⟩ <;>
          rw [hcopy] at hs₄ hcopied hends
        · exact ⟨.failed e hs₄ (hbetween.trans hbetween'), fun hreliable hfits => by
            cases hends hfits hreliable⟩
        · obtain rfl := eq_source_of_loops (hcleared rfl) (hcopied rfl)
          exact ⟨.replicated hs₄, fun _ _ => rfl⟩

/-- Two collections: one has a document that the other one lacks, both have one with other data, and
the target has one that is stale. -/
def homes : Documents × Documents :=
  (.ofList [("system.site", [(.string "name", .string "Foo")]),
      ("system.menu", [(.string "depth", .string "2")])],
    .ofList [("system.site", [(.string "name", .string "Old")]),
      ("old.thing", [(.string "x", .string "1")])])

theorem replicates_homes :
    (∀ n m, homes.1.get? n = some m → isProper n = true) ∧
      (memory Cell.first).copyAll (memory Cell.second) homes = (.ok 2, (homes.1, homes.1)) := by
  have hfits : ∀ n m, homes.1.get? n = some m → isProper n = true := by
    intro n m hm
    have hkeys : ∀ n ∈ homes.1.keys, isProper n = true := by decide +kernel
    exact hkeys n (NameMap.mem_keys_iff.2 ⟨m, hm⟩)
  have hpaired := @paired_memory (Documents × Documents) .first .second
    (fun _ _ => rfl) (fun _ _ => rfl) (fun _ _ => rfl) fun _ _ => rfl
  have hhomes : Cell.first.get homes = homes.1 ∧ Cell.second.get homes = homes.2 := ⟨rfl, rfl⟩
  obtain ⟨hcopies, hok⟩ := hpaired.replicates hhomes fun _ _ _ => trivial
  have hok := hok id hfits
  have hcount : homes.1.keys.length = 2 := by decide +kernel
  generalize (memory Cell.first).copyAll (memory Cell.second) homes = copied at hcopies hok
  cases hcopies with
  | failed e _ _ => cases hok
  | @replicated s hs => exact ⟨hfits, Prod.ext (congrArg Except.ok hcount) (Prod.ext hs.1 hs.2)⟩

end Paired

end SiteConfig.Storage
