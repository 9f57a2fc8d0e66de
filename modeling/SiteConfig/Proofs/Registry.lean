import Mathlib
import SiteConfig.Proofs.FileTree
import SiteConfig.Proofs.Installed
import SiteConfig.Proofs.Outcome
import SiteConfig.World

/-!
# What a registry of extensions has in memory and on file

A registry keeps its manifest twice: in memory, where it is changed name by name, and in a file,
which is written after the last name. A call that gets that far leaves both alike: whoever opens
the manifest then is told what the registry lists (`SiteConfig.Lifecycle.Registry.calls_end`). This
needs nothing of the calls before it, because it is always the whole manifest that is written.

On file a manifest is a text. Every manifest has one (`SiteConfig.Manifest.exists_write`); that the
text reads back as the manifest (`SiteConfig.Manifest.ReadsBack`) is relied on, of each manifest that
is saved, as it is of the texts of documents.

A call that fails does not get that far. The names before the one that it fails at have been dealt
with in memory, and there they stay, although the file knows nothing of them
(`SiteConfig.Lifecycle.Registry.not_always_undone`). So memory and file agree after every call as
long as no call fails after it has changed something, and after the next call that succeeds.
-/

namespace SiteConfig

/-! ### What a manifest lists -/

namespace NameMap

variable {α : Type} {m : NameMap α} {k n : String} {v : α}

theorem contains_insert_iff :
    (m.insert n v).contains k = true ↔ m.contains k = true ∨ k = n := by
  rw [contains, contains, get?_insert]
  split <;> simp_all

theorem contains_erase_iff : (m.erase n).contains k = true ↔ m.contains k = true ∧ k ≠ n := by
  rw [contains, contains, get?_erase]
  split <;> simp_all

end NameMap

namespace Manifest

variable {m : Manifest} {e f : Extension}

theorem mem_extensions_iff : e ∈ m.extensions ↔ m.contains e = true := by
  obtain ⟨kind, n⟩ := e
  rw [contains, NameMap.contains_iff, ← NameMap.mem_keys_iff, extensions, List.mem_append,
    List.mem_map, List.mem_map]
  cases kind <;> simp [names, Extension.module, Extension.theme]

theorem mem_extensions_insert : f ∈ (m.insert e).extensions ↔ f ∈ m.extensions ∨ f = e := by
  obtain ⟨kind, n⟩ := e
  obtain ⟨kind', k⟩ := f
  rw [mem_extensions_iff, mem_extensions_iff]
  cases kind <;> cases kind' <;> simp [contains, insert, names, NameMap.contains_insert_iff]

theorem mem_extensions_erase : f ∈ (m.erase e).extensions ↔ f ∈ m.extensions ∧ f ≠ e := by
  obtain ⟨kind, n⟩ := e
  obtain ⟨kind', k⟩ := f
  rw [mem_extensions_iff, mem_extensions_iff]
  cases kind <;> cases kind' <;> simp [contains, erase, names, NameMap.contains_erase_iff]

/-- **What is listed after some insertions** is what was listed and what was inserted. -/
theorem mem_extensions_foldl_insert {l : List Extension} :
    f ∈ (l.foldl insert m).extensions ↔ f ∈ m.extensions ∨ f ∈ l := by
  induction l generalizing m with
  | nil => simp
  | cons e l ih => rw [List.foldl_cons, ih, mem_extensions_insert, or_assoc, List.mem_cons]

/-- **What is listed after some erasures** is what was listed and was not erased. -/
theorem mem_extensions_foldl_erase {l : List Extension} :
    f ∈ (l.foldl erase m).extensions ↔ f ∈ m.extensions ∧ f ∉ l := by
  induction l generalizing m with
  | nil => simp
  | cons e l ih =>
    rw [List.foldl_cons, ih, mem_extensions_erase, and_assoc, List.mem_cons, not_or]

end Manifest

/-! ### The text of a manifest -/

namespace Yaml

/-- Strings as keys never keep entries from being written. -/
theorem unwritableAmong?_eq_none {m : Mapping} (top : Bool)
    (h : ∀ e ∈ m, (∃ k, e.1 = .string k) ∧ unwritable? false false e.2 = none) :
    unwritableAmong? top m = none := by
  induction m with
  | nil => rfl
  | cons e m ih =>
    obtain ⟨⟨k, hk⟩, hv⟩ := h e List.mem_cons_self
    obtain ⟨key, v⟩ := e
    subst hk
    rw [unwritableAmong?, hv, ih fun f hf => h f (List.mem_cons_of_mem _ hf)]
    rfl

/-- A mapping from strings to what can be written can be written. -/
theorem unwritable?_mapping_eq_none {m : Mapping} (top tagged : Bool)
    (h : ∀ e ∈ m, (∃ k, e.1 = .string k) ∧ unwritable? false false e.2 = none) :
    unwritable? top tagged (.mapping m) = none := by
  rcases m with _ | ⟨⟨key, v⟩, _ | ⟨f, m⟩⟩
  · rfl
  · obtain ⟨⟨k, hk⟩, hv⟩ := h _ List.mem_cons_self
    subst hk
    rw [unwritable?, hv]
    cases tagged <;> rfl
  · rw [unwritable?]
    · exact unwritableAmong?_eq_none top h
    · exact nofun

end Yaml

namespace Manifest

/-- **Every manifest has a text.** -/
theorem exists_write (m : Manifest) : ∃ text, Yaml.write m.toMapping = .ok text := by
  have hnames : ∀ names : NameMap Unit, Yaml.unwritable? false false (.mapping (names.keys.map
      fun n => (.string n, .mapping [(.string "installed-at", .string (default : Timestamp).text)])))
        = none := by
    refine fun names => Yaml.unwritable?_mapping_eq_none _ _ (List.forall_mem_map.2 fun n _ => ?_)
    exact ⟨⟨n, rfl⟩, rfl⟩
  have hmapping : Yaml.unwritable? true false (.mapping m.toMapping) = none := by
    refine Yaml.unwritable?_mapping_eq_none _ _ fun e he => ?_
    simp only [toMapping, List.mem_cons, List.not_mem_nil, or_false] at he
    rcases he with rfl | rfl | rfl | rfl
    · exact ⟨⟨_, rfl⟩, rfl⟩
    · exact ⟨⟨_, rfl⟩, rfl⟩
    · exact ⟨⟨_, rfl⟩, hnames m.module⟩
    · exact ⟨⟨_, rfl⟩, hnames m.theme⟩
  rw [Yaml.write, hmapping]
  exact ⟨_, rfl⟩

/-- **A manifest reads back**: its text is the text of this very manifest. -/
def ReadsBack (m : Manifest) : Prop :=
  (Yaml.write m.toMapping).toOption.bind ofText? = some m

instance (m : Manifest) : Decidable m.ReadsBack := inferInstanceAs (Decidable (_ = _))

theorem ReadsBack.ofText? {m : Manifest} (h : m.ReadsBack) {text : String}
    (hwrite : Yaml.write m.toMapping = .ok text) : Manifest.ofText? text = some m := by
  rw [ReadsBack, hwrite] at h
  exact h

end Manifest

/-- Whether a file can be written does not depend on what is written. -/
theorem FileTree.exists_writeFile {t t' : FileTree} {wd : Place} {path : String} {c : FileContent}
    (h : t.writeFile wd path c = .ok t') (c' : FileContent) :
    ∃ t'', t.writeFile wd path c' = .ok t'' := by
  unfold writeFile at h ⊢
  rcases hr : t.resolve wd path with e | p <;> rw [hr] at h
  · cases h
  simp only [bind, Except.bind] at h ⊢
  rcases hn : t.get? p with _ | n | c'' <;> simp only [hn] at h ⊢
  · -- the place is empty, and what it stands in decides
    rcases hin : t.get? p.dropLast with _ | n | c'' <;> simp only [hin] at h ⊢
    · cases h
    · exact ⟨_, rfl⟩
    · cases h
  · cases h
  · exact ⟨_, rfl⟩

namespace Lifecycle

/-! ### Names that are taken one by one -/

section OneByOne

variable {each : List String → Attempt Manifest Failure Unit} {passes : Manifest → String → Bool}
  {edit : Manifest → String → Manifest} {refusal : String → Failure} {m : Manifest}

/-- **Names are taken one by one**: a name that passes is dealt with, one that does not ends it. -/
structure OneByOne (each : List String → Attempt Manifest Failure Unit)
    (passes : Manifest → String → Bool) (edit : Manifest → String → Manifest)
    (refusal : String → Failure) : Prop where
  nil : ∀ m, each [] m = (.ok (), m)
  cons : ∀ n rest m, each (n :: rest) m =
    if passes m n then each rest (edit m n) else (.error (refusal n), m)

/-- Every name passes when it is its turn. -/
def AllPass (passes : Manifest → String → Bool) (edit : Manifest → String → Manifest) :
    Manifest → List String → Prop
  | _, [] => True
  | m, n :: rest => passes m n = true ∧ AllPass passes edit (edit m n) rest

/-- Either all names pass, or those before the first one that does not have been dealt with. -/
theorem OneByOne.cases (h : OneByOne each passes edit refusal) (names : List String)
    (m : Manifest) :
    AllPass passes edit m names ∧ each names m = (.ok (), names.foldl edit m) ∨
      ∃ before bad rest, names = before ++ bad :: rest ∧ AllPass passes edit m before ∧
        passes (before.foldl edit m) bad = false ∧
        each names m = (.error (refusal bad), before.foldl edit m) := by
  induction names generalizing m with
  | nil => exact .inl ⟨trivial, h.nil m⟩
  | cons n names ih =>
    rw [h.cons]
    rcases hn : passes m n with _ | _
    · exact .inr ⟨[], n, names, rfl, trivial, hn, rfl⟩
    · rw [if_pos rfl]
      rcases ih (edit m n) with ⟨hall, heach⟩ | ⟨before, bad, rest, rfl, hall, hbad, heach⟩
      · exact .inl ⟨⟨hn, hall⟩, heach⟩
      · exact .inr ⟨n :: before, bad, rest, rfl, ⟨hn, hall⟩, hbad, heach⟩

end OneByOne

namespace Registry

variable {r : Registry} {kind : ExtensionKind} {names : List String} {m : Manifest}

theorem oneByOne_installEach : OneByOne (r.installEach kind)
    (fun _ n => (r.info? ⟨kind, n⟩).isSome) (fun m n => m.insert ⟨kind, n⟩)
    (fun n => .simple
      s!"The {(Extension.mk kind n).text} is not available in the extension catalog") where
  nil _ := rfl
  cons n rest m := by
    rw [installEach]
    rcases hn : r.info? ⟨kind, n⟩ with _ | i <;> rfl

theorem oneByOne_uninstallEach : OneByOne (uninstallEach kind)
    (fun m n => m.contains ⟨kind, n⟩) (fun m n => m.erase ⟨kind, n⟩)
    (fun n => .simple s!"The {kind.text} {n} is not installed") where
  nil _ := rfl
  cons n rest m := by
    rw [uninstallEach, Attempt.bind_apply]
    change (if !m.contains ⟨kind, n⟩ then _ else _ : Attempt Manifest Failure Unit) m = _
    rcases hn : m.contains ⟨kind, n⟩ with _ | _ <;> rfl

/-- Names can be installed that are available, whatever is installed. -/
theorem allPass_available_iff :
    AllPass (fun _ n => (r.info? ⟨kind, n⟩).isSome) (fun m n => m.insert ⟨kind, n⟩) m names ↔
      ∀ n ∈ names, (r.info? ⟨kind, n⟩).isSome = true := by
  induction names generalizing m with
  | nil => exact iff_of_true trivial nofun
  | cons n names ih => rw [AllPass, ih, List.forall_mem_cons]

/-- Names can be uninstalled that are installed, each of them once. -/
theorem allPass_contains_iff :
    AllPass (fun m n => m.contains ⟨kind, n⟩) (fun m n => m.erase ⟨kind, n⟩) m names ↔
      names.Nodup ∧ ∀ n ∈ names, ⟨kind, n⟩ ∈ m.extensions := by
  induction names generalizing m with
  | nil => exact iff_of_true trivial ⟨List.nodup_nil, nofun⟩
  | cons n names ih =>
    have hne : ∀ k, (⟨kind, k⟩ : Extension) ≠ ⟨kind, n⟩ ↔ k ≠ n := by simp
    simp only [AllPass, ih, Manifest.mem_extensions_erase, hne, ← Manifest.mem_extensions_iff,
      List.nodup_cons, List.forall_mem_cons]
    constructor
    · rintro ⟨hn, hnodup, hrest⟩
      exact ⟨⟨fun hmem => (hrest n hmem).2 rfl, hnodup⟩, hn, fun k hk => (hrest k hk).1⟩
    · rintro ⟨⟨hmem, hnodup⟩, hn, hrest⟩
      exact ⟨hn, hnodup, fun k hk => ⟨hrest k hk, fun heq => hmem (heq ▸ hk)⟩⟩

/-! ### Manifests on file -/

variable {t t' : FileTree}

/-- A manifest can be saved. -/
def Writable (r : Registry) (t : FileTree) : Prop := (r.save .empty t).1.isOk = true

instance : Decidable (r.Writable t) := inferInstanceAs (Decidable (_ = true))

/-- The directory of the file is made. -/
def makeParent (r : Registry) (t : FileTree) : Except OsError FileTree :=
  match Path.parent? r.path with
  | some dir => t.makeDirectories r.workingDir dir
  | none => .ok t

/-- **A manifest is on file**, and nothing is missing on the way to it. -/
structure OnFile (r : Registry) (m : Manifest) (t : FileTree) : Prop where
  wellFormed : t.WellFormed
  made : r.makeParent t = .ok t
  content : ∃ text, Yaml.write m.toMapping = .ok text ∧
    t.content r.workingDir r.path = .ok (.text text)

/-- **Saving** makes the directory of the file and then writes the file. -/
theorem save_eq_ok_iff {text : String} (htext : Yaml.write m.toMapping = .ok text) :
    r.save m t = (.ok (), t') ↔
      ∃ t₁, r.makeParent t = .ok t₁ ∧ t₁.writeFile r.workingDir r.path (.text text) = .ok t' := by
  unfold save makeParent
  rw [htext]
  rcases Path.parent? r.path with _ | dir
  · refine Attempt.bind_eq_ok_iff.trans ?_
    rcases hw : t.writeFile r.workingDir r.path (.text text) with e | t₂ <;>
      simp [Attempt.ofExcept, Except.mapError, hw]
  · refine Attempt.bind_eq_ok_iff.trans ?_
    change _ ↔ ∃ t₁, t.makeDirectories r.workingDir dir = .ok t₁ ∧ _
    rcases t.makeDirectories r.workingDir dir with e | t₁
    · simp
    · simp only [Prod.mk.injEq, Except.ok.injEq, exists_eq_left', true_and, exists_const]
      refine Attempt.bind_eq_ok_iff.trans ?_
      rcases hw : t₁.writeFile r.workingDir r.path (.text text) with e | t₂ <;>
        simp [Attempt.ofExcept, Except.mapError, hw]

/-- **Where one manifest can be saved, every one can.** -/
theorem Writable.exists_save (h : r.Writable t) (m : Manifest) :
    ∃ t', r.save m t = (.ok (), t') := by
  unfold Writable at h
  rcases hsave : r.save .empty t with ⟨e | ⟨⟩, t'⟩
  · rw [hsave] at h
    cases h
  obtain ⟨text, htext⟩ := Manifest.exists_write .empty
  obtain ⟨t₁, hmake, hwrite⟩ := (save_eq_ok_iff htext).1 hsave
  obtain ⟨text', htext'⟩ := Manifest.exists_write m
  obtain ⟨t'', hwrite'⟩ := FileTree.exists_writeFile hwrite (.text text')
  exact ⟨t'', (save_eq_ok_iff htext').2 ⟨t₁, hmake, hwrite'⟩⟩

/-- The directory that has been made is there. -/
theorem grows_makeParent (ht : t.WellFormed) (h : r.makeParent t = .ok t') :
    t.Grows t' ∧ ∀ t'', t'.Keeps t'' → r.makeParent t'' = .ok t'' := by
  unfold makeParent at h ⊢
  rcases hdir : Path.parent? r.path with _ | dir <;> simp only [hdir] at h ⊢
  · cases h
    exact ⟨.refl ht, fun _ _ => trivial⟩
  by_cases hempty : dir = ""
  · subst hempty
    cases h
    exact ⟨.refl ht, fun _ _ => rfl⟩
  · obtain ⟨hgrow, p, hleads⟩ := FileTree.grows_makeDirectories ht hempty h
    exact ⟨hgrow, fun t'' hkeep =>
      FileTree.makeDirectories_of_leads hempty (hleads.of_keeps hkeep)⟩

/-- **What has been saved is on file.** -/
theorem onFile_of_save (ht : t.WellFormed) (h : r.save m t = (.ok (), t')) : r.OnFile m t' := by
  obtain ⟨text, htext⟩ := m.exists_write
  obtain ⟨t₁, hmake, hwrite⟩ := (save_eq_ok_iff htext).1 h
  obtain ⟨hgrow, hmade⟩ := grows_makeParent ht hmake
  obtain ⟨p, hp, hdir, rfl, hwell⟩ := FileTree.exists_of_writeFile hgrow.wellFormed hwrite
  have hkeep := FileTree.keeps_put hdir (.file (.text text))
  refine ⟨hwell, hmade _ hkeep, text, htext, ?_⟩
  refine FileTree.content_eq_ok_iff.2 ⟨p, FileTree.resolve_of_keeps hkeep hp, ?_⟩
  rw [FileTree.get?_put _ (FileTree.ne_nil_of_get?_ne hdir), if_pos rfl]

/-- What is on file is loaded, if it reads back. -/
theorem OnFile.load (h : r.OnFile m t) (hback : m.ReadsBack) : r.load t = .ok m := by
  obtain ⟨text, htext, hcontent⟩ := h.content
  have hexists : t.exists? r.workingDir r.path = true := by
    obtain ⟨p, hp, hfile⟩ := FileTree.content_eq_ok_iff.1 hcontent
    rw [FileTree.exists?, FileTree.node?_eq_ok_iff.2 ⟨p, hp, hfile⟩]
    rfl
  have hread : t.readText r.workingDir r.path = .ok text := by
    rw [FileTree.readText, hcontent]
    rfl
  rw [Registry.load, hexists, hread]
  simp only [Bool.not_true, Bool.false_eq_true, if_false, hback.ofText? htext]

/-- A manifest that is on file can be replaced. -/
theorem OnFile.writable (h : r.OnFile m t) : r.Writable t := by
  obtain ⟨text, -, hcontent⟩ := h.content
  obtain ⟨p, hp, hfile⟩ := FileTree.content_eq_ok_iff.1 hcontent
  obtain ⟨text', htext'⟩ := Manifest.exists_write .empty
  have hwrite : t.writeFile r.workingDir r.path (.text text')
      = .ok (t.put p (.file (.text text'))) := by
    unfold FileTree.writeFile
    rw [hp]
    simp only [bind, Except.bind, hfile]
  rw [Writable, (save_eq_ok_iff htext').2 ⟨t, h.made, hwrite⟩]
  rfl

/-! ### Calls -/

variable {σ : Type} {memory : Cell σ Manifest} {files : Cell σ FileTree} {s s' : σ}

/-- What is in memory and the files are two parts of the state. -/
structure Apart (memory : Cell σ Manifest) (files : Cell σ FileTree) : Prop where
  get_memory : ∀ m s, memory.get (memory.set m s) = m
  get_files : ∀ t s, files.get (files.set t s) = t
  files_memory : ∀ m s, files.get (memory.set m s) = files.get s
  memory_files : ∀ t s, memory.get (files.set t s) = memory.get s

/-- A call that changes what is installed. -/
inductive Call where
  | seed (c : CoreExtension)
  | install (kind : ExtensionKind) (names : List String)
  | uninstall (kind : ExtensionKind) (names : List String)

/-- Makes a call, and says whether the manifest has been saved. -/
def Call.run (r : Registry) (memory : Cell σ Manifest) (files : Cell σ FileTree) :
    Call → Attempt σ Failure Bool
  | .seed c => r.seedIfMissing memory files c
  | .install kind names => do
    (recorded r memory files).install kind names
    return true
  | .uninstall kind names => do
    (recorded r memory files).uninstall kind names
    return true

/-- The state after some calls, whatever came of each of them. -/
def after (r : Registry) (memory : Cell σ Manifest) (files : Cell σ FileTree)
    (calls : List Call) (s : σ) : σ :=
  calls.foldl (fun s call => (call.run r memory files s).2) s

/-- What is listed by a registry that opens the manifest now. -/
def reopened (r : Registry) (t : FileTree) : Except Failure (List Extension) :=
  (r.load t).map Manifest.extensions

/-- What is listed afterwards is what was listed before and some more. -/
def Adds (new l l' : List Extension) : Prop := ∀ e, e ∈ l' ↔ e ∈ l ∨ e ∈ new

/-- What is listed afterwards is what was listed before, less some. -/
def Removes (gone l l' : List Extension) : Prop := ∀ e, e ∈ l' ↔ e ∈ l ∧ e ∉ gone

/-- **The ways a call can end**: what was listed before it, what it says and what is listed after
it. A call that fails has dealt with the names before the one that it fails at. -/
inductive Ends (r : Registry) :
    Call → List Extension → Except Failure Bool → List Extension → Prop where
  | seeded {c l l'} (h : Adds c.extensions l l') : Ends r (.seed c) l (.ok true) l'
  | present {c l} : Ends r (.seed c) l (.ok false) l
  | installed {kind names l l'} (known : ∀ n ∈ names, (r.info? ⟨kind, n⟩).isSome = true)
      (h : Adds (names.map (.mk kind)) l l') : Ends r (.install kind names) l (.ok true) l'
  | refused {kind before bad rest l l'}
      (known : ∀ n ∈ before, (r.info? ⟨kind, n⟩).isSome = true)
      (unknown : r.info? ⟨kind, bad⟩ = none) (h : Adds (before.map (.mk kind)) l l')
      (kept : l' = l ↔ ∀ n ∈ before, ⟨kind, n⟩ ∈ l) :
      Ends r (.install kind (before ++ bad :: rest)) l (.error (.simple
        s!"The {(Extension.mk kind bad).text} is not available in the extension catalog")) l'
  | uninstalled {kind names l l'} (once : names.Nodup) (there : ∀ n ∈ names, ⟨kind, n⟩ ∈ l)
      (h : Removes (names.map (.mk kind)) l l') : Ends r (.uninstall kind names) l (.ok true) l'
  | lacking {kind before bad rest l l'} (once : before.Nodup)
      (there : ∀ n ∈ before, ⟨kind, n⟩ ∈ l) (missing : ⟨kind, bad⟩ ∉ l ∨ bad ∈ before)
      (h : Removes (before.map (.mk kind)) l l') (kept : l' = l ↔ before = []) :
      Ends r (.uninstall kind (before ++ bad :: rest)) l
        (.error (.simple s!"The {kind.text} {bad} is not installed")) l'

/-- What is listed is what is on file. -/
def Agrees (r : Registry) (memory : Cell σ Manifest) (files : Cell σ FileTree) (s : σ) : Prop :=
  r.reopened (files.get s) = ((recorded r memory files).installed s).1

/-- **What becomes of a call** that is made in a state and leads to another one. -/
structure Outcome (r : Registry) (memory : Cell σ Manifest) (files : Cell σ FileTree) (call : Call)
    (s : σ) (res : Except Failure Bool) (s' : σ) : Prop where
  ends : ∃ l l', (recorded r memory files).installed s = (.ok l, s) ∧
    (recorded r memory files).installed s' = (.ok l', s') ∧ r.Ends call l res l'
  saved : res = .ok true → r.Agrees memory files s'
  unsaved : res ≠ .ok true → files.get s' = files.get s

/-- The manifest can be opened and saved. -/
structure Sound (r : Registry) (t : FileTree) : Prop where
  wellFormed : t.WellFormed
  writable : r.Writable t
  opens : ∃ m, r.load t = .ok m

theorem OnFile.sound (h : r.OnFile m t) (hback : m.ReadsBack) : r.Sound t :=
  ⟨h.wellFormed, h.writable, m, h.load hback⟩

theorem Adds.eq_iff {new l l' : List Extension} (h : Adds new l l') (hl : Extension.Sorted l)
    (hl' : Extension.Sorted l') : l' = l ↔ ∀ e ∈ new, e ∈ l := by
  constructor
  · rintro rfl e he
    exact (h e).2 (.inr he)
  · intro hnew
    exact Extension.eq_of_mem_iff hl' hl fun e => (h e).trans (or_iff_left_of_imp (hnew e))

theorem Removes.eq_iff {gone l l' : List Extension} (h : Removes gone l l')
    (hl : Extension.Sorted l) (hl' : Extension.Sorted l') : l' = l ↔ ∀ e ∈ gone, e ∉ l := by
  constructor
  · rintro rfl e he hmem
    exact ((h e).1 hmem).2 he
  · intro hgone
    refine Extension.eq_of_mem_iff hl' hl fun e => (h e).trans (and_iff_left_of_imp ?_)
    exact fun hmem he => hgone e he hmem

theorem adds_foldl_insert (l : List Extension) (m : Manifest) :
    Adds l m.extensions (l.foldl Manifest.insert m).extensions :=
  fun _ => Manifest.mem_extensions_foldl_insert

theorem removes_foldl_erase (l : List Extension) (m : Manifest) :
    Removes l m.extensions (l.foldl Manifest.erase m).extensions :=
  fun _ => Manifest.mem_extensions_foldl_erase

/-- How an installation ends. -/
theorem exists_installEach (r : Registry) (kind : ExtensionKind) (names : List String)
    (m : Manifest) : ∃ res m', r.installEach kind names m = (res, m') ∧
      r.Ends (.install kind names) m.extensions (res.map fun _ => true) m'.extensions := by
  rcases oneByOne_installEach.cases names m with
    ⟨hall, hrun⟩ | ⟨before, bad, rest, rfl, hall, hbad, hrun⟩
  · refine ⟨_, _, hrun, .installed (allPass_available_iff.1 hall) ?_⟩
    rw [← List.foldl_map]
    exact adds_foldl_insert _ m
  · have hadds : Adds (before.map (.mk kind)) m.extensions
        (before.foldl (fun m n => m.insert ⟨kind, n⟩) m).extensions := by
      rw [← List.foldl_map]
      exact adds_foldl_insert _ m
    refine ⟨_, _, hrun, .refused (allPass_available_iff.1 hall) ?_ hadds ?_⟩
    · simpa using hbad
    · rw [hadds.eq_iff m.extensions_sorted (Manifest.extensions_sorted _), List.forall_mem_map]

/-- How an uninstallation ends. -/
theorem exists_uninstallEach (r : Registry) (kind : ExtensionKind) (names : List String)
    (m : Manifest) : ∃ res m', uninstallEach kind names m = (res, m') ∧
      r.Ends (.uninstall kind names) m.extensions (res.map fun _ => true) m'.extensions := by
  have hfold : ∀ names : List String,
      names.foldl (fun m n => m.erase ⟨kind, n⟩) m
        = (names.map (.mk kind)).foldl Manifest.erase m := fun names => List.foldl_map.symm
  rcases oneByOne_uninstallEach.cases names m with
    ⟨hall, hrun⟩ | ⟨before, bad, rest, rfl, hall, hbad, hrun⟩
  · obtain ⟨honce, hthere⟩ := allPass_contains_iff.1 hall
    refine ⟨_, _, hrun, .uninstalled honce hthere ?_⟩
    rw [hfold]
    exact removes_foldl_erase _ m
  · obtain ⟨honce, hthere⟩ := allPass_contains_iff.1 hall
    have hremoves : Removes (before.map (.mk kind)) m.extensions
        (before.foldl (fun m n => m.erase ⟨kind, n⟩) m).extensions := by
      rw [hfold]
      exact removes_foldl_erase _ m
    have hmissing : ⟨kind, bad⟩ ∉ m.extensions ∨ bad ∈ before := by
      by_contra hno
      rw [not_or, not_not] at hno
      have hlisted := (hremoves ⟨kind, bad⟩).2 ⟨hno.1, by simpa using hno.2⟩
      rw [Manifest.mem_extensions_iff, hbad] at hlisted
      cases hlisted
    refine ⟨_, _, hrun, .lacking honce hthere hmissing hremoves ?_⟩
    rw [hremoves.eq_iff m.extensions_sorted (Manifest.extensions_sorted _), List.forall_mem_map]
    refine ⟨fun hgone => List.eq_nil_iff_forall_not_mem.2 fun n hn => hgone n hn (hthere n hn), ?_⟩
    rintro rfl
    exact nofun

/-! ### One call and many -/

/-- If a call saves a manifest, then this reads back. -/
def Legible (r : Registry) (memory : Cell σ Manifest) (files : Cell σ FileTree) (call : Call)
    (s : σ) : Prop :=
  (call.run r memory files s).1 = .ok true → (memory.get (call.run r memory files s).2).ReadsBack

/-- **Every manifest that some calls save reads back.** -/
def AllLegible (r : Registry) (memory : Cell σ Manifest) (files : Cell σ FileTree) :
    List Call → σ → Prop
  | [], _ => True
  | call :: calls, s => r.Legible memory files call s ∧
      AllLegible r memory files calls (call.run r memory files s).2

theorem allLegible_append {past calls : List Call} :
    r.AllLegible memory files (past ++ calls) s ↔ r.AllLegible memory files past s ∧
      r.AllLegible memory files calls (r.after memory files past s) := by
  induction past generalizing s with
  | nil => exact (and_iff_right trivial).symm
  | cons call past ih =>
    rw [List.cons_append, AllLegible, AllLegible, ih, and_assoc]
    rfl

section Run

variable (h : Apart memory files)

include h

/-- **Changing a manifest**: it is saved if the changes succeed, and else it stays as it is in
memory, half changed. -/
theorem changing_cases (hs : r.Sound (files.get s)) {x : Attempt Manifest Failure Unit}
    {res : Except Failure Unit} (hx : x (memory.get s) = (res, m)) :
    ∃ s', r.changing memory files x s = (res, s') ∧ memory.get s' = m ∧
      (res = .ok () → r.OnFile m (files.get s')) ∧ (res ≠ .ok () → files.get s' = files.get s) := by
  have hzoom : memory.zoom x s = (res, memory.set m s) := by
    unfold Cell.zoom
    rw [hx]
  rw [changing, Attempt.bind_apply, hzoom]
  rcases res with e | ⟨⟩
  · exact ⟨_, rfl, h.get_memory _ _, nofun, fun _ => h.files_memory _ _⟩
  · obtain ⟨t', hsave⟩ := hs.writable.exists_save m
    refine ⟨files.set t' (memory.set m s), ?_, ?_, fun _ => ?_, fun hne => absurd rfl hne⟩
    · change (files.zoom (r.save (memory.get (memory.set m s))) (memory.set m s)) = _
      unfold Cell.zoom
      rw [h.get_memory, h.files_memory, hsave]
    · rw [h.memory_files, h.get_memory]
    · rw [h.get_files]
      exact onFile_of_save hs.wellFormed hsave

/-- A call that changes the manifest and then saves it. -/
theorem outcome_of_changing (hs : r.Sound (files.get s)) {call : Call}
    {x : Attempt Manifest Failure Unit} {res : Except Failure Unit}
    (hx : x (memory.get s) = (res, m))
    (hends : r.Ends call (memory.get s).extensions (res.map fun _ => true) m.extensions) :
    ∃ res' s', (r.changing memory files x >>= fun _ => pure true) s = (res', s') ∧
      ((res' = .ok true → (memory.get s').ReadsBack) →
        r.Outcome memory files call s res' s' ∧ r.Sound (files.get s')) := by
  obtain ⟨s', hchange, hmem, hsaved, hunsaved⟩ := changing_cases h hs hx
  have hlist : (recorded r memory files).installed s' = (.ok m.extensions, s') := by
    rw [← hmem]
    rfl
  rw [Attempt.bind_apply, hchange]
  rcases res with e | ⟨⟩
  · refine ⟨.error e, s', rfl, fun _ =>
      ⟨⟨⟨_, _, rfl, hlist, hends⟩, nofun, fun _ => hunsaved nofun⟩, ?_⟩⟩
    rw [hunsaved nofun]
    exact hs
  · have hfile := hsaved rfl
    refine ⟨.ok true, s', rfl, fun hback => ?_⟩
    have hback : m.ReadsBack := hmem ▸ hback rfl
    refine ⟨⟨⟨_, _, rfl, hlist, hends⟩, fun _ => ?_, ?_⟩, hfile.sound hback⟩
    · unfold Agrees
      rw [reopened, hfile.load hback, hlist]
      rfl
    · exact fun hne => absurd rfl hne

/-- **One call**: it ends in one of the ways in which it can end, and leaves a manifest that can be
opened and saved. -/
theorem exists_outcome (hs : r.Sound (files.get s)) (call : Call) :
    ∃ res s', call.run r memory files s = (res, s') ∧
      ((res = .ok true → (memory.get s').ReadsBack) →
        r.Outcome memory files call s res s' ∧ r.Sound (files.get s')) := by
  cases call with
  | seed c =>
    change ∃ res s', (if (files.get s).exists? r.workingDir r.path then pure false else
      r.changing memory files (Attempt.change fun m => c.extensions.foldl Manifest.insert m) >>=
        fun _ => pure true : Attempt σ Failure Bool) s = (res, s') ∧ _
    split
    · exact ⟨_, s, rfl, fun _ => ⟨⟨⟨_, _, rfl, rfl, .present⟩, nofun, fun _ => rfl⟩, hs⟩⟩
    · have hx : (Attempt.change fun m => c.extensions.foldl Manifest.insert m :
          Attempt Manifest Failure Unit) (memory.get s)
            = (.ok (), c.extensions.foldl Manifest.insert (memory.get s)) := rfl
      exact outcome_of_changing h hs hx (.seeded (adds_foldl_insert _ _))
  | install kind names =>
    obtain ⟨res, m', hx, hends⟩ := exists_installEach r kind names (memory.get s)
    exact outcome_of_changing h hs hx hends
  | uninstall kind names =>
    obtain ⟨res, m', hx, hends⟩ := exists_uninstallEach r kind names (memory.get s)
    exact outcome_of_changing h hs hx hends

theorem outcome_run (hs : r.Sound (files.get s)) {call : Call}
    (hback : r.Legible memory files call s) :
    r.Outcome memory files call s (call.run r memory files s).1 (call.run r memory files s).2 ∧
      r.Sound (files.get (call.run r memory files s).2) := by
  obtain ⟨res, s', hrun, hdone⟩ := exists_outcome h hs call
  rw [Legible, hrun] at hback
  rw [hrun]
  exact hdone hback

/-- **After any calls** the manifest can be opened and saved. -/
theorem sound_after (hs : r.Sound (files.get s)) {calls : List Call}
    (hback : r.AllLegible memory files calls s) :
    r.Sound (files.get (r.after memory files calls s)) := by
  induction calls generalizing s with
  | nil => exact hs
  | cons call calls ih => exact ih (outcome_run h hs hback.1).2 hback.2

end Run

/-- No call fails after it has changed what is listed. -/
def Steady (r : Registry) (memory : Cell σ Manifest) (files : Cell σ FileTree) :
    List Call → σ → Prop
  | [], _ => True
  | call :: calls, s =>
    ((call.run r memory files s).1.isOk = true ∨
      ((recorded r memory files).installed (call.run r memory files s).2).1
        = ((recorded r memory files).installed s).1) ∧
    Steady r memory files calls (call.run r memory files s).2

/-- Memory and file go on agreeing, unless a call fails after it has changed something. -/
theorem Outcome.agrees {call : Call} {res : Except Failure Bool}
    (h : r.Outcome memory files call s res s') (hs : r.Agrees memory files s)
    (hsteady : res.isOk = true ∨ ((recorded r memory files).installed s').1
      = ((recorded r memory files).installed s).1) :
    r.Agrees memory files s' := by
  by_cases hsaved : res = .ok true
  · exact h.saved hsaved
  unfold Agrees
  rw [h.unsaved hsaved, hs]
  rcases hsteady with hok | hsame
  · -- only seeding succeeds without saving, and then it leaves everything as it is
    obtain ⟨l, l', hl, hl', hends⟩ := h.ends
    rw [hl, hl']
    cases hends with
    | present => rfl
    | refused => cases hok
    | lacking => cases hok
    | seeded => exact absurd rfl hsaved
    | installed => exact absurd rfl hsaved
    | uninstalled => exact absurd rfl hsaved
  · exact hsame.symm

theorem agrees_after (h : Apart memory files) (hs : r.Sound (files.get s))
    (hagrees : r.Agrees memory files s) {calls : List Call}
    (hback : r.AllLegible memory files calls s) (hsteady : r.Steady memory files calls s) :
    r.Agrees memory files (r.after memory files calls s) := by
  induction calls generalizing s with
  | nil => exact hagrees
  | cons call calls ih =>
    obtain ⟨houtcome, hsound⟩ := outcome_run h hs hback.1
    exact ih hsound (houtcome.agrees hagrees hsteady.1) hback.2 hsteady.2

/-- **A registry after any calls.** Each call ends in one of the ways in which it can end, and one
that succeeds in changing something leaves on file what is listed, whatever has happened before. The
manifest can always be opened. What it lists then is what the registry lists, after each call, as
long as no call fails after it has changed something. The texts of the manifests that have been saved
have to read back. -/
theorem calls_end (h : Apart memory files) (hwell : (files.get s).WellFormed)
    (hwrite : r.Writable (files.get s)) (hopen : r.load (files.get s) = .ok (memory.get s))
    (past : List Call) (call : Call) (hback : r.AllLegible memory files (past ++ [call]) s) :
    r.Outcome memory files call (r.after memory files past s)
        (call.run r memory files (r.after memory files past s)).1
        (call.run r memory files (r.after memory files past s)).2 ∧
      (∃ l, r.reopened (files.get (r.after memory files (past ++ [call]) s)) = .ok l) ∧
      (r.Steady memory files (past ++ [call]) s →
        r.Agrees memory files (r.after memory files (past ++ [call]) s)) := by
  have hs : r.Sound (files.get s) := ⟨hwell, hwrite, _, hopen⟩
  obtain ⟨hpast, hlast, -⟩ := allLegible_append.1 hback
  refine ⟨(outcome_run h (sound_after h hs hpast) hlast).1, ?_, agrees_after h hs ?_ hback⟩
  · obtain ⟨m, hm⟩ := (sound_after h hs hback).opens
    exact ⟨m.extensions, by rw [reopened, hm]; rfl⟩
  · unfold Agrees
    rw [reopened, hopen]
    rfl

/-! ### A call that fails halfway -/

/-- The manifest of a site that may have one module and one theme. -/
def kiosk : Registry where
  path := "/state/extensions.yaml"
  workingDir := []
  catalog := some ⟨.ofList [("node", ⟨none, [], none, false⟩)],
    .ofList [("olivero", ⟨none, [], none, false⟩)]⟩

/-- Nothing is there yet. -/
def vacant : World := .ofFiles .empty default 0

theorem apart_world : Apart World.manifestCell World.fileCell :=
  ⟨fun _ _ => rfl, fun _ _ => rfl, fun _ _ => rfl, fun _ _ => rfl⟩

/-- A module has been installed along with one that is not available. -/
def strewn : World :=
  kiosk.after World.manifestCell World.fileCell [.install .module ["node", "views"]] vacant

/-- What a theme that is installed next leaves on file has the module that was left behind. -/
theorem calls_end_strewn :
    (vacant.files.WellFormed ∧ kiosk.Writable vacant.files ∧
      kiosk.load vacant.files = .ok vacant.manifest ∧
      kiosk.AllLegible World.manifestCell World.fileCell
        [.install .module ["node", "views"], .install .theme ["olivero"]] vacant) ∧
    (kiosk.Outcome World.manifestCell World.fileCell (.install .theme ["olivero"]) strewn
      ((Call.install .theme ["olivero"]).run kiosk World.manifestCell World.fileCell strewn).1
      ((Call.install .theme ["olivero"]).run kiosk World.manifestCell World.fileCell strewn).2) ∧
    (kiosk.reopened ((Call.install .theme ["olivero"]).run kiosk World.manifestCell World.fileCell
      strewn).2.files).toOption = some [.module "node", .theme "olivero"] := by
  have hwell : vacant.files.WellFormed := FileTree.wellFormed_empty
  have hwrite : kiosk.Writable vacant.files := by decide +kernel
  have hopen : kiosk.load vacant.files = .ok vacant.manifest := rfl
  have hsaved : (World.manifestCell.get ((Call.install .theme ["olivero"]).run kiosk
      World.manifestCell World.fileCell strewn).2).ReadsBack := by decide +kernel
  have hback : kiosk.AllLegible World.manifestCell World.fileCell
      [.install .module ["node", "views"], .install .theme ["olivero"]] vacant :=
    ⟨nofun, fun _ => hsaved, trivial⟩
  have hend := calls_end (s := vacant) apart_world hwell hwrite hopen
    [.install .module ["node", "views"]] (.install .theme ["olivero"]) hback
  exact ⟨⟨hwell, hwrite, hopen, hback⟩, hend.1, by decide +kernel⟩

/-- **A call that fails is not undone.** After a module has been installed along with one that is
not available, it is listed, although it is not on file. -/
theorem not_always_undone : ¬∀ (r : Registry) (w : World) (call : Call),
    w.files.WellFormed → r.Writable w.files → r.load w.files = .ok w.manifest →
    r.Agrees World.manifestCell World.fileCell
        (call.run r World.manifestCell World.fileCell w).2 ∧
      ((call.run r World.manifestCell World.fileCell w).1.isOk = false →
        (call.run r World.manifestCell World.fileCell w).2.manifest.extensions
          = w.manifest.extensions) := by
  intro h
  have hwrite : kiosk.Writable vacant.files := by decide +kernel
  have hundone := (h kiosk vacant (.install .module ["node", "views"])
    FileTree.wellFormed_empty hwrite rfl).2
  revert hundone
  decide +kernel

end Registry

end Lifecycle

end SiteConfig
