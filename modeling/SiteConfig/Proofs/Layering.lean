import Mathlib
import SiteConfig.Proofs.Reading
import SiteConfig.Settings.Load

/-!
# Layers, path by path

A value is looked into along a **path** of keys. A leaf is what ends a path for good: anything but
a null, which says nothing, and a mapping, which goes on. Where a value **yields**, it is silent at
the end of a path and has nothing but mappings on the way (`SiteConfig.Yaml.Value.Yields`).

Laying a value over another one is known by its leaves: at each path they are those of the upper
value and, where that one yields, those of the lower one
(`SiteConfig.Yaml.Value.Proper.hasLeaf_overlay_iff`). So of many layers it is always the highest
that does not yield which decides (`SiteConfig.Yaml.Value.Supplied`). Mappings keep the order of
their keys and gain new ones at the end, and a layer that was laid once has nothing to add
(`SiteConfig.Yaml.Value.Lays`).

All this needs keys that are not repeated. Values that were read are proper in this sense, and so is
what is laid over one another. The settings of a project are loaded from three layers
(`SiteConfig.Settings.load_eq`), to which all this applies (`SiteConfig.Settings.merged_layers`).
-/

namespace SiteConfig

namespace Yaml

open Value (Proper proper_mapping_iff same_self same_trans)

/-! ### Keys -/

namespace Value

variable {k k' l : Value}

/-- Keys that are the same are the same as the same keys. -/
theorem Proper.same_congr (hk : k.Proper) (hk' : k'.Proper) (h : k.same k' = true) (l : Value) :
    l.same k = l.same k' := by
  rw [Bool.eq_iff_iff]
  exact ⟨fun hl => same_trans hl h, fun hl => same_trans hl (hk.same_symm hk' h)⟩

end Value

namespace Mapping

variable {m lower upper : Mapping} {e f : Value × Value} {k v : Value}

/-- What a key is bound to. -/
def valueAt? (m : Mapping) (key : Value) : Option Value := (m.findKey? key).map (·.2)

theorem valueAt?_cons (e : Value × Value) (m : Mapping) (k : Value) :
    valueAt? (e :: m) k = if e.1.same k then some e.2 else m.valueAt? k := by
  rw [valueAt?, findKey?, List.find?_cons]
  cases e.1.same k <;> rfl

theorem valueAt?_eq_none_iff : m.valueAt? k = none ↔ m.any (·.1.same k) = false := by
  rw [valueAt?, findKey?, Option.map_eq_none_iff, List.find?_eq_none, List.any_eq_false]

theorem exists_mem_of_valueAt? (h : m.valueAt? k = some v) : ∃ e ∈ m, e.1.same k = true ∧ e.2 = v := by
  obtain ⟨e, he, rfl⟩ := Option.map_eq_some_iff.1 h
  rw [findKey?] at he
  exact ⟨e, List.mem_of_find?_eq_some he, by simpa using List.find?_some he, rfl⟩

theorem proper_of_valueAt? (hm : (Value.mapping m).Proper) (h : m.valueAt? k = some v) : v.Proper := by
  obtain ⟨e, he, -, rfl⟩ := exists_mem_of_valueAt? h
  exact ((proper_mapping_iff.1 hm).2 e he).2

/-- In a proper mapping every entry is found. -/
theorem valueAt?_of_mem (hm : (Value.mapping m).Proper) (he : e ∈ m) (hk : k.Proper)
    (h : e.1.same k = true) : m.valueAt? k = some e.2 := by
  obtain ⟨hdistinct, hparts⟩ := proper_mapping_iff.1 hm
  induction m with
  | nil => cases he
  | cons f m ih =>
    obtain ⟨hhead, htail⟩ := List.pairwise_cons.1 hdistinct
    rw [valueAt?_cons]
    rcases List.mem_cons.1 he with rfl | he
    · rw [if_pos h]
    · have hne : f.1.same k = false := by
        rw [← (hparts e (List.mem_cons_of_mem _ he)).1.same_congr hk h]
        exact hhead e he
      rw [hne, if_neg Bool.false_ne_true]
      have hparts' := fun g hg => hparts g (List.mem_cons_of_mem _ hg)
      exact ih (proper_mapping_iff.2 ⟨htail, hparts'⟩) he htail hparts'

/-! ### One entry over a mapping -/

/-- Lays one entry over a mapping. -/
def lay (lower : Mapping) (e : Value × Value) : Mapping :=
  if lower.any (·.1.same e.1) then
    lower.map fun f => if f.1.same e.1 then (f.1, Value.overlay f.2 e.2) else f
  else lower ++ [e]

/-- Entries are laid one after the other. -/
theorem overlayEntries_eq_foldl (lower upper : Mapping) :
    Value.overlayEntries lower upper = upper.foldl lay lower := by
  induction upper generalizing lower with
  | nil => rw [Value.overlayEntries, List.foldl_nil]
  | cons e upper ih =>
    obtain ⟨k, v⟩ := e
    rw [Value.overlayEntries, List.foldl_cons, ← ih]
    rfl

/-- A key that is there is not added again. -/
theorem map_fst_lay (lower : Mapping) (e : Value × Value) : (lay lower e).map (·.1) =
    lower.map (·.1) ++ if lower.any (·.1.same e.1) then [] else [e.1] := by
  rw [lay]
  split
  · rw [List.map_map, List.append_nil]
    refine List.map_congr_left fun f _ => ?_
    rw [Function.comp_apply]
    split <;> rfl
  · rw [List.map_append, List.map_singleton]

/-- The keys of a mapping over which an entry was laid are proper again. -/
theorem properKeys_lay (hlower : ∀ f ∈ lower, f.1.Proper) (he : e.1.Proper) :
    ∀ f ∈ lay lower e, f.1.Proper := by
  have hkeys : ∀ k ∈ (lay lower e).map (·.1), k.Proper := by
    rw [map_fst_lay]
    intro k hk
    rcases List.mem_append.1 hk with hk | hk
    · obtain ⟨f, hf, rfl⟩ := List.mem_map.1 hk
      exact hlower f hf
    · split at hk
      · cases hk
      · exact List.mem_singleton.1 hk ▸ he
  exact fun f hf => hkeys _ (List.mem_map_of_mem hf)

/-- **An entry is laid over what its key is bound to**, and all other keys stay as they are. -/
theorem valueAt?_lay (hlower : ∀ f ∈ lower, f.1.Proper) (he : e.1.Proper) (hk : k.Proper) :
    (lay lower e).valueAt? k = if e.1.same k then
      some ((lower.valueAt? k).elim e.2 fun w => Value.overlay w e.2) else lower.valueAt? k := by
  by_cases hsame : e.1.same k = true
  · -- the entry's key is the key that is asked for
    have hcongr : ∀ f : Value × Value, f.1.same e.1 = f.1.same k :=
      fun f => he.same_congr hk hsame f.1
    rw [if_pos hsame]
    simp only [lay, hcongr]
    split
    · clear hlower
      rename_i hany
      induction lower with
      | nil => cases hany
      | cons f lower ih =>
        rw [List.map_cons, valueAt?_cons, valueAt?_cons]
        by_cases hf : f.1.same k = true
        · simp only [hf, if_true, Option.elim_some]
        · simp only [hf, Bool.false_eq_true, if_false]
          exact ih (by simpa [hf] using hany)
    · rename_i hany
      rw [Bool.not_eq_true] at hany
      rw [valueAt?_eq_none_iff.2 hany, Option.elim_none, valueAt?, findKey?, List.find?_append,
        List.find?_eq_none.2 (by simpa using hany), Option.none_or, List.find?_cons, hsame]
      rfl
  · -- other keys are not touched
    rw [if_neg hsame]
    have hother : ∀ f ∈ lower, f.1.same e.1 = true → f.1.same k ≠ true := fun f hf hfe hfk =>
      hsame (same_trans ((hlower f hf).same_symm he hfe) hfk)
    rw [lay]
    split
    · clear hlower
      rename_i hany
      clear hany
      induction lower with
      | nil => rfl
      | cons f lower ih =>
        rw [List.map_cons, valueAt?_cons, valueAt?_cons,
          ih fun g hg => hother g (List.mem_cons_of_mem _ hg)]
        have hf := hother f List.mem_cons_self
        by_cases hfe : f.1.same e.1 = true
        · simp only [hfe, if_true, hf hfe, Bool.false_eq_true, if_false]
        · simp only [hfe, Bool.false_eq_true, if_false]
    · rw [valueAt?, findKey?, List.find?_append, List.find?_singleton, if_neg hsame, Option.or_none]
      rfl

/-! ### All entries over a mapping -/

/-- **A merged mapping, key by key**: what only one side binds is taken from it, and what both bind
is laid over one another. -/
theorem valueAt?_overlayEntries (hlower : ∀ f ∈ lower, f.1.Proper)
    (hupper : (Value.mapping upper).Proper) (hk : k.Proper) :
    (Value.overlayEntries lower upper).valueAt? k = (upper.valueAt? k).elim (lower.valueAt? k)
      fun v => some ((lower.valueAt? k).elim v fun w => Value.overlay w v) := by
  rw [overlayEntries_eq_foldl]
  obtain ⟨hdistinct, hparts⟩ := proper_mapping_iff.1 hupper
  clear hupper
  induction upper generalizing lower with
  | nil => rfl
  | cons e upper ih =>
    obtain ⟨hhead, htail⟩ := List.pairwise_cons.1 hdistinct
    have he := (hparts e List.mem_cons_self).1
    have hparts' := fun f hf => hparts f (List.mem_cons_of_mem _ hf)
    rw [List.foldl_cons, ih (properKeys_lay hlower he) htail hparts', valueAt?_lay hlower he hk,
      valueAt?_cons]
    by_cases hsame : e.1.same k = true
    · -- no later entry has this key
      have hlater : valueAt? upper k = none := by
        rw [valueAt?_eq_none_iff, List.any_eq_false]
        intro f hf hfk
        have hef := same_trans hsame ((hparts' f hf).1.same_symm hk hfk)
        rw [hhead f hf] at hef
        cases hef
      simp only [hlater, hsame, if_true, Option.elim_none, Option.elim_some]
    · simp only [hsame, Bool.false_eq_true, if_false]

/-- The keys of the one mapping that the other one does not have. -/
def newKeys (lower upper : Mapping) : List Value :=
  (upper.filter fun e => !lower.any (·.1.same e.1)).map (·.1)

/-- **The keys of a merged mapping**: those of the lower one in their places, then the new ones. -/
theorem map_fst_overlayEntries (hdistinct : upper.Pairwise fun e f => e.1.same f.1 = false) :
    (Value.overlayEntries lower upper).map (·.1) = lower.map (·.1) ++ newKeys lower upper := by
  rw [overlayEntries_eq_foldl]
  induction upper generalizing lower with
  | nil => simp [newKeys]
  | cons e upper ih =>
    obtain ⟨hhead, htail⟩ := List.pairwise_cons.1 hdistinct
    -- the entry that is laid first has none of the keys that follow
    have hlater : newKeys (lay lower e) upper = newKeys lower upper := by
      refine congrArg (List.map _) (List.filter_congr fun f hf => congrArg _ ?_)
      have hkeys : ∀ m : Mapping, m.any (·.1.same f.1) = (m.map (·.1)).any (·.same f.1) := fun m => by
        rw [List.any_map]
        rfl
      rw [hkeys, hkeys, map_fst_lay, List.any_append]
      split <;> simp [hhead f hf]
    rw [List.foldl_cons, ih htail, hlater, map_fst_lay, List.append_assoc]
    refine congrArg _ ?_
    rw [newKeys, newKeys, List.filter_cons]
    cases lower.any (·.1.same e.1) <;> rfl

/-- An entry that has nothing to add is laid without effect. -/
theorem lay_eq_self (hm : (Value.mapping m).Proper) (hf : f ∈ m) (he : e.1.Proper)
    (hsame : f.1.same e.1 = true) (hadds : Value.overlay f.2 e.2 = f.2) : lay m e = m := by
  rw [lay, if_pos (List.any_eq_true.2 ⟨f, hf, hsame⟩)]
  conv_rhs => rw [← List.map_id m]
  refine List.map_congr_left fun g hg => ?_
  by_cases hge : g.1.same e.1 = true
  · -- there is only one entry of that key
    have hvalue : g.2 = f.2 := Option.some_inj.1
      ((valueAt?_of_mem hm hg he hge).symm.trans (valueAt?_of_mem hm hf he hsame))
    rw [if_pos hge, hvalue, hadds, ← hvalue]
    rfl
  · rw [if_neg hge]
    rfl

/-- A mapping that has nothing to add is laid without effect. -/
theorem overlayEntries_eq_self (hm : (Value.mapping m).Proper)
    (hupper : ∀ e ∈ upper, e.1.Proper ∧ ∃ f ∈ m, f.1.same e.1 = true ∧ Value.overlay f.2 e.2 = f.2) :
    Value.overlayEntries m upper = m := by
  rw [overlayEntries_eq_foldl]
  induction upper with
  | nil => rfl
  | cons e upper ih =>
    obtain ⟨⟨he, f, hf, hsame, hadds⟩, hrest⟩ := List.forall_mem_cons.1 hupper
    rw [List.foldl_cons, lay_eq_self hm hf he hsame hadds, ih hrest]

end Mapping

/-! ### What is laid over one another is proper -/

namespace Value

variable {base upper v w x : Value} {p : List Value}

@[simp] theorem overlay_null (base : Value) : overlay base .null = base := by rw [overlay]

@[simp] theorem overlay_mapping (lower m : Mapping) :
    overlay (.mapping lower) (.mapping m) = .mapping (overlayEntries lower m) := by rw [overlay]

theorem Proper.valueAt?_overlayEntries {lower upper : Mapping} {k : Value}
    (pb : (mapping lower).Proper) (pu : (mapping upper).Proper) (hk : k.Proper) :
    (overlayEntries lower upper).valueAt? k = (upper.valueAt? k).elim (lower.valueAt? k)
      fun v => some ((lower.valueAt? k).elim v fun w => overlay w v) :=
  Mapping.valueAt?_overlayEntries (fun f hf => ((proper_mapping_iff.1 pb).2 f hf).1) pu hk

/-- Anything but a null and a mapping. -/
def isLeaf : Value → Bool
  | .null => false
  | .mapping _ => false
  | _ => true

@[simp] theorem isLeaf_null : null.isLeaf = false := rfl

@[simp] theorem isLeaf_mapping (m : Mapping) : (mapping m).isLeaf = false := rfl

theorem null_or_mapping_or_leaf (v : Value) :
    v = .null ∨ (∃ m, v = .mapping m) ∨ v.isLeaf = true := by
  cases v <;> simp [isLeaf]

/-- A leaf takes the place of what it is laid over. -/
theorem overlay_of_isLeaf (h : upper.isLeaf = true) (base : Value) : overlay base upper = upper := by
  cases upper <;> first | rfl | cases h

/-- So does a mapping, unless it is laid over another one. -/
theorem overlay_mapping_of_ne {m : Mapping} (h : ∀ lower, base ≠ .mapping lower) :
    overlay base (.mapping m) = .mapping m := by
  cases base with
  | mapping lower => exact absurd rfl (h lower)
  | _ => rfl

/-- Where a mapping was laid there is no leaf. -/
theorem isLeaf_overlay_mapping (base : Value) (m : Mapping) :
    (overlay base (.mapping m)).isLeaf = false := by
  cases base <;> rfl

theorem proper_lay {m : Mapping} {e : Value × Value} (hm : (mapping m).Proper)
    (he : e.1.Proper ∧ e.2.Proper) (hover : ∀ w : Value, w.Proper → (overlay w e.2).Proper) :
    (mapping (m.lay e)).Proper := by
  obtain ⟨hdistinct, hparts⟩ := proper_mapping_iff.1 hm
  rw [proper_mapping_iff, Mapping.lay]
  split
  · refine ⟨List.pairwise_map.2 (hdistinct.imp fun {f g} hfg => ?_), ?_⟩
    · split <;> split <;> exact hfg
    · rw [List.forall_mem_map]
      intro f hf
      split
      · exact ⟨(hparts f hf).1, hover _ (hparts f hf).2⟩
      · exact hparts f hf
  · rename_i hany
    rw [List.any_eq_true] at hany
    refine ⟨List.pairwise_append.2 ⟨hdistinct, List.pairwise_singleton _ _, fun f hf g hg => ?_⟩,
      fun f hf => ?_⟩
    · obtain rfl := List.mem_singleton.1 hg
      exact Bool.eq_false_iff.2 fun h => hany ⟨f, hf, h⟩
    · rcases List.mem_append.1 hf with hf | hf
      · exact hparts f hf
      · exact List.mem_singleton.1 hf ▸ he

/-- **A proper value over a proper one is proper.** -/
theorem Proper.overlay (pb : base.Proper) (pu : upper.Proper) : (base.overlay upper).Proper := by
  induction hn : sizeOf upper using Nat.strong_induction_on generalizing base upper with
  | _ n ih =>
    subst hn
    cases upper with
    | null => exact pb
    | mapping m =>
      cases base with
      | mapping lower =>
        rw [overlay_mapping, Mapping.overlayEntries_eq_foldl]
        have hparts := (proper_mapping_iff.1 pu).2
        have hover : ∀ e ∈ m, ∀ w : Value, w.Proper → (w.overlay e.2).Proper := fun e he w hw =>
          ih _ (sizeOf_lt_of_mem_entries he).2 hw (hparts e he).2 rfl
        clear ih pu
        induction m generalizing lower with
        | nil => exact pb
        | cons e m ihm =>
          obtain ⟨he, hm⟩ := List.forall_mem_cons.1 hparts
          obtain ⟨hover₀, hover⟩ := List.forall_mem_cons.1 hover
          exact ihm _ (proper_lay pb he hover₀) hm hover
      | _ => exact pu
    | _ => exact pu

theorem Proper.overlayAll {layers : List Value} (pb : base.Proper) (h : ∀ l ∈ layers, l.Proper) :
    (base.overlayAll layers).Proper := by
  induction layers generalizing base with
  | nil => exact pb
  | cons l layers ih =>
    obtain ⟨hl, hrest⟩ := List.forall_mem_cons.1 h
    exact ih (pb.overlay hl) hrest

/-! ### Laying twice -/

/-- A value laid over itself changes nothing. -/
theorem Proper.overlay_self (pv : v.Proper) : v.overlay v = v := by
  induction hn : sizeOf v using Nat.strong_induction_on generalizing v with
  | _ n ih =>
    subst hn
    cases v with
    | mapping m =>
      rw [overlay_mapping]
      refine congrArg _ (Mapping.overlayEntries_eq_self pv fun e he => ?_)
      obtain ⟨hk, hv⟩ := (proper_mapping_iff.1 pv).2 e he
      exact ⟨hk, e, he, same_self _, ih _ (sizeOf_lt_of_mem_entries he).2 hv rfl⟩
    | _ => rfl

/-- **A layer that was laid once has nothing to add.** -/
theorem Proper.overlay_overlay (pb : base.Proper) (pu : upper.Proper) :
    (base.overlay upper).overlay upper = base.overlay upper := by
  induction hn : sizeOf upper using Nat.strong_induction_on generalizing base upper with
  | _ n ih =>
    subst hn
    cases upper with
    | null => rfl
    | mapping m =>
      cases base with
      | mapping lower =>
        have pmerged := pb.overlay pu
        rw [overlay_mapping] at pmerged ⊢
        rw [overlay_mapping]
        refine congrArg _ (Mapping.overlayEntries_eq_self pmerged fun e he => ?_)
        obtain ⟨hk, hv⟩ := (proper_mapping_iff.1 pu).2 e he
        -- the merged mapping binds the key to the entry's value, laid over what was there
        have hmerged := pb.valueAt?_overlayEntries pu hk
        rw [Mapping.valueAt?_of_mem pu he hk (same_self _)] at hmerged
        obtain ⟨f, hf, hsame, hvalue⟩ := Mapping.exists_mem_of_valueAt? hmerged
        refine ⟨hk, f, hf, hsame, hvalue ▸ ?_⟩
        cases hold : Mapping.valueAt? lower e.1 with
        | none => exact hv.overlay_self
        | some w =>
          exact ih _ (sizeOf_lt_of_mem_entries he).2 (Mapping.proper_of_valueAt? pb hold) hv rfl
      | _ => exact pu.overlay_self
    | _ => rfl

/-! ### Looking along paths -/

/-- What stands at the end of a path of keys. -/
def at? : Value → List Value → Option Value
  | v, [] => some v
  | .mapping m, k :: p => (Mapping.valueAt? m k).bind (at? · p)
  | _, _ :: _ => none

@[simp] theorem at?_nil (v : Value) : v.at? [] = some v := by rw [at?]

@[simp] theorem at?_mapping_cons (m : Mapping) (k : Value) (p : List Value) :
    (mapping m).at? (k :: p) = (m.valueAt? k).bind (at? · p) := by rw [at?]

theorem at?_cons_of_ne (h : ∀ m, v ≠ .mapping m) (k : Value) (p : List Value) :
    v.at? (k :: p) = none := by
  cases v with
  | mapping m => exact absurd rfl (h m)
  | _ => rfl

/-- Whether nothing is said at a place. -/
def Blank (o : Option Value) : Prop := o = none ∨ o = some .null

/-- A value that has a leaf at the end of a path. -/
def HasLeaf (v : Value) (p : List Value) (x : Value) : Prop := v.at? p = some x ∧ x.isLeaf = true

/-- A value that says nothing at the end of a path and puts nothing but mappings on the way. -/
def Yields (v : Value) (p : List Value) : Prop :=
  Blank (v.at? p) ∧ ∀ q, q <+: p → q ≠ p → Blank (v.at? q) ∨ ∃ m, v.at? q = some (.mapping m)

theorem yields_nil_iff : v.Yields [] ↔ v = .null := by
  refine ⟨fun h => h.1.elim nofun fun h => Option.some_inj.1 h, fun h => ⟨.inr (h ▸ rfl), ?_⟩⟩
  exact fun q hq hne => absurd (List.prefix_nil.1 hq) hne

theorem yields_null (p : List Value) : null.Yields p := by
  have hblank : ∀ q, Blank (null.at? q) := fun q => by
    cases q with
    | nil => exact .inr rfl
    | cons k q => exact .inl rfl
  exact ⟨hblank p, fun q _ _ => .inl (hblank q)⟩

theorem not_yields_of_isLeaf (h : v.isLeaf = true) (p : List Value) : ¬v.Yields p := by
  intro hyields
  have hroot : Blank (v.at? []) ∨ ∃ m, v.at? [] = some (.mapping m) := by
    by_cases hp : p = []
    · exact .inl (hp ▸ hyields.1)
    · exact hyields.2 [] List.nil_prefix (Ne.symm hp)
  rw [at?_nil] at hroot
  rcases hroot with (hroot | hroot) | ⟨m, hroot⟩
  · cases hroot
  all_goals
    cases hroot
    cases h

/-- A mapping yields along a path as what it binds the first key to. -/
theorem yields_mapping_cons_iff {m : Mapping} {k : Value} :
    (mapping m).Yields (k :: p) ↔ ∀ v, m.valueAt? k = some v → v.Yields p := by
  constructor
  · intro h v hv
    refine ⟨by simpa [hv] using h.1, fun q hq hne => ?_⟩
    simpa [hv] using h.2 (k :: q) ((List.prefix_cons_inj k).2 hq) (by simpa using hne)
  · intro h
    refine ⟨?_, fun q hq hne => ?_⟩
    · rw [at?_mapping_cons]
      cases hv : m.valueAt? k with
      | none => exact .inl rfl
      | some v => exact (h v hv).1
    · cases q with
      | nil => exact .inr ⟨m, rfl⟩
      | cons l q =>
        obtain ⟨rfl, hprefix⟩ := List.cons_prefix_cons.1 hq
        rw [at?_mapping_cons]
        cases hv : m.valueAt? l with
        | none => exact .inl (.inl rfl)
        | some v => exact (h v hv).2 q hprefix (by simpa using hne)

/-! ### The leaves of a merged value -/

theorem hasLeaf_mapping_cons_iff {m : Mapping} {k : Value} :
    (mapping m).HasLeaf (k :: p) x ↔ ∃ v, m.valueAt? k = some v ∧ v.HasLeaf p x := by
  simp only [HasLeaf, at?_mapping_cons, Option.bind_eq_some_iff]
  constructor
  · rintro ⟨⟨v, hv, hp⟩, hx⟩
    exact ⟨v, hv, hp, hx⟩
  · rintro ⟨v, hv, hp, hx⟩
    exact ⟨⟨v, hv, hp⟩, hx⟩

theorem not_hasLeaf_cons (h : ∀ m, v ≠ .mapping m) {k : Value} : ¬v.HasLeaf (k :: p) x := by
  rintro ⟨hat, -⟩
  rw [at?_cons_of_ne h] at hat
  cases hat

theorem hasLeaf_nil_iff : v.HasLeaf [] x ↔ v = x ∧ v.isLeaf = true := by
  constructor
  · rintro ⟨hat, hx⟩
    obtain rfl := Option.some_inj.1 hat
    exact ⟨rfl, hx⟩
  · rintro ⟨rfl, hx⟩
    exact ⟨rfl, hx⟩

/-- **The leaves of a merged value** are those of the upper value and, where it yields, those of the
lower one. -/
theorem Proper.hasLeaf_overlay_iff (pb : base.Proper) (pu : upper.Proper)
    (hp : ∀ k ∈ p, k.Proper) : (base.overlay upper).HasLeaf p x ↔
      upper.HasLeaf p x ∨ base.HasLeaf p x ∧ upper.Yields p := by
  induction p generalizing base upper with
  | nil =>
    rcases upper.null_or_mapping_or_leaf with rfl | ⟨m, rfl⟩ | hleaf
    · simp [hasLeaf_nil_iff, yields_nil_iff]
    · simp [hasLeaf_nil_iff, yields_nil_iff, isLeaf_overlay_mapping]
    · have hne : upper ≠ .null := fun h => by simp [h] at hleaf
      simp [overlay_of_isLeaf hleaf, yields_nil_iff, hne]
  | cons k p ih =>
    obtain ⟨hk, hp⟩ := List.forall_mem_cons.1 hp
    rcases upper.null_or_mapping_or_leaf with rfl | ⟨m, rfl⟩ | hleaf
    · simp [not_hasLeaf_cons, yields_null]
    · by_cases hbase : ∃ lower, base = .mapping lower
      · obtain ⟨lower, rfl⟩ := hbase
        rw [overlay_mapping, hasLeaf_mapping_cons_iff, hasLeaf_mapping_cons_iff,
          hasLeaf_mapping_cons_iff, yields_mapping_cons_iff, pb.valueAt?_overlayEntries pu hk]
        cases hupper : Mapping.valueAt? m k with
        | none => simp
        | some v =>
          cases hold : Mapping.valueAt? lower k with
          | none => simp
          | some w =>
            -- both sides go on below the key
            have hbelow := ih (Mapping.proper_of_valueAt? pb hold)
              (Mapping.proper_of_valueAt? pu hupper) hp
            simpa using hbelow
      · have hne : ∀ lower, base ≠ .mapping lower := fun lower h => hbase ⟨lower, h⟩
        simp [overlay_mapping_of_ne hne, not_hasLeaf_cons hne]
    · simp [overlay_of_isLeaf hleaf, not_yields_of_isLeaf hleaf]

/-- **What many layers supply** at a path: a leaf of one of them at which all layers above yield. -/
def Supplied (layers : List Value) (p : List Value) (x : Value) : Prop :=
  ∃ below l above, layers = below ++ l :: above ∧ l.HasLeaf p x ∧ ∀ u ∈ above, u.Yields p

theorem supplied_singleton_iff : Supplied [v] p x ↔ v.HasLeaf p x := by
  constructor
  · rintro ⟨below, l, above, heq, hleaf, -⟩
    obtain ⟨-, heq⟩ | ⟨_, -, heq⟩ := List.append_eq_cons_iff.1 heq.symm
    · exact (List.cons_eq_cons.1 heq).1 ▸ hleaf
    · cases List.append_eq_nil_iff.1 heq.symm |>.2
  · exact fun h => ⟨[], v, [], rfl, h, nofun⟩

theorem supplied_concat_iff {layers : List Value} : Supplied (layers ++ [v]) p x ↔
    v.HasLeaf p x ∨ Supplied layers p x ∧ v.Yields p := by
  constructor
  · rintro ⟨below, l, above, heq, hleaf, habove⟩
    rcases List.eq_nil_or_concat above with rfl | ⟨above, u, rfl⟩
    · obtain ⟨-, heq⟩ := List.append_inj' heq rfl
      exact .inl (List.cons_eq_cons.1 heq |>.1 ▸ hleaf)
    · rw [List.concat_eq_append, ← List.cons_append, ← List.append_assoc] at heq
      rw [List.concat_eq_append] at habove
      obtain ⟨hlayers, hlast⟩ := List.append_inj' heq rfl
      obtain rfl := (List.cons_eq_cons.1 hlast).1
      exact .inr ⟨⟨below, l, above, hlayers, hleaf, fun w hw => habove w (List.mem_append_left _ hw)⟩,
        habove v (List.mem_append_right _ List.mem_cons_self)⟩
  · rintro (hleaf | ⟨⟨below, l, above, rfl, hleaf, habove⟩, hyields⟩)
    · exact ⟨layers, v, [], rfl, hleaf, nofun⟩
    · refine ⟨below, l, above ++ [v], by simp, hleaf, fun u hu => ?_⟩
      rcases List.mem_append.1 hu with hu | hu
      · exact habove u hu
      · exact List.mem_singleton.1 hu ▸ hyields

/-- **The highest layer that does not yield decides.** -/
theorem Proper.hasLeaf_overlayAll_iff {layers : List Value} (pb : base.Proper)
    (hlayers : ∀ l ∈ layers, l.Proper) (hp : ∀ k ∈ p, k.Proper) :
    (base.overlayAll layers).HasLeaf p x ↔ Supplied (base :: layers) p x := by
  induction layers using List.reverseRecOn with
  | nil => exact supplied_singleton_iff.symm
  | append_singleton layers l ih =>
    have hrest : ∀ l ∈ layers, l.Proper := fun l hl => hlayers l (List.mem_append_left _ hl)
    have hlast : l.Proper := hlayers l (List.mem_append_right _ List.mem_cons_self)
    have hfold : base.overlayAll (layers ++ [l]) = (base.overlayAll layers).overlay l :=
      List.foldl_concat _ _ _ _
    rw [hfold, (pb.overlayAll hrest).hasLeaf_overlay_iff hlast hp, ih hrest, ← List.cons_append,
      supplied_concat_iff]

/-! ### The keys of a merged value -/

/-- The keys that a mapping gains from what is laid over it. -/
def gained (lower : Mapping) : Option Value → List Value
  | some (.mapping m) => lower.newKeys m
  | _ => []

/-- **A mapping that stays one keeps its keys in order**, and gains new ones at the end. -/
theorem Proper.map_fst_of_at? (pb : base.Proper) (pu : upper.Proper) (hp : ∀ k ∈ p, k.Proper)
    {lower merged : Mapping} (hlower : base.at? p = some (.mapping lower))
    (hmerged : (base.overlay upper).at? p = some (.mapping merged)) :
    merged.map (·.1) = lower.map (·.1) ++ gained lower (upper.at? p) := by
  induction p generalizing base upper with
  | nil =>
    obtain rfl := Option.some_inj.1 hlower
    rcases upper.null_or_mapping_or_leaf with rfl | ⟨m, rfl⟩ | hleaf
    · cases hmerged
      simp [gained]
    · rw [overlay_mapping] at hmerged
      cases hmerged
      exact Mapping.map_fst_overlayEntries (proper_mapping_iff.1 pu).1
    · rw [overlay_of_isLeaf hleaf] at hmerged
      obtain rfl := Option.some_inj.1 hmerged
      cases hleaf
  | cons k p ih =>
    obtain ⟨hk, hp⟩ := List.forall_mem_cons.1 hp
    rcases upper.null_or_mapping_or_leaf with rfl | ⟨m, rfl⟩ | hleaf
    · rw [overlay_null, hlower] at hmerged
      cases hmerged
      simp [gained, at?]
    · by_cases hbase : ∃ b, base = .mapping b
      · obtain ⟨b, rfl⟩ := hbase
        rw [at?_mapping_cons] at hlower
        obtain ⟨w, hw, hlower⟩ := Option.bind_eq_some_iff.1 hlower
        rw [overlay_mapping, at?_mapping_cons, pb.valueAt?_overlayEntries pu hk, hw] at hmerged
        rw [at?_mapping_cons]
        cases hupper : Mapping.valueAt? m k with
        | none =>
          rw [hupper] at hmerged
          rw [show w.at? p = some (mapping merged) from hmerged] at hlower
          cases hlower
          simp [gained]
        | some v =>
          rw [hupper] at hmerged
          exact ih (Mapping.proper_of_valueAt? pb hw) (Mapping.proper_of_valueAt? pu hupper) hp
            hlower hmerged
      · rw [at?_cons_of_ne fun b h => hbase ⟨b, h⟩] at hlower
        cases hlower
    · have hne : ∀ m, upper ≠ .mapping m := fun m h => by simp [h] at hleaf
      rw [overlay_of_isLeaf hleaf, at?_cons_of_ne hne] at hmerged
      cases hmerged

/-! ### Layers of settings -/

/-- **What laying a value over another one comes to.** -/
structure Lays (base upper : Value) : Prop where
  leaf : ∀ p x, (∀ k ∈ p, k.Proper) → ((base.overlay upper).HasLeaf p x ↔
    upper.HasLeaf p x ∨ base.HasLeaf p x ∧ upper.Yields p)
  keys : ∀ p, (∀ k ∈ p, k.Proper) → ∀ lower merged, base.at? p = some (.mapping lower) →
    (base.overlay upper).at? p = some (.mapping merged) →
      merged.map (·.1) = lower.map (·.1) ++ gained lower (upper.at? p)
  twice : (base.overlay upper).overlay upper = base.overlay upper

theorem Proper.lays (pb : base.Proper) (pu : upper.Proper) : Lays base upper where
  leaf _ _ hp := pb.hasLeaf_overlay_iff pu hp
  keys _ hp _ _ := pb.map_fst_of_at? pu hp
  twice := pb.overlay_overlay pu

end Value

end Yaml

namespace Settings

open Yaml

variable {around : Surroundings} {explicit : Option String}

/-- The layers over the built-in defaults: the user's, and that of the project. -/
def layers (around : Surroundings) (explicit : Option String) :
    Except ConfigError (List Value) := do
  let user ← globalLayer around
  let file ← around.projectFile? explicit
  let project ← match file with
    | some path => around.layer path
    | none => pure .null
  return [user, project]

/-- All layers in one value. -/
def merged (around : Surroundings) (explicit : Option String) : Except ConfigError Value :=
  (layers around explicit).map builtIn.overlayAll

/-- **Settings are what the merged layers state**, up to variables and relative paths. -/
theorem load_eq (around : Surroundings) (explicit : Option String) : load around explicit = do
    let s ← ofValue (← merged around explicit)
    let s ← s.applyVariables around
    return s.resolvePaths (around.baseDir (← around.projectFile? explicit)) := by
  rw [load, merged, layers]
  cases globalLayer around with
  | error e => rfl
  | ok user =>
    cases around.projectFile? explicit with
    | error e => rfl
    | ok file =>
      cases file with
      | none => rfl
      | some path =>
        cases hlayer : around.layer path with
        | error e => simp [hlayer, bind, Except.bind, Except.map]
        | ok project => simp [hlayer, bind, Except.bind, Except.map, pure, Except.pure]

theorem proper_of_layer {path : String} {v : Value} (h : around.layer path = .ok v) : v.Proper := by
  rw [Surroundings.layer] at h
  cases htext : around.files.readText around.workingPlace path with
  | error e => simp [htext, Except.mapError, bind, Except.bind] at h
  | ok text =>
    cases hread : Yaml.read text with
    | error e => simp [htext, hread, Except.mapError, bind, Except.bind] at h
    | ok w =>
      simp only [htext, hread, Except.mapError, bind, Except.bind, Except.ok.injEq] at h
      exact h ▸ proper_of_read hread

theorem proper_of_globalLayer {v : Value} (h : globalLayer around = .ok v) : v.Proper := by
  rw [globalLayer] at h
  split at h
  · dsimp only at h
    split at h
    · exact proper_of_layer h
    · cases h
      trivial
  · cases h
    trivial

theorem layers_eq_ok_iff {ls : List Value} : layers around explicit = .ok ls ↔
    ∃ user project, globalLayer around = .ok user ∧
      (∃ file, around.projectFile? explicit = .ok file ∧
        file.elim (.ok .null) around.layer = .ok project) ∧ ls = [user, project] := by
  rw [layers]
  cases globalLayer around with
  | error e => simp [bind, Except.bind]
  | ok user =>
    cases around.projectFile? explicit with
    | error e => simp [bind, Except.bind]
    | ok file =>
      cases file with
      | none => simp [bind, Except.bind, pure, Except.pure, eq_comm]
      | some path =>
        cases hlayer : around.layer path with
        | error e => simp [hlayer, bind, Except.bind]
        | ok project => simp [hlayer, bind, Except.bind, pure, Except.pure, eq_comm]

/-- Layers that were read are proper. -/
theorem proper_of_layers {ls : List Value} (h : layers around explicit = .ok ls) :
    ∀ l ∈ ls, l.Proper := by
  obtain ⟨user, project, huser, ⟨file, -, hproject⟩, rfl⟩ := layers_eq_ok_iff.1 h
  have hproper : project.Proper := by
    cases file with
    | none =>
      cases hproject
      trivial
    | some path => exact proper_of_layer hproject
  exact List.forall_mem_cons.2 ⟨proper_of_globalLayer huser, List.forall_mem_singleton.2 hproper⟩

theorem proper_builtIn : builtIn.Proper := by
  simp [builtIn, Value.Proper, Value.ProperEntries, Value.ProperItems, Mapping.hasDuplicate,
    Value.same]

/-- **How layers make up settings.** Laid over one another, two values have the leaves of the upper
one and, where it yields, those of the lower one, keep the order of their keys, and are settled. So
of any number of layers the highest that does not yield decides, and of those that settings are
loaded from, too. -/
theorem merged_layers {base upper : Value} (pb : base.Proper) (pu : upper.Proper) :
    Value.Lays base upper ∧
      (∀ (ls : List Value) p x, (∀ l ∈ ls, l.Proper) → (∀ k ∈ p, k.Proper) →
        ((base.overlayAll ls).HasLeaf p x ↔ Value.Supplied (base :: ls) p x)) ∧
      ∀ (around : Surroundings) (explicit : Option String) v, merged around explicit = .ok v →
        ∃ ls, layers around explicit = .ok ls ∧ ∀ p x, (∀ k ∈ p, k.Proper) →
          (v.HasLeaf p x ↔ Value.Supplied (builtIn :: ls) p x) := by
  refine ⟨pb.lays pu, fun ls p x hls hp => pb.hasLeaf_overlayAll_iff hls hp,
    fun around explicit v hv => ?_⟩
  rw [merged] at hv
  cases hlayers : layers around explicit with
  | error e =>
    rw [hlayers] at hv
    cases hv
  | ok ls =>
    rw [hlayers] at hv
    cases hv
    exact ⟨ls, rfl, fun p x hp => proper_builtIn.hasLeaf_overlayAll_iff (proper_of_layers hlayers) hp⟩

/-- A layer with a mapping inside. -/
def sparse : Value :=
  .mapping [(.string "strict", .bool true),
    (.string "import", .mapping [(.string "lock-key", .string "site"), (.string "strip-keys", .null)])]

/-- A layer that says nothing on one thing, replaces another and adds a third. -/
def patch : Value :=
  .mapping [(.string "import", .mapping [(.string "retries", .number (.int 3)),
    (.string "lock-key", .null)]), (.string "strict", .sequence [])]

theorem proper_sparse : sparse.Proper := by
  simp [sparse, Value.Proper, Value.ProperEntries, Mapping.hasDuplicate, Value.same]

theorem proper_patch : patch.Proper := by
  simp [patch, Value.Proper, Value.ProperEntries, Value.ProperItems, Mapping.hasDuplicate,
    Value.same]

theorem merged_layers_patch : sparse.Proper ∧ patch.Proper ∧
    (Value.Lays sparse patch ∧
      (∀ (ls : List Value) p x, (∀ l ∈ ls, l.Proper) → (∀ k ∈ p, k.Proper) →
        ((sparse.overlayAll ls).HasLeaf p x ↔ Value.Supplied (sparse :: ls) p x)) ∧
      ∀ (around : Surroundings) (explicit : Option String) v, merged around explicit = .ok v →
        ∃ ls, layers around explicit = .ok ls ∧ ∀ p x, (∀ k ∈ p, k.Proper) →
          (v.HasLeaf p x ↔ Value.Supplied (builtIn :: ls) p x)) ∧
    sparse.overlay patch = .mapping [(.string "strict", .sequence []),
      (.string "import", .mapping [(.string "lock-key", .string "site"), (.string "strip-keys", .null),
        (.string "retries", .number (.int 3))])] :=
  ⟨proper_sparse, proper_patch, merged_layers proper_sparse proper_patch, rfl⟩

end Settings

end SiteConfig
