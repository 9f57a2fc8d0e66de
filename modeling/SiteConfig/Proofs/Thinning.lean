import Mathlib
import SiteConfig.Proofs.Layering
import SiteConfig.Proofs.Records

/-!
# Values without their nulls

A value may be left as it is but for some entries that are null, at any depth of mappings
(`SiteConfig.Yaml.Value.Omits`). When such values are laid over one another, the mappings that come
about may also differ in the order of their keys: a key that was null first and bound later has its
place already. So what is kept is a looser relation, which goes by the keys
(`SiteConfig.Yaml.Value.Thins`): it is that of values that omit nulls
(`SiteConfig.Yaml.Value.Omits.thins`) and it survives being laid over one another
(`SiteConfig.Yaml.Value.Thins.overlay`).

A record that can be read says the same without its nulls, provided that null stands for the default
wherever it can be read at all (`SiteConfig.Yaml.Slots.record_of_thins`). For the way back all keys
have to be plain, and no null may stand where none can be read
(`SiteConfig.Yaml.Slots.record_of_thinned`).
-/

namespace SiteConfig.Yaml

namespace Value

/-- **One value is another one with some null entries left out**, at any depth of mappings and tags. -/
inductive Omits : Value → Value → Prop
  | refl (v : Value) : Omits v v
  | tagged (tag : String) {v w : Value} : Omits v w → Omits (.tagged tag v) (.tagged tag w)
  | keep (k : Value) {v w : Value} {m n : Mapping} : Omits v w → Omits (.mapping m) (.mapping n) →
      Omits (.mapping ((k, v) :: m)) (.mapping ((k, w) :: n))
  | drop (k : Value) {m n : Mapping} : Omits (.mapping m) (.mapping n) →
      Omits (.mapping ((k, .null) :: m)) (.mapping n)

mutual
/-- The second value is the first one without some nulls, and maybe with its keys in another order. -/
inductive Thins : Value → Value → Prop
  | refl (v : Value) : Thins v v
  | tagged (tag : String) {v w : Value} : Thins v w → Thins (.tagged tag v) (.tagged tag w)
  | mapping {m n : Mapping} : (∀ k : Value, k.Proper → ThinsAt (m.valueAt? k) (n.valueAt? k)) →
      Thins (.mapping m) (.mapping n)

/-- What a key is bound to in both: a null may be gone. -/
inductive ThinsAt : Option Value → Option Value → Prop
  | absent : ThinsAt none none
  | gone : ThinsAt (some .null) none
  | kept {v w : Value} : Thins v w → ThinsAt (some v) (some w)
end

variable {v w b b' u u' : Value} {m n : Mapping}

theorem ThinsAt.refl (o : Option Value) : ThinsAt o o := by
  cases o with
  | none => exact .absent
  | some v => exact .kept (.refl v)

theorem thins_mapping_iff : Thins (.mapping m) (.mapping n) ↔
    ∀ k : Value, k.Proper → ThinsAt (m.valueAt? k) (n.valueAt? k) := by
  refine ⟨fun h => ?_, .mapping⟩
  cases h with
  | refl => exact fun k _ => .refl _
  | mapping h => exact h

/-- A null stays a null. -/
theorem Thins.eq_null (h : Thins .null w) : w = .null := by
  cases h
  rfl

/-- Where nothing was bound nothing is bound. -/
theorem ThinsAt.eq_none {o : Option Value} (h : ThinsAt none o) : o = none := by
  cases h
  rfl

/-- What is gone was null, if it was there. -/
theorem ThinsAt.eq_none_or_null {o : Option Value} (h : ThinsAt o none) : o = none ∨ o = some .null := by
  cases h with
  | absent => exact .inl rfl
  | gone => exact .inr rfl

theorem ThinsAt.thins {o : Option Value} (h : ThinsAt o (some w)) : ∃ v, o = some v ∧ Thins v w := by
  cases h with
  | kept h => exact ⟨_, rfl, h⟩

theorem Thins.exists_mapping (h : Thins v (.mapping n)) : ∃ m, v = .mapping m := by
  cases h with
  | refl => exact ⟨n, rfl⟩
  | mapping => exact ⟨_, rfl⟩

theorem Thins.exists_mapping' (h : Thins (.mapping m) w) : ∃ n, w = .mapping n := by
  cases h with
  | refl => exact ⟨m, rfl⟩
  | mapping => exact ⟨_, rfl⟩

theorem Thins.isLeaf (h : Thins v w) (hleaf : v.isLeaf = true) : w.isLeaf = true := by
  cases h with
  | refl => exact hleaf
  | tagged => rfl
  | mapping => cases hleaf

/-! ### Omitting is thinning -/

/-- The keys of a mapping without some nulls are among its keys. -/
theorem exists_same_of_thins (pn : (mapping n).Proper) (h : Thins (.mapping m) (.mapping n))
    {f : Value × Value} (hf : f ∈ n) : ∃ e ∈ m, e.1.same f.1 = true := by
  have hkey := ((proper_mapping_iff.1 pn).2 f hf).1
  have hat := thins_mapping_iff.1 h f.1 hkey
  rw [Mapping.valueAt?_of_mem pn hf hkey (same_self _)] at hat
  obtain ⟨v, hv, -⟩ := hat.thins
  obtain ⟨e, he, hsame, -⟩ := Mapping.exists_mem_of_valueAt? hv
  exact ⟨e, he, hsame⟩

/-- **A proper value that omits some nulls is proper and thinner.** -/
theorem Omits.thins (h : Omits v w) (pv : v.Proper) : w.Proper ∧ Thins v w := by
  induction h with
  | refl v => exact ⟨pv, .refl v⟩
  | tagged tag _ ih =>
    obtain ⟨pw, hw⟩ := ih pv
    exact ⟨pw, .tagged tag hw⟩
  | @keep k v w m n _ _ ihv ihm =>
    obtain ⟨hdistinct, hparts⟩ := proper_mapping_iff.1 pv
    obtain ⟨hhead, htail⟩ := List.pairwise_cons.1 hdistinct
    obtain ⟨⟨hk, hv⟩, hparts⟩ := List.forall_mem_cons.1 hparts
    obtain ⟨pw, hvw⟩ := ihv hv
    obtain ⟨pn, hmn⟩ := ihm (proper_mapping_iff.2 ⟨htail, hparts⟩)
    refine ⟨proper_mapping_iff.2 ⟨List.pairwise_cons.2 ⟨fun f hf => ?_, (proper_mapping_iff.1 pn).1⟩,
      List.forall_mem_cons.2 ⟨⟨hk, pw⟩, (proper_mapping_iff.1 pn).2⟩⟩, .mapping fun k' hk' => ?_⟩
    · -- the key that is kept is not one of the others, which were all there before
      obtain ⟨e, he, hsame⟩ := exists_same_of_thins pn hmn hf
      rw [← (hparts e he).1.same_congr ((proper_mapping_iff.1 pn).2 f hf).1 hsame]
      exact hhead e he
    · rw [Mapping.valueAt?_cons, Mapping.valueAt?_cons]
      split
      · exact .kept hvw
      · exact thins_mapping_iff.1 hmn k' hk'
  | @drop k m n _ ihm =>
    obtain ⟨hdistinct, hparts⟩ := proper_mapping_iff.1 pv
    obtain ⟨hhead, htail⟩ := List.pairwise_cons.1 hdistinct
    obtain ⟨⟨hk, -⟩, hparts⟩ := List.forall_mem_cons.1 hparts
    obtain ⟨pn, hmn⟩ := ihm (proper_mapping_iff.2 ⟨htail, hparts⟩)
    refine ⟨pn, .mapping fun k' hk' => ?_⟩
    have hat := thins_mapping_iff.1 hmn k' hk'
    rw [Mapping.valueAt?_cons]
    split
    · rename_i hsame
      -- the rest has no such key any more
      have hnone : m.valueAt? k' = none := by
        rw [Mapping.valueAt?_eq_none_iff, List.any_eq_false]
        intro e he hek
        have hke := same_trans hsame ((hparts e he).1.same_symm hk' hek)
        rw [hhead e he] at hke
        cases hke
      rw [hnone] at hat
      rw [hat.eq_none]
      exact .gone
    · exact hat

/-! ### Laying thinned values over one another -/

theorem overlay_null_left (v : Value) : overlay .null v = v := by
  cases v <;> rfl

/-- What a key of a merged mapping is bound to is thinner if what both sides bind is. -/
theorem ThinsAt.overlay {lower lower' upper upper' : Option Value} (hlower : ThinsAt lower lower')
    (hupper : ThinsAt upper upper') (hover : ∀ v w x y, upper = some v → upper' = some w →
      lower = some x → lower' = some y → Thins v w → Thins x y →
        Thins (x.overlay v) (y.overlay w)) :
    ThinsAt (upper.elim lower fun v => some (lower.elim v fun x => x.overlay v))
      (upper'.elim lower' fun w => some (lower'.elim w fun y => y.overlay w)) := by
  cases hupper with
  | absent => exact hlower
  | gone =>
    -- the upper null is gone, and it had nothing to say
    cases hlower with
    | absent => exact .gone
    | gone => exact .gone
    | kept hxy => exact .kept hxy
  | kept hvw =>
    cases hlower with
    | absent => exact .kept hvw
    | gone =>
      refine .kept ?_
      rw [Option.elim_some, overlay_null_left]
      exact hvw
    | kept hxy => exact .kept (hover _ _ _ _ rfl rfl rfl rfl hvw hxy)

/-- **Thinned values laid over one another** are thinner than the values. -/
theorem Thins.overlay (hb : Thins b b') (hu : Thins u u') (pb : b.Proper) (pb' : b'.Proper)
    (pu : u.Proper) (pu' : u'.Proper) : Thins (b.overlay u) (b'.overlay u') := by
  induction hn : sizeOf u using Nat.strong_induction_on generalizing b b' u u' with
  | _ size ih =>
    subst hn
    rcases u.null_or_mapping_or_leaf with rfl | ⟨m, rfl⟩ | hleaf
    · obtain rfl := hu.eq_null
      exact hb
    · obtain ⟨n, rfl⟩ := hu.exists_mapping'
      by_cases hbase : ∃ l, b = .mapping l
      · obtain ⟨l, rfl⟩ := hbase
        obtain ⟨l', rfl⟩ := hb.exists_mapping'
        rw [overlay_mapping, overlay_mapping]
        refine .mapping fun k hk => ?_
        rw [pb.valueAt?_overlayEntries pu hk, pb'.valueAt?_overlayEntries pu' hk]
        refine (thins_mapping_iff.1 hb k hk).overlay (thins_mapping_iff.1 hu k hk) ?_
        intro v w x y hv hw hx hy hvw hxy
        obtain ⟨e, he, -, rfl⟩ := Mapping.exists_mem_of_valueAt? hv
        exact ih _ (sizeOf_lt_of_mem_entries he).2 hxy hvw (Mapping.proper_of_valueAt? pb hx)
          (Mapping.proper_of_valueAt? pb' hy) (Mapping.proper_of_valueAt? pu hv)
          (Mapping.proper_of_valueAt? pu' hw) rfl
      · have hbase' : ∀ l, b' ≠ .mapping l := fun l heq => by
          rw [heq] at hb
          exact hbase hb.exists_mapping
        rw [overlay_mapping_of_ne fun l heq => hbase ⟨l, heq⟩, overlay_mapping_of_ne hbase']
        exact hu
    · rw [overlay_of_isLeaf hleaf, overlay_of_isLeaf (hu.isLeaf hleaf)]
      exact hu

theorem Thins.overlayAll {ls ls' : List Value} (h : List.Forall₂ Thins ls ls') (hb : Thins b b')
    (pb : b.Proper) (pb' : b'.Proper) (hls : ∀ l ∈ ls, l.Proper) (hls' : ∀ l ∈ ls', l.Proper) :
    Thins (b.overlayAll ls) (b'.overlayAll ls') := by
  induction h generalizing b b' with
  | nil => exact hb
  | @cons l l' ls ls' hl _ ih =>
    obtain ⟨pl, hls⟩ := List.forall_mem_cons.1 hls
    obtain ⟨pl', hls'⟩ := List.forall_mem_cons.1 hls'
    exact ih (hb.overlay hl pb pb' pl pl') (pb.overlay pl) (pb'.overlay pl') hls hls'

/-! ### Looking through tags -/

theorem Thins.untag : ∀ {v w : Value}, Thins v w → Thins v.untag w.untag
  | _, _, .refl v => .refl v.untag
  | _, _, .tagged _ h => h.untag
  | _, _, .mapping h => .mapping h

theorem Proper.untag : ∀ {v : Value}, v.Proper → v.untag.Proper
  | .tagged _ v, h => Proper.untag (v := v) h
  | .null, h => h
  | .bool _, h => h
  | .number _, h => h
  | .string _, h => h
  | .sequence _, h => h
  | .mapping _, h => h

/-- **Only mappings get thinner.** -/
theorem Thins.eq_of_untag_ne : ∀ {v w : Value}, Thins v w → (∀ m, v.untag ≠ .mapping m) → v = w
  | _, _, .refl _, _ => rfl
  | _, _, .tagged _ h, hne => congrArg _ (h.eq_of_untag_ne hne)
  | _, _, .mapping _, hne => absurd rfl (hne _)

/-- Nothing but a mapping has got thinner to become a mapping. -/
theorem Thins.untag_ne (h : Thins v w) (hne : ∀ n, w.untag ≠ .mapping n) (m : Mapping) :
    v.untag ≠ .mapping m := fun heq => by
  have huntag := h.untag
  rw [heq] at huntag
  obtain ⟨n, hn⟩ := huntag.exists_mapping'
  exact hne n hn

/-- The entries of a value that is a mapping, tags aside; null has none. -/
def entries? (v : Value) : Option Mapping :=
  match v.untag with
  | .mapping m => some m
  | .null => some []
  | _ => none

theorem Proper.entries? (pv : v.Proper) (h : v.entries? = some m) : (mapping m).Proper := by
  rw [Value.entries?] at h
  split at h
  · rename_i heq
    cases h
    exact heq ▸ pv.untag
  · cases h
    exact ⟨rfl, trivial⟩
  · cases h

theorem Thins.entries?_left (h : Thins v w) (hw : w.entries? = some n) :
    ∃ m, v.entries? = some m ∧ Thins (.mapping m) (.mapping n) := by
  have huntag := h.untag
  rw [Value.entries?] at hw ⊢
  split at hw
  · rename_i heq
    cases hw
    rw [heq] at huntag
    obtain ⟨m, hm⟩ := huntag.exists_mapping
    rw [hm] at huntag ⊢
    exact ⟨m, rfl, huntag⟩
  · rename_i heq
    cases hw
    rw [heq] at huntag
    have hv : v.untag = .null := by
      generalize v.untag = x at huntag
      cases huntag
      rfl
    rw [hv]
    exact ⟨[], rfl, .refl _⟩
  · cases hw

theorem Thins.entries?_right (h : Thins v w) (hv : v.entries? = some m) :
    ∃ n, w.entries? = some n ∧ Thins (.mapping m) (.mapping n) := by
  have huntag := h.untag
  rw [Value.entries?] at hv ⊢
  split at hv
  · rename_i heq
    cases hv
    rw [heq] at huntag
    obtain ⟨n, hn⟩ := huntag.exists_mapping'
    rw [hn] at huntag ⊢
    exact ⟨n, rfl, huntag⟩
  · rename_i heq
    cases hv
    rw [heq] at huntag
    rw [huntag.eq_null]
    exact ⟨[], rfl, .refl _⟩
  · cases hv

end Value

theorem Decode.entries_eq_ok_iff {expected : String} {v : Value} {m : Mapping} :
    Decode.entries expected v = .ok m ↔ v.entries? = some m := by
  rw [Decode.entries, Value.entries?]
  split <;> simp_all [Decode.refuse]

/-! ### Records without their nulls -/

namespace Mapping

open Value (Thins ThinsAt thins_mapping_iff exists_same_of_thins asString?_of_same proper_mapping_iff
  same_self same_trans)

variable {m n : Mapping} {known : List String} {key : String}

/-- The entries of a record without some nulls are those of a record. -/
theorem Record.of_thins (hm : m.Record known) (pm : (Value.mapping m).Proper)
    (pn : (Value.mapping n).Proper) (h : Thins (.mapping m) (.mapping n)) : n.Record known where
  texts f hf := by
    obtain ⟨e, he, hsame⟩ := exists_same_of_thins pn h hf
    rw [← asString?_of_same hsame]
    exact hm.texts e he
  once := by
    refine (proper_mapping_iff.1 pn).1.imp_of_mem fun {f g} hf hg hne key hknown hfkey hgkey => ?_
    obtain ⟨e, he, hef⟩ := exists_same_of_thins pn h hf
    obtain ⟨e', he', heg⟩ := exists_same_of_thins pn h hg
    -- two keys with one text would have been two before
    have hentry : e = e' := by
      by_contra hdiff
      have : Std.Symm fun e f : Value × Value =>
          ∀ key ∈ known, e.1.asString? = some key → f.1.asString? ≠ some key :=
        ⟨fun _ _ hr key hknown hx hy => hr key hknown hy hx⟩
      exact hm.once.forall he he' hdiff key hknown
        ((asString?_of_same hef).trans hfkey) ((asString?_of_same heg).trans hgkey)
    subst hentry
    have hkeys := same_trans (((proper_mapping_iff.1 pm).2 e he).1.same_symm
      ((proper_mapping_iff.1 pn).2 f hf).1 hef) heg
    rw [hne] at hkeys
    cases hkeys

/-- **A member of a record** is bound to something thinner, or its null is gone. -/
theorem Record.thinsAt_member? (hm : m.Record known) (pm : (Value.mapping m).Proper)
    (pn : (Value.mapping n).Proper) (h : Thins (.mapping m) (.mapping n)) (hknown : key ∈ known) :
    ThinsAt (m.member? key) (n.member? key) := by
  cases hn : n.member? key with
  | some w =>
    obtain ⟨f, hf, hkey, rfl⟩ := exists_mem_of_member? hn
    have hproper := ((proper_mapping_iff.1 pn).2 f hf).1
    have hat := thins_mapping_iff.1 h f.1 hproper
    rw [valueAt?_of_mem pn hf hproper (same_self _)] at hat
    obtain ⟨v, hv, hvw⟩ := hat.thins
    obtain ⟨e, he, hsame, rfl⟩ := exists_mem_of_valueAt? hv
    rw [hm.member?_of_mem he hknown ((asString?_of_same hsame).trans hkey)]
    exact .kept hvw
  | none =>
    cases hmember : m.member? key with
    | none => exact .absent
    | some v =>
      obtain ⟨e, he, hkey, rfl⟩ := exists_mem_of_member? hmember
      have hproper := ((proper_mapping_iff.1 pm).2 e he).1
      have hat := thins_mapping_iff.1 h e.1 hproper
      rw [valueAt?_of_mem pm he hproper (same_self _)] at hat
      have hnone : n.valueAt? e.1 = none := by
        rw [valueAt?_eq_none_iff, List.any_eq_false]
        intro f hf hsame
        exact member?_eq_none_iff.1 hn f hf ((asString?_of_same hsame).trans hkey)
      rw [hnone] at hat
      obtain heq | heq := hat.eq_none_or_null
      · cases heq
      · rw [heq]
        exact .gone

/-- Entries with plain keys are those of a record. -/
theorem record_of_plain (pm : (Value.mapping m).Proper) (hplain : ∀ e ∈ m, ∃ s, e.1 = .string s)
    (known : List String) : m.Record known where
  texts e he := by
    obtain ⟨s, hs⟩ := hplain e he
    exact ⟨s, by rw [hs]; rfl⟩
  once := by
    refine (proper_mapping_iff.1 pm).1.imp_of_mem fun {e f} he hf hne key _ hekey hfkey => ?_
    obtain ⟨s, hs⟩ := hplain e he
    obtain ⟨s', hs'⟩ := hplain f hf
    rw [hs] at hekey hne
    rw [hs'] at hfkey hne
    cases hekey
    cases hfkey
    simp [Value.same] at hne

end Mapping

/-- A slot that does not tell nulls from nothing. -/
structure Slot.Thinnable {σ : Type} (i : Slot σ) (start : σ) : Prop where
  keeps : ∀ x y a, x.Proper → y.Proper → Value.Thins x y → i.states x a → i.states y a
  null : ∀ a, i.states .null a → a = i.get start

namespace Slots

open Decode

open Value (Thins proper_mapping_iff)

variable {σ ρ : Type} {slots : List (Slot σ)} {rest : σ → ρ} {name : String} {start t : σ}
  {take : σ → String → Value → Except Mismatch σ} {v w : Value}

theorem proper_of_member? {m : Mapping} {key : String} (pm : (Value.mapping m).Proper)
    (h : m.member? key = some v) : v.Proper := by
  obtain ⟨e, he, -, rfl⟩ := Mapping.exists_mem_of_member? h
  exact ((proper_mapping_iff.1 pm).2 e he).2

/-- **A record that can be read says the same without its nulls.** -/
theorem record_of_thins (h : Slots slots rest take) (hslots : ∀ i ∈ slots, i.Thinnable start)
    (pv : v.Proper) (pw : w.Proper) (hvw : Thins v w)
    (hv : record name (slots.map (·.key)) start take v = .ok t) :
    record name (slots.map (·.key)) start take w = .ok t := by
  obtain ⟨m, hm, hrecord, hholds, hrest⟩ := h.record_eq_ok_iff.1 hv
  rw [entries_eq_ok_iff] at hm
  obtain ⟨n, hn, hmn⟩ := hvw.entries?_right hm
  have pm := pv.entries? hm
  have pn := pw.entries? hn
  refine h.record_eq_ok_iff.2 ⟨n, entries_eq_ok_iff.2 hn, hrecord.of_thins pm pn hmn,
    fun i hi => ?_, hrest⟩
  have hheld := hholds i hi
  have hat := hrecord.thinsAt_member? pm pn hmn (List.mem_map_of_mem hi)
  cases hx : m.member? i.key with
  | none =>
    rw [hx] at hat hheld
    rw [hat.eq_none]
    exact hheld
  | some x =>
    rw [hx] at hat hheld
    cases hy : n.member? i.key with
    | none =>
      rw [hy] at hat
      obtain rfl : x = .null := by simpa using hat.eq_none_or_null
      exact (hslots i hi).null _ hheld
    | some y =>
      rw [hy] at hat
      obtain ⟨_, heq, hxy⟩ := hat.thins
      obtain rfl := Option.some_inj.1 heq
      exact (hslots i hi).keeps x y _ (proper_of_member? pm hx) (proper_of_member? pn hy) hxy hheld

/-- **A record with plain keys can be read if it can be read without its nulls**, provided that no null
stands where none can be read, and that what is left of each member can be read as the member. -/
theorem record_of_thinned (h : Slots slots rest take) (pv : v.Proper) (pw : w.Proper)
    (hvw : Thins v w)
    (hplain : ∀ m, v.entries? = some m → (∀ e ∈ m, ∃ s, e.1 = .string s) ∧
      ∀ i ∈ slots, ∀ x, m.member? i.key = some x → (x = .null → i.states .null (i.get start)) ∧
        ∀ y a, y.Proper → Thins x y → i.states y a → i.states x a)
    (hw : record name (slots.map (·.key)) start take w = .ok t) :
    record name (slots.map (·.key)) start take v = .ok t := by
  obtain ⟨n, hn, hrecord, hholds, hrest⟩ := h.record_eq_ok_iff.1 hw
  rw [entries_eq_ok_iff] at hn
  obtain ⟨m, hm, hmn⟩ := hvw.entries?_left hn
  have pm := pv.entries? hm
  have pn := pw.entries? hn
  obtain ⟨hkeys, hmembers⟩ := hplain m hm
  have hrecord' := Mapping.record_of_plain pm hkeys (slots.map (·.key))
  refine h.record_eq_ok_iff.2 ⟨m, entries_eq_ok_iff.2 hm, hrecord', fun i hi => ?_, hrest⟩
  have hheld := hholds i hi
  have hat := hrecord'.thinsAt_member? pm pn hmn (List.mem_map_of_mem hi)
  cases hx : m.member? i.key with
  | none =>
    rw [hx] at hat
    rw [hat.eq_none] at hheld
    exact hheld
  | some x =>
    rw [hx] at hat
    obtain ⟨hnull, hback⟩ := hmembers i hi x hx
    cases hy : n.member? i.key with
    | none =>
      rw [hy] at hat hheld
      obtain rfl : x = .null := by simpa using hat.eq_none_or_null
      have hstart : i.get t = i.get start := hheld
      exact (congrArg (i.states .null) hstart).mpr (hnull rfl)
    | some y =>
      rw [hy] at hat hheld
      obtain ⟨_, heq, hxy⟩ := hat.thins
      obtain rfl := Option.some_inj.1 heq
      exact hback y _ (proper_of_member? pn hy) hxy hheld

end Slots

/-! ### Contents that are no mappings -/

/-- A reading of values that are no mappings, tags aside. -/
def Decode.Flat {α : Type} (d : Decoder α) : Prop :=
  ∀ v a, d v = .ok a → ∀ m, v.untag ≠ .mapping m

section Flat

variable {σ α : Type} {d : Decoder α} {key : String} {get : σ → α} {set : α → σ → σ} {start : σ}

/-- A slot of contents that are no mappings, which does not tell null from nothing. -/
structure Slot.Flat (i : Slot σ) (start : σ) : Prop where
  flat : ∀ v a, i.states v a → ∀ m, v.untag ≠ .mapping m
  null : ∀ a, i.states .null a → a = i.get start

theorem Slot.Flat.thinnable {i : Slot σ} (h : i.Flat start) : i.Thinnable start where
  keeps x _ a _ _ hxy hx := hxy.eq_of_untag_ne (h.flat x a hx) ▸ hx
  null := h.null

/-- What is flat has not got thinner. -/
theorem Slot.Flat.eq_of_thins {i : Slot σ} (h : i.Flat start) {x y : Value} {a : i.α}
    (hxy : Value.Thins x y) (hy : i.states y a) : x = y :=
  hxy.eq_of_untag_ne (hxy.untag_ne (h.flat y a hy))

theorem Decode.Flat.slot (hd : Decode.Flat d) (hnull : ∀ a, d .null = .ok a → a = get start) :
    (Slot.single key d get set).Flat start where
  flat := hd
  null := hnull

theorem Decode.flat_stringAs (expected : String) : Decode.Flat (Decode.stringAs expected) := by
  intro v a h m heq
  rw [Decode.stringAs, heq] at h
  cases h

theorem Decode.flat_bool : Decode.Flat Decode.bool := by
  intro v a h m heq
  rw [Decode.bool, heq] at h
  cases h

theorem Decode.flat_list (d : Decoder α) : Decode.Flat (Decode.list d) := by
  intro v a h m heq
  rw [Decode.list, heq] at h
  cases h

theorem Decode.Flat.optional (hd : Decode.Flat d) : Decode.Flat (Decode.optional d) := by
  intro v a h m heq
  cases hv : d v with
  | error e =>
    cases v with
    | null => cases heq
    | _ =>
      change (d _).map some = _ at h
      rw [hv] at h
      cases h
  | ok b => exact hd v b hv m heq

theorem Decode.flat_oneOf (known : List (String × α)) : Decode.Flat (Decode.oneOf known) := by
  intro v a h m heq
  cases v with
  | tagged tag content =>
    have hcontent : content.untag = .mapping m := heq
    rw [Decode.oneOf] at h
    obtain ⟨b, -, h⟩ := except_bind_eq_ok_iff.1 h
    rw [hcontent] at h
    cases h
  | mapping => cases h
  | _ => cases heq

end Flat

end SiteConfig.Yaml
