import Mathlib
import SiteConfig.Proofs.Layering
import SiteConfig.Proofs.Reordering

/-!
# What sameness tells apart

A value is looked into by **turns**: to what a key is bound to, to an item of a sequence, to what
stands beneath a tag (`SiteConfig.Yaml.Turn`). Two values are the same exactly when, along whatever
turns, there is nothing in both of them or something with the same **face** in both
(`SiteConfig.Yaml.Value.same_iff_forall_along`): the face tells the kind of a value and, of a
scalar, which one it is, but nothing of what is within it.

So sameness misses no difference in kind and no item out of its place, however deep it is. What it
does not see is the order of keys (`SiteConfig.Yaml.Value.Reordered`); and sameness except for some
keys is sameness of what is left once they have been stripped
(`SiteConfig.Document.sameness_of_contents`).
-/

namespace SiteConfig

namespace Yaml

/-- What is related in both of two options is so in any weaker way. -/
theorem rel_imp {α : Type} {r s : α → α → Prop} (h : ∀ {a b}, r a b → s a b) {x y : Option α}
    (hxy : Option.Rel r x y) : Option.Rel s x y := by
  cases hxy with
  | none => exact .none
  | some hab => exact .some (h hab)

/-- What is related in both of two options is so the other way round. -/
theorem rel_swap {α : Type} {r : α → α → Prop} {x y : Option α} (hxy : Option.Rel r x y) :
    Option.Rel (fun a b => r b a) y x := by
  cases hxy with
  | none => exact .none
  | some hab => exact .some hab

/-- Where everything on the left has a partner of its own, there is at least as much on the
right. -/
theorem length_le_of_partners {α β : Type} {r : α → β → Prop} {l : List α} {m : List β}
    (hr : ∀ a ∈ l, ∃ b ∈ m, r a b) (hinj : l.Pairwise fun a a' => ∀ b ∈ m, r a b → ¬r a' b) :
    l.length ≤ m.length := by
  choose partner hmem hrel using hr
  have hnodup : (l.pmap partner fun _ h => h).Nodup := by
    refine (List.pairwise_pmap _).2 (hinj.imp fun {a a'} h ha ha' heq => ?_)
    exact h _ (hmem a ha) (hrel a ha) (heq ▸ hrel a' ha')
  have hsub : l.pmap partner (fun _ h => h) ⊆ m := by
    intro b hb
    obtain ⟨a, ha, rfl⟩ := List.mem_pmap.1 hb
    exact hmem a ha
  rw [← List.length_pmap (f := partner) (H := fun _ h => h)]
  exact (hnodup.subperm hsub).length_le

/-- One step from a value to something within it. -/
inductive Turn
  | key (k : {k : Value // k.Proper})
  | item (i : ℕ)
  | content

namespace Mapping

variable {a b : Mapping} {k : Value}

/-- Mappings that are the same bind every key alike. -/
theorem rel_valueAt? (ha : (Value.mapping a).Proper) (hb : (Value.mapping b).Proper)
    (hk : k.Proper) (h : a.same b = true) :
    Option.Rel (fun v w => v.same w = true) (a.valueAt? k) (b.valueAt? k) := by
  have hfound : ∀ {m l : Mapping} {v : Value}, (Value.mapping m).Proper → (Value.mapping l).Proper →
      m.same l = true → m.valueAt? k = some v → ∃ w, l.valueAt? k = some w ∧ v.same w = true := by
    intro m l v hm hl hml hv
    rw [Mapping.same, Bool.and_eq_true, Value.sameEntries_iff] at hml
    obtain ⟨e, he, hek, rfl⟩ := exists_mem_of_valueAt? hv
    obtain ⟨f, hf, hkey, hval⟩ := hml.2 e he
    have hfe := ((Value.proper_mapping_iff.1 hm).2 e he).1.same_symm
      ((Value.proper_mapping_iff.1 hl).2 f hf).1 hkey
    exact ⟨f.2, valueAt?_of_mem hl hf hk (Value.same_trans hfe hek), hval⟩
  rcases hv : a.valueAt? k with _ | v
  · rcases hw : b.valueAt? k with _ | w
    · exact .none
    · obtain ⟨v, hv', -⟩ := hfound hb ha (Value.Proper.same_symm ha hb h) hw
      rw [hv] at hv'
      cases hv'
  · obtain ⟨w, hw, hvw⟩ := hfound ha hb h hv
    rw [hw]
    exact .some hvw

end Mapping

namespace Value

variable {v w x : Value}

/-! ### Looking into values -/

/-- What one turn leads to. -/
def part? : Value → Turn → Option Value
  | .mapping m, .key k => Mapping.valueAt? m k.1
  | .sequence xs, .item i => xs[i]?
  | .tagged _ v, .content => some v
  | _, _ => none

/-- What some turns lead to, one after the other. -/
def along? (v : Value) (p : List Turn) : Option Value := p.foldlM part? v

@[simp] theorem along?_nil (v : Value) : v.along? [] = some v := rfl

theorem along?_cons (v : Value) (t : Turn) (p : List Turn) :
    v.along? (t :: p) = (v.part? t).bind (·.along? p) := rfl

theorem Proper.part? {t : Turn} (hv : v.Proper) (h : v.part? t = some x) : x.Proper := by
  cases v <;> cases t <;> simp only [Value.part?, reduceCtorEq, Option.some.injEq] at h
  case sequence.item xs i =>
    rw [Proper, properItems_iff] at hv
    exact hv x (List.mem_of_getElem? h)
  case mapping.key m k => exact Mapping.proper_of_valueAt? hv h
  case tagged.content t v =>
    rw [Proper] at hv
    exact h ▸ hv

/-- The same turn leads to the same. -/
theorem Proper.rel_part? (hv : v.Proper) (hw : w.Proper) (h : v.same w = true) (t : Turn) :
    Option.Rel (fun x y => x.same y = true) (v.part? t) (w.part? t) := by
  cases v <;> cases w <;> simp only [Value.same, Bool.false_eq_true] at h <;> cases t <;>
    try exact .none
  case sequence.sequence.item xs ys i =>
    have hitems := List.forall₂_iff_get.1 (sameItems_iff.1 h)
    simp only [Value.part?]
    rcases Nat.lt_or_ge i xs.length with hi | hi
    · rw [List.getElem?_eq_getElem hi, List.getElem?_eq_getElem (hitems.1 ▸ hi)]
      exact .some (hitems.2 i hi (hitems.1 ▸ hi))
    · rw [List.getElem?_eq_none hi, List.getElem?_eq_none (hitems.1 ▸ hi)]
      exact .none
  case mapping.mapping.key a b k => exact Mapping.rel_valueAt? hv hw k.2 h
  case tagged.tagged.content => exact .some (Bool.and_eq_true_iff.1 h).2

/-- The same turns lead to the same. -/
theorem Proper.rel_along? (hv : v.Proper) (hw : w.Proper) (h : v.same w = true) (p : List Turn) :
    Option.Rel (fun x y => x.same y = true) (v.along? p) (w.along? p) := by
  induction p generalizing v w with
  | nil => exact .some h
  | cons t p ih =>
    rw [along?_cons, along?_cons]
    have hparts := hv.rel_part? hw h t
    rcases hx : v.part? t with _ | x <;> rcases hy : w.part? t with _ | y <;>
      rw [hx, hy] at hparts <;> cases hparts
    · exact .none
    · rename_i hxy
      exact ih (hv.part? hx) (hw.part? hy) hxy

/-! ### Faces -/

/-- **The same face**: one kind and, if they are scalars, one content. -/
def SameFace : Value → Value → Prop
  | .null, .null => True
  | .bool a, .bool b => a = b
  | .number a, .number b => a.same b = true
  | .string a, .string b => a = b
  | .sequence _, .sequence _ => True
  | .mapping _, .mapping _ => True
  | .tagged s _, .tagged t _ => s = t
  | _, _ => False

theorem SameFace.symm (h : v.SameFace w) : w.SameFace v := by
  cases v <;> cases w <;> simp_all [SameFace, Number.same_symm]

theorem sameFace_of_same (h : v.same w = true) : v.SameFace w := by
  cases v <;> cases w <;> simp_all [Value.same, SameFace]

/-- The face tells integers from floats, and either from strings. -/
theorem SameFace.kind_eq (h : v.SameFace w) : v.kind = w.kind := by
  cases v <;> cases w <;> simp only [SameFace] at h <;> try rfl
  case number.number a b => cases a <;> cases b <;> simp_all [Number.same, kind]

/-- What a turn leads to on the one side it leads to on the other one, and the turns after it show
nothing else. -/
theorem exists_part?_of_along {t : Turn} (h : ∀ p, Option.Rel SameFace (v.along? p) (w.along? p))
    (hx : v.part? t = some x) :
    ∃ y, w.part? t = some y ∧ ∀ p, Option.Rel SameFace (x.along? p) (y.along? p) := by
  rcases hy : w.part? t with _ | y
  · have hturn := h [t]
    rw [along?_cons, along?_cons, hx, hy] at hturn
    cases hturn
  · refine ⟨y, rfl, fun p => ?_⟩
    have hturn := h (t :: p)
    rwa [along?_cons, along?_cons, hx, hy] at hturn

theorem rel_along?_symm (h : ∀ p, Option.Rel SameFace (v.along? p) (w.along? p)) (p : List Turn) :
    Option.Rel SameFace (w.along? p) (v.along? p) := rel_imp SameFace.symm (rel_swap (h p))

theorem length_le_of_along_sequence {xs ys : List Value}
    (h : ∀ p, Option.Rel SameFace ((sequence xs).along? p) ((sequence ys).along? p)) :
    xs.length ≤ ys.length := by
  by_contra! hlt
  obtain ⟨y, hy, -⟩ := exists_part?_of_along h (t := .item ys.length) (List.getElem?_eq_getElem hlt)
  simp [Value.part?] at hy

/-- The key of an entry leads to an entry with the same key. -/
theorem exists_entry_of_along {a b : Mapping} (ha : (mapping a).Proper) (hb : (mapping b).Proper)
    (h : ∀ p, Option.Rel SameFace ((mapping a).along? p) ((mapping b).along? p))
    {e : Value × Value} (he : e ∈ a) :
    ∃ f ∈ b, e.1.same f.1 = true ∧ ∀ p, Option.Rel SameFace (e.2.along? p) (f.2.along? p) := by
  have hk := ((proper_mapping_iff.1 ha).2 e he).1
  obtain ⟨y, hy, halong⟩ := exists_part?_of_along h (t := .key ⟨e.1, hk⟩)
    (Mapping.valueAt?_of_mem ha he hk (same_self e.1))
  obtain ⟨f, hf, hfe, rfl⟩ := Mapping.exists_mem_of_valueAt? hy
  exact ⟨f, hf, ((proper_mapping_iff.1 hb).2 f hf).1.same_symm hk hfe, halong⟩

theorem length_le_of_along_mapping {a b : Mapping} (ha : (mapping a).Proper)
    (hb : (mapping b).Proper)
    (h : ∀ p, Option.Rel SameFace ((mapping a).along? p) ((mapping b).along? p)) :
    a.length ≤ b.length := by
  refine length_le_of_partners (r := fun e f => e.1.same f.1 = true) (fun e he => ?_) ?_
  · obtain ⟨f, hf, hef, -⟩ := exists_entry_of_along ha hb h he
    exact ⟨f, hf, hef⟩
  · obtain ⟨hdistinct, hparts⟩ := proper_mapping_iff.1 ha
    refine hdistinct.imp_of_mem fun {e e'} _ he' hne f hf hef hef' => ?_
    have hback := (hparts e' he').1.same_symm ((proper_mapping_iff.1 hb).2 f hf).1 hef'
    rw [same_trans hef hback] at hne
    cases hne

/-- Sequences are the same when their items are, one by one. -/
theorem same_sequence_of_along {xs ys : List Value}
    (h : ∀ p, Option.Rel SameFace ((sequence xs).along? p) ((sequence ys).along? p))
    (ih : ∀ x ∈ xs, ∀ y ∈ ys, (∀ p, Option.Rel SameFace (x.along? p) (y.along? p)) →
      x.same y = true) : (sequence xs).same (sequence ys) = true := by
  have hlen := le_antisymm (length_le_of_along_sequence h)
    (length_le_of_along_sequence (rel_along?_symm h))
  rw [Value.same, sameItems_iff, List.forall₂_iff_get]
  refine ⟨hlen, fun i hi hj => ?_⟩
  obtain ⟨y, hy, halong⟩ := exists_part?_of_along h (t := .item i) (List.getElem?_eq_getElem hi)
  cases (List.getElem?_eq_getElem hj).symm.trans hy
  exact ih _ (List.getElem_mem hi) _ (List.getElem_mem hj) halong

/-- Mappings are the same when what they bind is, key by key. -/
theorem same_mapping_of_along {a b : Mapping} (ha : (mapping a).Proper) (hb : (mapping b).Proper)
    (h : ∀ p, Option.Rel SameFace ((mapping a).along? p) ((mapping b).along? p))
    (ih : ∀ e ∈ a, ∀ f ∈ b, (∀ p, Option.Rel SameFace (e.2.along? p) (f.2.along? p)) →
      e.2.same f.2 = true) : (mapping a).same (mapping b) = true := by
  have hlen := le_antisymm (length_le_of_along_mapping ha hb h)
    (length_le_of_along_mapping hb ha (rel_along?_symm h))
  rw [Value.same, Bool.and_eq_true, beq_iff_eq, sameEntries_iff]
  refine ⟨hlen, fun e he => ?_⟩
  obtain ⟨f, hf, hkey, halong⟩ := exists_entry_of_along ha hb h he
  exact ⟨f, hf, hkey, ih e he f hf halong⟩

theorem same_of_forall_along (hv : v.Proper) (hw : w.Proper)
    (h : ∀ p, Option.Rel SameFace (v.along? p) (w.along? p)) : v.same w = true := by
  induction hn : sizeOf v using Nat.strong_induction_on generalizing v w with
  | _ n ih =>
    subst hn
    have hface := h []
    rw [along?_nil, along?_nil] at hface
    rcases hface with hface | -
    cases v <;> cases w <;> simp only [SameFace] at hface
    case null.null => rfl
    case bool.bool => exact beq_iff_eq.2 hface
    case number.number => exact hface
    case string.string => exact beq_iff_eq.2 hface
    case sequence.sequence xs ys =>
      rw [Proper, properItems_iff] at hv hw
      exact same_sequence_of_along h fun x hx y hy halong =>
        ih _ (sizeOf_lt_of_mem_items hx) (hv x hx) (hw y hy) halong rfl
    case mapping.mapping a b =>
      refine same_mapping_of_along hv hw h fun e he f hf halong => ?_
      have pe := ((proper_mapping_iff.1 hv).2 e he).2
      have pf := ((proper_mapping_iff.1 hw).2 f hf).2
      exact ih _ (sizeOf_lt_of_mem_entries he).2 pe pf halong rfl
    case tagged.tagged t v u w =>
      rw [Proper] at hv hw
      rw [Value.same, Bool.and_eq_true, beq_iff_eq]
      obtain ⟨y, hy, halong⟩ := exists_part?_of_along h (t := .content) (x := v) rfl
      cases hy
      exact ⟨hface, ih _ (by simp) hv hw halong rfl⟩

/-- **Values are the same when nothing within them shows a difference.** -/
theorem same_iff_forall_along (hv : v.Proper) (hw : w.Proper) :
    v.same w = true ↔ ∀ p, Option.Rel SameFace (v.along? p) (w.along? p) :=
  ⟨fun h p => rel_imp sameFace_of_same (hv.rel_along? hw h p), same_of_forall_along hv hw⟩

/-! ### Other orders of keys -/

/-- Keys that are the same come from keys that are, when each key has one that it comes from. -/
theorem pairwise_of_same_keys {xs ys : Mapping} (px : (mapping xs).Proper)
    (hlen : xs.length = ys.length)
    (hkey : ∀ i (hx : i < xs.length) (hy : i < ys.length), xs[i].1.same ys[i].1 = true)
    (hkeys : ∀ i (_ : i < xs.length) (hy : i < ys.length), ys[i].1.Proper) :
    ys.Pairwise fun e f => ¬e.1.same f.1 = true ∧ ¬f.1.same e.1 = true := by
  obtain ⟨hdistinct, hparts⟩ := proper_mapping_iff.1 px
  rw [List.pairwise_iff_getElem] at hdistinct ⊢
  intro i j hi hj hij
  have hi' := hlen.symm ▸ hi
  have hj' := hlen.symm ▸ hj
  have hne : ¬ys[i].1.same ys[j].1 = true := fun hsame => by
    have hback := (hparts _ (List.getElem_mem hj')).1.same_symm (hkeys j hj' hj) (hkey j hj' hj)
    have hall := same_trans (same_trans (hkey i hi' hi) hsame) hback
    rw [hdistinct i j hi' hj' hij] at hall
    cases hall
  exact ⟨hne, fun hsame => hne ((hkeys j hj' hj).same_symm (hkeys i hi' hi) hsame)⟩

/-- In another order, too, no key is repeated. -/
theorem Reordered.proper (h : v.Reordered w) (hv : v.Proper) : w.Proper := by
  induction h with
  | null => exact hv
  | bool => exact hv
  | number => exact hv
  | string => exact hv
  | @sequence xs ys hlen _ ih =>
    rw [Proper, properItems_iff] at hv ⊢
    intro y hy
    obtain ⟨i, hi, rfl⟩ := List.getElem_of_mem hy
    exact ih i (hlen ▸ hi) hi (hv _ (List.getElem_mem _))
  | @mapping xs ys zs hperm hlen hkey _ ihkey ihval =>
    obtain ⟨-, hparts⟩ := proper_mapping_iff.1 hv
    have hkeys : ∀ i (hx : i < xs.length) (hy : i < ys.length), ys[i].1.Proper := fun i hx hy =>
      ihkey i hx hy (hparts _ (List.getElem_mem hx)).1
    have hys := pairwise_of_same_keys hv hlen (fun i hx hy => (hkey i hx hy).same) hkeys
    have hzs := hperm.pairwise hys fun h => ⟨h.2, h.1⟩
    refine proper_mapping_iff.2 ⟨hzs.imp fun h => Bool.eq_false_iff.2 h.1, fun e he => ?_⟩
    obtain ⟨i, hi, rfl⟩ := List.getElem_of_mem (hperm.symm.subset he)
    have hi' := hlen.symm ▸ hi
    exact ⟨hkeys i hi' hi, ihval i hi' hi (hparts _ (List.getElem_mem hi')).2⟩
  | tagged t _ ih =>
    rw [Proper] at hv ⊢
    exact ih hv

end Value

end Yaml

open Yaml

namespace Document

variable {a b d : Document}

/-- What some turns lead to from the data of a document. -/
def along? (d : Document) (p : List Turn) : Option Value := (Value.mapping d.data).along? p

/-- **Sameness is an equivalence**, on documents without repeated keys. -/
theorem equivalence_sameContent :
    Equivalence fun d e : {d : Document // d.Proper} => d.1.sameContent e.1 = true where
  refl d := d.1.sameContent_self
  symm {d e} h := d.2.sameContent_symm e.2 h
  trans h h' := sameContent_trans h h'

/-- **The order of keys does not count**, at whatever depth: what is in another order has the same
content as the same documents. -/
theorem Proper.sameContent_congr (pa : a.Proper)
    (h : (Value.mapping a.data).Reordered (.mapping b.data)) :
    b.Proper ∧ ∀ c : Document, a.sameContent c = b.sameContent c ∧
      c.sameContent a = c.sameContent b := by
  have pb : b.Proper := h.proper pa
  have hab : a.sameContent b = true := h.same
  have hba := pa.sameContent_symm pb hab
  refine ⟨pb, fun c => ⟨Bool.eq_iff_iff.2 ⟨fun hc => ?_, fun hc => ?_⟩,
    Bool.eq_iff_iff.2 ⟨fun hc => ?_, fun hc => ?_⟩⟩⟩
  · exact sameContent_trans hba hc
  · exact sameContent_trans hab hc
  · exact sameContent_trans hc hab
  · exact sameContent_trans hc hba

/-- What is found along the same turns in documents with the same content. -/
theorem Proper.same_of_along (pa : a.Proper) (pb : b.Proper) (h : a.sameContent b = true)
    {p : List Turn} {v w : Value} (hv : a.along? p = some v) (hw : b.along? p = some w) :
    v.same w = true := by
  have hrel := Value.Proper.rel_along? pa pb h p
  rw [along?] at hv hw
  rw [hv, hw] at hrel
  cases hrel
  assumption

/-! ### Stripped keys -/

/-- Stripping keys that have been stripped changes nothing. -/
theorem removeAll_removeAll (d : Document) (keys : List String) :
    (d.removeAll keys).removeAll keys = d.removeAll keys := by
  rw [removeAll_eq, removeAll_eq d, List.filter_filter]
  simp only [Bool.and_self]

/-- Which keys are stripped is all that counts, not how they are listed. -/
theorem removeAll_congr {keys keys' : List String} (h : ∀ key, key ∈ keys' ↔ key ∈ keys)
    (d : Document) : d.removeAll keys' = d.removeAll keys := by
  rw [removeAll_eq, removeAll_eq d]
  refine congrArg _ (List.filter_congr fun e _ => ?_)
  rw [Bool.eq_iff_iff, List.all_eq_true, List.all_eq_true]
  simp only [h]

/-- **What counts as a change.** The same content is an equivalence, which the order of keys is
nothing to, at whatever depth, and which every other difference breaks: a part of another kind,
items in another order, a part that is missing. The same content except for some keys is the same
content of what is left when these are stripped; all that counts for this are which keys they are,
and the other keys stay where they are. -/
theorem sameness_of_contents (pa : a.Proper) (pb : b.Proper) (keys : List String) :
    (Equivalence fun d e : {d : Document // d.Proper} => d.1.sameContent e.1 = true) ∧
      (∀ a' : Document, (Value.mapping a.data).Reordered (.mapping a'.data) →
        a'.Proper ∧ ∀ c : Document, a.sameContent c = a'.sameContent c ∧
          c.sameContent a = c.sameContent a') ∧
      (a.sameContent b = true ↔ ∀ p, Option.Rel Value.SameFace (a.along? p) (b.along? p)) ∧
      (∀ p v w, a.along? p = some v → b.along? p = some w → v.kind ≠ w.kind →
        a.sameContent b = false) ∧
      (∀ p xs ys, a.along? p = some (.sequence xs) → b.along? p = some (.sequence ys) →
        ¬List.Forall₂ (fun x y => x.same y = true) xs ys → a.sameContent b = false) ∧
      (sameContentExcept keys a b = true ↔ ∃ a' b', (Transform.stripKeys keys).apply a = some a' ∧
        (Transform.stripKeys keys).apply b = some b' ∧ a'.sameContent b' = true) ∧
      ∃ a', (Transform.stripKeys keys).apply a = some a' ∧
        (Transform.stripKeys keys).apply a' = some a' ∧
        a' = ⟨a.name, a.data.filter fun e => keys.all fun key => !Mapping.hasKey key e⟩ ∧
        ∀ keys', (∀ key, key ∈ keys' ↔ key ∈ keys) →
          (Transform.stripKeys keys').apply a = some a' := by
  refine ⟨equivalence_sameContent, fun a' h => pa.sameContent_congr h,
    Value.same_iff_forall_along pa pb, fun p v w hv hw hkind => ?_,
    fun p xs ys hxs hys hitems => ?_, ?_, a.removeAll keys, rfl,
    congrArg some (a.removeAll_removeAll keys), removeAll_eq a keys,
    fun keys' h => congrArg some (removeAll_congr h a)⟩
  · rw [← Bool.not_eq_true]
    intro h
    exact hkind (Value.sameFace_of_same (pa.same_of_along pb h hv hw)).kind_eq
  · rw [← Bool.not_eq_true]
    intro h
    have hsame := pa.same_of_along pb h hxs hys
    rw [Value.same] at hsame
    exact hitems (Value.sameItems_iff.1 hsame)
  · constructor
    · intro h
      exact ⟨a.removeAll keys, b.removeAll keys, rfl, rfl, h⟩
    · rintro ⟨a', b', ha, hb, h⟩
      cases ha
      cases hb
      exact h

/-- A document with a mapping and a sequence inside. -/
def menu : Document :=
  ⟨"menu", [(.string "items", .mapping [(.string "home", .number (.int 1)),
    (.string "about", .sequence [.string "1", .number (.float .nan)])]), (.string "_core", .null)]⟩

/-- The same document without one of its keys, and with the others in another order. -/
def menuRewritten : Document :=
  ⟨"menu", [(.string "items", .mapping [(.string "about", .sequence [.string "1",
    .number (.float .nan)]), (.string "home", .number (.int 1))])]⟩

theorem proper_menu : menu.Proper := by
  simp [Proper, menu, Value.Proper, Value.ProperEntries, Value.ProperItems, Mapping.hasDuplicate,
    Value.same]

theorem proper_menuRewritten : menuRewritten.Proper := by
  simp [Proper, menuRewritten, Value.Proper, Value.ProperEntries, Value.ProperItems,
    Mapping.hasDuplicate, Value.same]

theorem sameness_of_menus : menu.Proper ∧ menuRewritten.Proper ∧
    menu.sameContent menuRewritten = false ∧
    sameContentExcept ["_core"] menu menuRewritten = true ∧
    ∃ a' b', (Transform.stripKeys ["_core"]).apply menu = some a' ∧
      (Transform.stripKeys ["_core"]).apply menuRewritten = some b' ∧ a'.sameContent b' = true := by
  have hexcept : sameContentExcept ["_core"] menu menuRewritten = true := by rfl
  have hlaws := sameness_of_contents proper_menu proper_menuRewritten ["_core"]
  exact ⟨proper_menu, proper_menuRewritten, rfl, hexcept, hlaws.2.2.2.2.2.1.1 hexcept⟩

end Document

end SiteConfig
