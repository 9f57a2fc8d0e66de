import Mathlib
import SiteConfig.Proofs.Content
import SiteConfig.Yaml.Reader

/-!
# Values that were read

A text that repeats a key in a mapping has no value, also when the mapping is one that an alias
stands for. So every value that is read is proper (`SiteConfig.Yaml.proper_of_read`).
-/

namespace SiteConfig.Yaml

open Value (Proper)

/-! ### Steps that may fail -/

namespace Expansion

variable {α β : Type} {c c' : Nat}

theorem run_bind_eq_some_iff {x : Expansion α} {f : α → Expansion β} {b : β} :
    (x >>= f).run c = some (b, c') ↔
      ∃ a c₁, x.run c = some (a, c₁) ∧ (f a).run c₁ = some (b, c') := by
  rw [StateT.run_bind]
  constructor
  · intro h
    obtain ⟨⟨a, c₁⟩, ha, hb⟩ := Option.bind_eq_some_iff.1 h
    exact ⟨a, c₁, ha, hb⟩
  · rintro ⟨a, c₁, ha, hb⟩
    exact Option.bind_eq_some_iff.2 ⟨(a, c₁), ha, hb⟩

theorem run_lift_eq_some_iff {x : Option α} {a : α} :
    (StateT.lift x : Expansion α).run c = some (a, c') ↔ x = some a ∧ c = c' := by
  cases x <;> simp [StateT.lift, StateT.run]

/-- What is true of all that a function gives is true of what it gives for the items of a list. -/
theorem forall_of_mapM {f : α → Expansion β} {P : β → Prop}
    (hf : ∀ a c b c', (f a).run c = some (b, c') → P b) {l : List α} {bs : List β}
    (h : (l.mapM f).run c = some (bs, c')) : ∀ b ∈ bs, P b := by
  induction l generalizing c bs with
  | nil =>
    rw [List.mapM_nil] at h
    cases h
    nofun
  | cons a l ih =>
    rw [List.mapM_cons, run_bind_eq_some_iff] at h
    obtain ⟨b, c₁, hb, h⟩ := h
    obtain ⟨bs', c₂, hbs, h⟩ := run_bind_eq_some_iff.1 h
    cases h
    exact List.forall_mem_cons.2 ⟨hf _ _ _ _ hb, ih hbs⟩

end Expansion

/-! ### Scalars -/

theorem proper_of_withTag {tag : Option String} {v w : Value} (pv : v.Proper)
    (h : withTag tag v = some w) : w.Proper := by
  rw [withTag] at h
  split at h <;> cases h <;> exact pv

theorem proper_of_plainValue? {s : String} {v : Value} (h : plainValue? s = some v) : v.Proper := by
  rw [plainValue?] at h
  split at h <;> cases h <;> trivial

theorem proper_of_scalarValue? {tag : Option String} {style : ScalarStyle} {s : String} {v : Value}
    (h : scalarValue? tag style s = some v) : v.Proper := by
  rw [scalarValue?.eq_def] at h
  split at h
  · split at h
    · exact proper_of_plainValue? h
    · cases h
      trivial
  · obtain ⟨b, -, rfl⟩ := Option.map_eq_some_iff.1 h
    trivial
  · split at h <;> cases h
    trivial
  · obtain ⟨x, -, rfl⟩ := Option.map_eq_some_iff.1 h
    trivial
  · split at h <;> cases h
    trivial
  · cases h
    trivial

namespace Node

theorem proper_of_scalarNode? {tag : Option String} {style : ScalarStyle} {s : String} {v : Value}
    (h : scalarNode? tag style s = some v) : v.Proper := by
  rw [scalarNode?] at h
  split at h
  · obtain ⟨w, hw, hv⟩ := Option.bind_eq_some_iff.1 h
    refine proper_of_withTag ?_ hv
    split at hw
    · exact proper_of_plainValue? hw
    · cases hw
      trivial
  · exact proper_of_scalarValue? h

/-! ### Nodes -/

/-- The value of a node that is no alias, given how those of its parts are found, if collections may
have any. -/
def ofParts (part : Option (Node → Expansion Value)) : Node → Expansion Value
  | .scalar tag style s => StateT.lift (scalarNode? tag style s)
  | .sequence tag items =>
    match part with
    | some value => do StateT.lift (withTag tag (.sequence (← items.mapM value)))
    | none => failure
  | .mapping tag entries =>
    match part with
    | some value => do
      let entries ← entries.mapM fun e => do
        let k ← value e.1
        let v ← value e.2
        return (k, v)
      if Mapping.hasDuplicate entries then failure
      else StateT.lift (withTag tag (.mapping entries))
    | none => failure
  | .alias _ => failure

theorem value_zero (slots : List (Nat × Node)) (limit : Nat) (n : Node) :
    n.value slots limit 0 = follow slots limit n >>= ofParts none := by
  delta Node.value
  refine congrArg (follow slots limit n >>= ·) (funext fun m => ?_)
  cases m <;> rfl

theorem value_succ (slots : List (Nat × Node)) (limit depth : Nat) (n : Node) :
    n.value slots limit (depth + 1) =
      follow slots limit n >>= ofParts (some (value slots limit depth)) := by
  delta Node.value
  refine congrArg (follow slots limit n >>= ·) (funext fun m => ?_)
  cases m <;> rfl

/-- A node with proper parts is proper, as a mapping with a repeated key has no value. -/
theorem proper_of_ofParts {part : Option (Node → Expansion Value)} {n : Node} {c c' : Nat} {v : Value}
    (hpart : ∀ value, part = some value → ∀ n c w c', (value n).run c = some (w, c') → w.Proper)
    (h : (ofParts part n).run c = some (v, c')) : v.Proper := by
  cases n with
  | scalar tag style s => exact proper_of_scalarNode? (Expansion.run_lift_eq_some_iff.1 h).1
  | sequence tag items =>
    cases part with
    | none => cases h
    | some value =>
      obtain ⟨vs, c₁, hvs, h⟩ := Expansion.run_bind_eq_some_iff.1 h
      refine proper_of_withTag ?_ (Expansion.run_lift_eq_some_iff.1 h).1
      rw [Proper, Value.properItems_iff]
      exact Expansion.forall_of_mapM (hpart value rfl) hvs
  | mapping tag entries =>
    cases part with
    | none => cases h
    | some value =>
      obtain ⟨m, c₁, hm, h⟩ := Expansion.run_bind_eq_some_iff.1 h
      split at h
      · cases h
      · rename_i hnew
        refine proper_of_withTag ?_ (Expansion.run_lift_eq_some_iff.1 h).1
        rw [Proper, Value.properEntries_iff]
        refine ⟨Bool.eq_false_iff.2 hnew, Expansion.forall_of_mapM (fun e c f c' he => ?_) hm⟩
        obtain ⟨k, c₂, hk, he⟩ := Expansion.run_bind_eq_some_iff.1 he
        obtain ⟨w, c₃, hw, he⟩ := Expansion.run_bind_eq_some_iff.1 he
        cases he
        exact ⟨hpart value rfl _ _ _ _ hk, hpart value rfl _ _ _ _ hw⟩
  | «alias» slot => cases h

/-- **The value of a node is proper.** -/
theorem proper_of_value {slots : List (Nat × Node)} {limit depth : Nat} {n : Node} {c c' : Nat}
    {v : Value} (h : (n.value slots limit depth).run c = some (v, c')) : v.Proper := by
  induction depth generalizing n c v c' with
  | zero =>
    rw [value_zero] at h
    obtain ⟨m, c₁, -, h⟩ := Expansion.run_bind_eq_some_iff.1 h
    exact proper_of_ofParts (fun _ hnone => by cases hnone) h
  | succ depth ih =>
    rw [value_succ] at h
    obtain ⟨m, c₁, -, h⟩ := Expansion.run_bind_eq_some_iff.1 h
    refine proper_of_ofParts ?_ h
    intro value heq n c w c' hw
    cases heq
    exact ih hw

end Node

/-- **What is read is proper**: no mapping within it repeats a key. -/
theorem proper_of_read {text : String} {v : Value} (h : read text = .ok v) : v.Proper := by
  rw [read] at h
  split at h
  · cases h
  · cases h
    trivial
  · rename_i t _
    split at h
    · rename_i w hw
      cases h
      rw [Tree.value?] at hw
      obtain ⟨⟨u, c⟩, hrun, rfl⟩ := Option.map_eq_some_iff.1 hw
      exact Node.proper_of_value hrun
    · cases h

end SiteConfig.Yaml
