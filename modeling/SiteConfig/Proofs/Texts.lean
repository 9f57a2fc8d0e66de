import Mathlib
import SiteConfig.Document
import SiteConfig.Proofs.Outcome

/-!
# Texts that say what was written

A mapping that is written and read again is the same mapping, most of the time. It is not when a
tag has a comma or a bracket inside: such a character is written as it is, and then it ends the tag,
since it could belong to a flow collection (`SiteConfig.Yaml.not_readsBack_tag`).

So whatever depends on documents that are kept as texts has to say that they read back
(`SiteConfig.Yaml.ReadsBack`). For a given mapping this can be decided, since equality of values can:
unlike `SiteConfig.Yaml.Value.same`, it minds the order of entries.
-/

namespace SiteConfig

/-- Documents are read under the name that is given. -/
theorem Document.name_of_ofYaml {n text : String} {d : Document} (h : ofYaml n text = .ok d) :
    d.name = n := by
  unfold ofYaml at h
  split at h <;> cases h <;> rfl

/-- A text that says no document is there all the same. -/
theorem Document.isNotFound_of_ofYaml {n text : String} {e : ConfigError}
    (h : ofYaml n text = .error e) : e.isNotFound = false := by
  unfold ofYaml at h
  split at h <;> cases h <;> rfl

namespace Yaml

/-! ### Equality of values -/

namespace Value

mutual
/-- Whether two values are equal, the order of entries included. -/
def equal : Value → Value → Bool
  | .null, .null => true
  | .bool a, .bool b => a == b
  | .number a, .number b => decide (a = b)
  | .string a, .string b => a == b
  | .sequence xs, .sequence ys => equalItems xs ys
  | .mapping xs, .mapping ys => equalEntries xs ys
  | .tagged s v, .tagged t w => s == t && equal v w
  | _, _ => false

/-- Item by item. -/
def equalItems : List Value → List Value → Bool
  | [], [] => true
  | x :: xs, y :: ys => equal x y && equalItems xs ys
  | _, _ => false

/-- Entry by entry. -/
def equalEntries : Mapping → Mapping → Bool
  | [], [] => true
  | (k, v) :: xs, (l, w) :: ys => equal k l && equal v w && equalEntries xs ys
  | _, _ => false
end

mutual
theorem equal_iff : ∀ v w : Value, equal v w = true ↔ v = w
  | .null, w => by cases w <;> simp [equal]
  | .bool _, w => by cases w <;> simp [equal]
  | .number _, w => by cases w <;> simp [equal]
  | .string _, w => by cases w <;> simp [equal]
  | .sequence xs, w => by cases w <;> simp [equal, equalItems_iff xs]
  | .mapping xs, w => by cases w <;> simp [equal, equalEntries_iff xs]
  | .tagged _ v, w => by cases w <;> simp [equal, equal_iff v]

theorem equalItems_iff : ∀ xs ys : List Value, equalItems xs ys = true ↔ xs = ys
  | [], ys => by cases ys <;> simp [equalItems]
  | x :: xs, ys => by cases ys <;> simp [equalItems, equal_iff x, equalItems_iff xs]

theorem equalEntries_iff : ∀ xs ys : Mapping, equalEntries xs ys = true ↔ xs = ys
  | [], ys => by cases ys <;> simp [equalEntries]
  | (k, v) :: xs, ys => by
    rcases ys with _ | ⟨⟨l, w⟩, ys⟩ <;>
      simp [equalEntries, equal_iff k, equal_iff v, equalEntries_iff xs]
end

instance : DecidableEq Value := fun v w => decidable_of_iff _ (equal_iff v w)

end Value

/-! ### Reading what was written -/

variable {m : Mapping} {text : String}

instance (v : Value) : Decidable (read text = .ok v) :=
  decidable_of_iff ((read text).toOption = some v)
    ⟨eq_ok_of_toOption, fun h => congrArg Except.toOption h⟩

/-- **A mapping reads back**: its text, if it has one, is the text of this very mapping. -/
def ReadsBack (m : Mapping) : Prop := ∀ text, write m = .ok text → read text = .ok (.mapping m)

theorem readsBack_iff_of_write (h : write m = .ok text) :
    ReadsBack m ↔ read text = .ok (.mapping m) := by
  constructor
  · exact fun hback => hback text h
  · intro hread text' h'
    cases h.symm.trans h'
    exact hread

instance (m : Mapping) : Decidable (ReadsBack m) :=
  match h : write m with
  | .ok _ => decidable_of_iff _ (readsBack_iff_of_write h).symm
  | .error _ => isTrue fun _ h' => by cases h.symm.trans h'

/-- A document that reads back is read as it was written. -/
theorem ReadsBack.ofYaml (h : ReadsBack m) (hwrite : write m = .ok text) (n : String) :
    Document.ofYaml n text = .ok ⟨n, m⟩ := by
  rw [Document.ofYaml, h text hwrite]

theorem not_readsBack_tag : ¬ReadsBack [(.string "k", .tagged "foo,bar" (.string "a"))] := by
  decide +kernel

end Yaml

end SiteConfig
