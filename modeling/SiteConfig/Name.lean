/-!
# The names of configuration documents

A document is filed under a dotted name such as `system.site` or
`image.style.large`. The part before the first dot is the **owner**: the
extension that the document belongs to.

A name is accepted when it is qualified by an owner, fits a file name, and holds
none of the characters that file systems or shells treat specially
(`SiteConfig.checkName`). A refused name has exactly one reported defect, the
first in the order of the constructors of `SiteConfig.NameDefect`.
-/

namespace SiteConfig

/-- The longest accepted name, in bytes of its UTF-8 form. -/
def maxNameBytes : Nat := 250

/-- The characters that no name may hold. -/
def illegalNameChars : List Char := [':', '?', '*', '<', '>', '"', '\'', '/', '\\']

/-- Why a name is refused. -/
inductive NameDefect where
  | blank
  | unqualified
  | tooLong
  | illegal (c : Char)
  deriving DecidableEq, Repr

/-- The wording of a defect. -/
def NameDefect.message : NameDefect → String
  | .blank => "name is empty"
  | .unqualified => "name must be namespaced with a '.'"
  | .tooLong => s!"name exceeds the maximum length of {maxNameBytes} characters"
  | .illegal c => s!"name contains the illegal character '{c}'"

/-- The first illegal character of a name. -/
def firstIllegal? (name : String) : Option Char :=
  name.toList.find? (illegalNameChars.contains ·)

/-- The defect of a name, if it has one. -/
def nameDefect? (name : String) : Option NameDefect :=
  if name.isEmpty then some .blank
  else if !name.toList.contains '.' then some .unqualified
  else if maxNameBytes < name.utf8ByteSize then some .tooLong
  else (firstIllegal? name).map .illegal

/-- Accepts a name without defect. -/
def checkName (name : String) : Except NameDefect Unit :=
  match nameDefect? name with
  | none => .ok ()
  | some d => .error d

/-- The text before the first dot; the whole name when it has none. -/
def ownerOf (name : String) : String :=
  String.ofList (name.toList.takeWhile (· ≠ '.'))

theorem checkName_eq_ok_iff {name : String} :
    checkName name = .ok () ↔ nameDefect? name = none := by
  unfold checkName
  cases nameDefect? name <;> simp

/-- An accepted name holds no illegal character. -/
theorem not_mem_of_checkName {name : String} (h : checkName name = .ok ()) {c : Char}
    (hc : c ∈ illegalNameChars) : c ∉ name.toList := by
  have hf : firstIllegal? name = none := by
    rw [checkName_eq_ok_iff, nameDefect?] at h
    cases hi : firstIllegal? name with
    | none => rfl
    | some d => rw [hi] at h; grind
  intro hm
  have := List.find?_eq_none.1 hf c hm
  simp [hc] at this

end SiteConfig
