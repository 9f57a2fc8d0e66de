import Mathlib
import SiteConfig.Proofs.Thinning
import SiteConfig.Settings.Basic

/-!
# The settings as records

Settings have ten **fields** (`SiteConfig.Settings.Field`), each with a reading of its own. They are
read as a record whose members are records again, the **sections** (`SiteConfig.Settings.Section`), next
to two fields that stand alone. No two sections share a field, so that all members have slots of their
own (`SiteConfig.Settings.slots_members`), and what a value states does not depend on the order in which
it states it.

Null stands for the default wherever it can be read, so settings that can be read from a value are read
without its nulls as well (`SiteConfig.Settings.decode_of_thins`).
-/

namespace SiteConfig.Settings

open Yaml

/-! ### Fields -/

/-- The fields of the settings. -/
inductive Field where
  | backend | activePath | syncPath | stateDir | catalog | schemaDir | strict | lockKey | stripKeys
  | entityTypes
  deriving DecidableEq

namespace Field

/-- What a field holds. -/
abbrev type : Field → Type
  | .backend => Backend
  | .catalog | .schemaDir => Option String
  | .strict => Bool
  | .stripKeys => List String
  | .entityTypes => List EntityType
  | .activePath | .syncPath | .stateDir | .lockKey => String

def get : (f : Field) → Settings → f.type
  | .backend => Settings.backend
  | .activePath => Settings.activePath
  | .syncPath => Settings.syncPath
  | .stateDir => Settings.stateDir
  | .catalog => Settings.catalog
  | .schemaDir => Settings.schemaDir
  | .strict => Settings.strict
  | .lockKey => Settings.lockKey
  | .stripKeys => Settings.stripKeys
  | .entityTypes => Settings.entityTypes

def set : (f : Field) → f.type → Settings → Settings
  | .backend, a, s => { s with backend := a }
  | .activePath, a, s => { s with activePath := a }
  | .syncPath, a, s => { s with syncPath := a }
  | .stateDir, a, s => { s with stateDir := a }
  | .catalog, a, s => { s with catalog := a }
  | .schemaDir, a, s => { s with schemaDir := a }
  | .strict, a, s => { s with strict := a }
  | .lockKey, a, s => { s with lockKey := a }
  | .stripKeys, a, s => { s with stripKeys := a }
  | .entityTypes, a, s => { s with entityTypes := a }

@[simp] theorem get_set (f : Field) (a : f.type) (s : Settings) : f.get (f.set a s) = a := by
  cases f <;> rfl

theorem get_set_of_ne {f g : Field} (h : f ≠ g) (a : f.type) (s : Settings) :
    g.get (f.set a s) = g.get s := by
  cases f <;> cases g <;> first | rfl | exact absurd rfl h

/-- **Settings are their fields.** -/
theorem ext {s t : Settings} (h : ∀ f : Field, f.get s = f.get t) : s = t := by
  obtain ⟨⟩ := s
  obtain ⟨⟩ := t
  simp only [Settings.mk.injEq]
  exact ⟨h .backend, h .activePath, h .syncPath, h .stateDir, h .catalog, h .schemaDir, h .strict,
    h .lockKey, h .stripKeys, h .entityTypes⟩

/-- Copies some fields into other settings. -/
def copy (fs : List Field) (a s : Settings) : Settings := fs.foldr (fun f => f.set (f.get a)) s

theorem get_copy (fs : List Field) (a s : Settings) (g : Field) :
    g.get (copy fs a s) = if g ∈ fs then g.get a else g.get s := by
  induction fs with
  | nil => rfl
  | cons f fs ih =>
    by_cases hfg : f = g
    · subst hfg
      rw [if_pos List.mem_cons_self]
      exact f.get_set _ _
    · have hmem : g ∈ f :: fs ↔ g ∈ fs := by simp [Ne.symm hfg]
      simp only [hmem, ← ih]
      exact get_set_of_ne hfg _ _

/-- Some fields as a portion of the settings. -/
def portion (fs : List Field) : Portion Settings where
  copy := copy fs
  copy_copy a b s := ext fun g => by
    simp only [get_copy]
    split <;> rfl
  copy_copy_left a b s := ext fun g => by
    simp only [get_copy]
    split <;> rfl
  copy_self s := ext fun g => by rw [get_copy, ite_self]

end Field

/-! ### Sections -/

/-- A key of a record, with the field that it fills. -/
structure Entry where
  key : String
  field : Field
  read : Decoder field.type

/-- The slot of a key. -/
def Entry.slot (e : Entry) : Slot Settings := .single e.key e.read e.field.get e.field.set

theorem Entry.take_slot_iff (e : Entry) {s t : Settings} {v : Value} :
    (e.read v).map (e.field.set · s) = .ok t ↔ ∃ a, e.slot.states v a ∧ t = e.slot.set a s :=
  except_map_eq_ok_iff.trans (exists_congr fun _ => and_congr_right fun _ => eq_comm)

/-- **A section of the settings**: a record of contents that are no mappings. -/
structure Section where
  name : String
  entries : List Entry
  take : Settings → String → Value → Except Mismatch Settings
  keys : (entries.map (·.key)).Nodup
  fields : (entries.map (·.field)).Nodup
  take_eq : ∀ e ∈ entries, ∀ s v, take s e.key v = (e.read v).map (e.field.set · s)
  flat : ∀ e ∈ entries, e.slot.Flat default

namespace Section

variable (c : Section) {s t : Settings} {v w : Value}

/-- The portion of the settings that a section is about. -/
def portion : Portion Settings := Field.portion (c.entries.map (·.field))

def slots : List (Slot Settings) := c.entries.map (·.slot)

/-- The reading of a section, which leaves the rest of the settings as they are. -/
def decode (s : Settings) : Decoder Settings :=
  Decode.record c.name (c.entries.map (·.key)) (c.portion.copy default s) c.take

/-- The slot of a section. -/
def slot (key : String) : Slot Settings := c.portion.slot key default (c.decode default)

theorem map_key_slots : c.slots.map (·.key) = c.entries.map (·.key) := by
  rw [slots, List.map_map]
  rfl

/-- **The keys of a section** have slots of their own. -/
theorem slots_entries : Slots c.slots (c.portion.copy default) c.take where
  nodup := c.map_key_slots ▸ c.keys
  get_set := by
    rintro i hi v a s -
    obtain ⟨e, -, rfl⟩ := List.mem_map.1 hi
    exact e.field.get_set a s
  get_other := by
    intro i hi j hj hij a s
    obtain ⟨e, he, rfl⟩ := List.mem_map.1 hi
    obtain ⟨f, hf, rfl⟩ := List.mem_map.1 hj
    refine Field.get_set_of_ne (fun hfield => hij ?_) a s
    rw [List.inj_on_of_nodup_map c.fields he hf hfield]
  rest_set := by
    intro i hi a s
    obtain ⟨e, he, rfl⟩ := List.mem_map.1 hi
    refine Field.ext fun g => ?_
    rw [portion, Field.portion, Field.get_copy, Field.get_copy]
    split
    · rfl
    · rename_i hg
      refine Field.get_set_of_ne (fun heq => hg ?_) a s
      rw [← heq]
      exact List.mem_map_of_mem he
  ext := by
    intro s t hrest hslots
    refine Field.ext fun g => ?_
    by_cases hg : g ∈ c.entries.map (·.field)
    · obtain ⟨e, he, rfl⟩ := List.mem_map.1 hg
      exact hslots e.slot (List.mem_map_of_mem he)
    · have heq := congrArg g.get hrest
      rw [portion, Field.portion, Field.get_copy, Field.get_copy, if_neg hg, if_neg hg] at heq
      exact heq
  take := by
    intro i hi s v t
    obtain ⟨e, he, rfl⟩ := List.mem_map.1 hi
    rw [show e.slot.key = e.key from rfl, c.take_eq e he]
    exact e.take_slot_iff

variable {c}

/-- A section is read as it is into the defaults, wherever it is read into. -/
theorem decode_eq_ok_iff :
    c.decode s v = .ok t ↔ ∃ a, c.decode default v = .ok a ∧ t = c.portion.copy a s := by
  have hget : ∀ i ∈ c.slots, ∀ a s, i.get (c.portion.copy a s) = i.get a := by
    intro i hi a s
    obtain ⟨e, he, rfl⟩ := List.mem_map.1 hi
    exact (Field.get_copy _ a s _).trans (if_pos (List.mem_map_of_mem he))
  rw [decode, decode, c.portion.copy_self, ← c.map_key_slots]
  exact c.slots_entries.record_copy_eq_ok_iff hget

/-- There is nothing but the section in what it is read as. -/
theorem copy_of_decode (h : c.decode default v = .ok t) : c.portion.copy t default = t := by
  rw [decode, c.portion.copy_self, ← c.map_key_slots] at h
  exact c.slots_entries.copy_of_record h

/-- A section fills its slot. -/
theorem decode_slot_iff (c : Section) (key : String) :
    c.decode s v = .ok t ↔ ∃ a, (c.slot key).states v a ∧ t = (c.slot key).set a s :=
  decode_eq_ok_iff

/-- What fills the slot of a section alike has the same fields there. -/
theorem get_eq_of_slot {key : String} (h : (c.slot key).get s = (c.slot key).get t) {f : Field}
    (hf : f ∈ c.entries.map (·.field)) : f.get s = f.get t := by
  have hget : ∀ u, f.get ((c.slot key).get u) = f.get u := fun u =>
    (Field.get_copy _ u default f).trans (if_pos hf)
  rw [← hget s, ← hget t, h]

theorem decode_null : c.decode default .null = .ok default := by
  rw [decode, c.portion.copy_self]
  rfl

theorem flat_of_mem {i : Slot Settings} (hi : i ∈ c.slots) : i.Flat default := by
  obtain ⟨e, he, rfl⟩ := List.mem_map.1 hi
  exact c.flat e he

theorem decode_of_thins (pv : v.Proper) (pw : w.Proper) (hvw : v.Thins w)
    (h : c.decode default v = .ok t) : c.decode default w = .ok t := by
  rw [decode, c.portion.copy_self, ← c.map_key_slots] at h ⊢
  exact c.slots_entries.record_of_thins (fun i hi => (flat_of_mem hi).thinnable) pv pw hvw h

theorem slot_thinnable (c : Section) (key : String) : (c.slot key).Thinnable default where
  keeps _ _ _ px py hxy hx := decode_of_thins px py hxy hx
  null a ha := by
    obtain rfl := Except.ok.inj (decode_null.symm.trans ha)
    exact (c.portion.copy_self _).symm

end Section

/-- Where the active configuration is. -/
def activeSection : Section where
  name := "ActiveStorageSettings"
  entries := [⟨"backend", .backend, Decode.oneOf [("file", .file), ("database", .database)]⟩,
    ⟨"path", .activePath, Decode.path⟩]
  take s key v :=
    if key = "backend" then
      return { s with backend := ← Decode.oneOf [("file", .file), ("database", .database)] v }
    else return { s with activePath := ← Decode.path v }
  keys := by decide
  fields := by decide
  take_eq := List.forall_mem_cons.2 ⟨fun _ _ => rfl, List.forall_mem_singleton.2 fun _ _ => rfl⟩
  flat := List.forall_mem_cons.2 ⟨(Decode.flat_oneOf _).slot nofun,
    List.forall_mem_singleton.2 ((Decode.flat_stringAs _).slot nofun)⟩

/-- Where the proposed configuration is. -/
def syncSection : Section where
  name := "SyncStorageSettings"
  entries := [⟨"path", .syncPath, Decode.path⟩]
  take s _ v := return { s with syncPath := ← Decode.path v }
  keys := by decide
  fields := by decide
  take_eq := List.forall_mem_singleton.2 fun _ _ => rfl
  flat := List.forall_mem_singleton.2 ((Decode.flat_stringAs _).slot nofun)

/-- What extensions there are. -/
def extensionsSection : Section where
  name := "ExtensionSettings"
  entries := [⟨"catalog", .catalog, Decode.optional Decode.path⟩]
  take s _ v := return { s with catalog := ← Decode.optional Decode.path v }
  keys := by decide
  fields := by decide
  take_eq := List.forall_mem_singleton.2 fun _ _ => rfl
  flat := List.forall_mem_singleton.2 ((Decode.flat_stringAs _).optional.slot fun _ h => by
    cases h
    rfl)

/-- Where the schemas are, and whether every document needs one. -/
def schemaSection : Section where
  name := "SchemaSettings"
  entries := [⟨"dir", .schemaDir, Decode.optional Decode.path⟩, ⟨"strict", .strict, Decode.bool⟩]
  take s key v :=
    if key = "dir" then return { s with schemaDir := ← Decode.optional Decode.path v }
    else return { s with strict := ← Decode.bool v }
  keys := by decide
  fields := by decide
  take_eq := List.forall_mem_cons.2 ⟨fun _ _ => rfl, List.forall_mem_singleton.2 fun _ _ => rfl⟩
  flat := List.forall_mem_cons.2 ⟨(Decode.flat_stringAs _).optional.slot fun _ h => by
    cases h
    rfl, List.forall_mem_singleton.2 (Decode.flat_bool.slot nofun)⟩

/-- How imports go. -/
def importSection : Section where
  name := "ImportSettings"
  entries := [⟨"lock-key", .lockKey, Decode.string⟩,
    ⟨"strip-keys", .stripKeys, Decode.list Decode.string⟩]
  take s key v :=
    if key = "lock-key" then return { s with lockKey := ← Decode.string v }
    else return { s with stripKeys := ← Decode.list Decode.string v }
  keys := by decide
  fields := by decide
  take_eq := List.forall_mem_cons.2 ⟨fun _ _ => rfl, List.forall_mem_singleton.2 fun _ _ => rfl⟩
  flat := List.forall_mem_cons.2 ⟨(Decode.flat_stringAs _).slot nofun,
    List.forall_mem_singleton.2 ((Decode.flat_list _).slot fun _ h => by
      cases h
      rfl)⟩

/-! ### All members -/

/-- The sections, by their keys. -/
def sections : List (String × Section) :=
  [("active", activeSection), ("sync", syncSection), ("extensions", extensionsSection),
    ("schema", schemaSection), ("import", importSection)]

/-- The directory of the state. -/
def stateDirEntry : Entry := ⟨"state-dir", .stateDir, Decode.path⟩

/-- The entity types. -/
def entityTypesEntry : Entry := ⟨"entity-types", .entityTypes, Decode.list decodeEntityType⟩

/-- The slots of all members, in the order in which they are named. -/
def members : List (Slot Settings) :=
  [activeSection.slot "active", syncSection.slot "sync", stateDirEntry.slot,
    extensionsSection.slot "extensions", schemaSection.slot "schema", importSection.slot "import",
    entityTypesEntry.slot]

/-- Reads one member into the settings. -/
def takeMember (s : Settings) (key : String) (v : Value) : Except Mismatch Settings :=
  if key = "active" then decodeActive s v
  else if key = "sync" then decodeSync s v
  else if key = "state-dir" then return { s with stateDir := ← Decode.path v }
  else if key = "extensions" then decodeExtensions s v
  else if key = "schema" then decodeSchema s v
  else if key = "import" then decodeImport s v
  else return { s with entityTypes := ← Decode.list decodeEntityType v }

theorem decode_eq : decode = Decode.record "CfgsyncSettings" (members.map (·.key)) default takeMember :=
  rfl

/-- **The members of the settings** have slots of their own, and there is nothing else. -/
theorem slots_members : Slots members (fun _ => ()) takeMember where
  nodup := by decide
  get_set := by
    intro i hi v a s ha
    fin_cases hi
    all_goals first | rfl | exact Section.copy_of_decode ha
  get_other := by
    intro i hi j hj hij a s
    fin_cases hi <;> fin_cases hj <;> first | rfl | exact absurd rfl hij
  rest_set _ _ _ _ := rfl
  ext := by
    intro s t _ hslots
    simp only [members, List.forall_mem_cons] at hslots
    obtain ⟨hactive, hsync, hstate, hextensions, hschema, himport, htypes, -⟩ := hslots
    refine Field.ext fun f => ?_
    cases f
    · exact Section.get_eq_of_slot hactive (by decide)
    · exact Section.get_eq_of_slot hactive (by decide)
    · exact Section.get_eq_of_slot hsync (by decide)
    · exact hstate
    · exact Section.get_eq_of_slot hextensions (by decide)
    · exact Section.get_eq_of_slot hschema (by decide)
    · exact Section.get_eq_of_slot hschema (by decide)
    · exact Section.get_eq_of_slot himport (by decide)
    · exact Section.get_eq_of_slot himport (by decide)
    · exact htypes
  take := by
    intro i hi s v t
    fin_cases hi
    · exact activeSection.decode_slot_iff "active"
    · exact syncSection.decode_slot_iff "sync"
    · exact stateDirEntry.take_slot_iff
    · exact extensionsSection.decode_slot_iff "extensions"
    · exact schemaSection.decode_slot_iff "schema"
    · exact importSection.decode_slot_iff "import"
    · exact entityTypesEntry.take_slot_iff

theorem flat_stateDir : stateDirEntry.slot.Flat default := (Decode.flat_stringAs _).slot nofun

theorem flat_entityTypes : entityTypesEntry.slot.Flat default :=
  (Decode.flat_list _).slot fun _ h => by
    cases h
    rfl

/-- **Settings do without the nulls of the value that they are read from.** -/
theorem decode_of_thins {v w : Value} {s : Settings} (pv : v.Proper) (pw : w.Proper)
    (hvw : v.Thins w) (h : decode v = .ok s) : decode w = .ok s := by
  rw [decode_eq] at h ⊢
  refine slots_members.record_of_thins (fun i hi => ?_) pv pw hvw h
  fin_cases hi
  · exact activeSection.slot_thinnable "active"
  · exact syncSection.slot_thinnable "sync"
  · exact flat_stateDir.thinnable
  · exact extensionsSection.slot_thinnable "extensions"
  · exact schemaSection.slot_thinnable "schema"
  · exact importSection.slot_thinnable "import"
  · exact flat_entityTypes.thinnable

end SiteConfig.Settings
