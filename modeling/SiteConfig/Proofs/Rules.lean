import Mathlib
import SiteConfig.Proofs.Members
import SiteConfig.Proofs.Outcome
import SiteConfig.Schema.Catalog

/-!
# Rules on objects

The rules of a schema that concern objects look at one member at a time, but for those that require
members (`SiteConfig.Schema.violations_object_iff`). So what is known of the schema listed for a member is
all that has to be known to tell whether the member may be there.

A schema of objects is read together with what every document may carry
(`SiteConfig.Schema.exists_rules`): its own list of members is kept, and those of the common members that
it does not list are added.
-/

namespace SiteConfig

namespace Json

/-- A list of strings. -/
def IsTexts (v : Json) : Prop := ∃ items, v = .array items ∧ ∀ i ∈ items, ∃ s, i = .string s

/-- Lists of strings by the four keys. -/
def IsLists (v : Json) : Prop :=
  ∃ ms, v = .object ms ∧ ∀ x ∈ ms, x.1 ∈ Dependencies.listKeys ∧ x.2.IsTexts

end Json

namespace Schema

variable {place : List String} {v w : Json} {minimum : Option Json} {required : List String}
  {ps : List (String × Schema)} {others items : Option Schema} {ms : List (String × Json)}
  {key : String} {s schema : Schema}

/-! ### Objects, member by member -/

/-- The schema listed for a member. -/
def listed? (ps : List (String × Schema)) (key : String) : Option Schema :=
  (ps.find? (·.1 == key)).map (·.2)

theorem listed?_eq_none_iff : listed? ps key = none ↔ ∀ p ∈ ps, p.1 ≠ key := by
  rw [listed?, Option.map_eq_none_iff, List.find?_eq_none]
  simp

theorem mem_of_listed? (h : listed? ps key = some s) : (key, s) ∈ ps := by
  obtain ⟨p, hp, rfl⟩ := Option.map_eq_some_iff.1 h
  have hkey : p.1 = key := by simpa using List.find?_some hp
  exact hkey ▸ List.mem_of_find?_eq_some hp

theorem memberViolations?_eq (place : List String) (key : String) (v : Json)
    (ps : List (String × Schema)) :
    memberViolations? place key v ps = (listed? ps key).map (violations place v) := by
  induction ps with
  | nil => rfl
  | cons p ps ih =>
    obtain ⟨k, s⟩ := p
    rw [memberViolations?, ih, listed?, listed?, List.find?_cons]
    by_cases h : k = key
    · simp [h]
    · rw [if_neg h, beq_false_of_ne h]

/-- **A member that may be there**: it is allowed by the schema listed for it, or else by the one for
all others. -/
def Allows (place : List String) (ps : List (String × Schema)) (others : Option Schema)
    (x : String × Json) : Prop :=
  match listed? ps x.1 with
  | some s => violations (place ++ [x.1]) x.2 s = []
  | none => forbidsOthers others = false ∧ partViolations (place ++ [x.1]) x.2 others = []

theorem located_eq_nil_iff (place : List String) {faults : List Fault} :
    located place faults = [] ↔ faults = [] := by
  rw [located, List.map_eq_nil_iff]

theorem requiredFaults_eq_nil_iff :
    requiredFaults required (.object ms) = [] ↔ ∀ k ∈ required, ∃ x ∈ ms, x.1 = k := by
  rw [requiredFaults, List.map_eq_nil_iff, List.filter_eq_nil_iff]
  simp

theorem unexpectedFaults_eq_nil_iff : unexpectedFaults (some ps) others (.object ms) = [] ↔
    (forbidsOthers others = true → ∀ x ∈ ms, listed? ps x.1 ≠ none) := by
  match others with
  | none => simp [unexpectedFaults, forbidsOthers]
  | some (.rules ..) => simp [unexpectedFaults, forbidsOthers]
  | some (.always true) => simp [unexpectedFaults, forbidsOthers]
  | some (.always false) =>
    have hlisted : ∀ k, (!ps.any (·.1 == k)) = true ↔ listed? ps k = none := fun k => by
      rw [listed?_eq_none_iff]
      simp
    simp only [unexpectedFaults, forbidsOthers, forall_const]
    split
    · rename_i hempty
      refine iff_of_true rfl fun x hx hnone => ?_
      have hkeys := List.isEmpty_iff.1 hempty
      rw [List.filter_eq_nil_iff] at hkeys
      exact hkeys x.1 (List.mem_map_of_mem hx) ((hlisted x.1).2 hnone)
    · rename_i hempty
      refine iff_of_false (List.cons_ne_nil _ _) fun hall => hempty ?_
      rw [List.isEmpty_iff, List.filter_eq_nil_iff]
      intro k hk
      obtain ⟨x, hx, rfl⟩ := List.mem_map.1 hk
      rw [hlisted]
      exact hall x hx

theorem minimumFaults_object (minimum : Option Json) (ms : List (String × Json)) :
    minimumFaults minimum (.object ms) = [] := by
  cases minimum <;> rfl

/-- **What the rules on objects allow**: all members that are required are there, and all that are
there may be. -/
theorem violations_object_iff :
    violations place (.object ms)
        (.rules (some [.object]) none minimum required (some ps) others items) = [] ↔
      (∀ k ∈ required, ∃ x ∈ ms, x.1 = k) ∧ ∀ x ∈ ms, Allows place ps others x := by
  -- what is missing is said in one of two places
  have hmissing : ∀ (late : Bool) (vs : List Violation),
      (if late then [] else vs) = [] ∧ (if late then vs else []) = [] ↔ vs = [] := by
    intro late vs
    cases late <;> simp
  have hmember : ∀ x ∈ ms, ((listedViolations? (place ++ [x.1]) x.1 x.2 (some ps)).getD
      (if forbidsOthers others then [] else partViolations (place ++ [x.1]) x.2 others) = [] ∧
        (forbidsOthers others = true → listed? ps x.1 ≠ none)) ↔ Allows place ps others x := by
    intro x _
    rw [listedViolations?, memberViolations?_eq, Allows]
    cases listed? ps x.1 with
    | some s => simp
    | none => cases forbidsOthers others <;> simp
  have htype : typeFaults (some [.object]) (.object ms) = [] := rfl
  rw [violations]
  simp only [htype, choiceFaults, minimumFaults_object, located_eq_nil_iff, List.append_eq_nil_iff,
    List.flatMap_eq_nil_iff, unexpectedFaults_eq_nil_iff, and_true, true_and]
  rw [← requiredFaults_eq_nil_iff, ← located_eq_nil_iff place]
  constructor
  · rintro ⟨⟨⟨hearly, hinner⟩, hlisted⟩, hlate⟩
    exact ⟨(hmissing _ _).1 ⟨hearly, hlate⟩, fun x hx =>
      (hmember x hx).1 ⟨hinner x hx, fun hforbids => hlisted hforbids x hx⟩⟩
  · rintro ⟨hrequired, hallows⟩
    obtain ⟨hearly, hlate⟩ := (hmissing _ _).2 hrequired
    exact ⟨⟨⟨hearly, fun x hx => ((hmember x hx).2 (hallows x hx)).1⟩,
      fun hforbids x hx => ((hmember x hx).2 (hallows x hx)).2 hforbids⟩, hlate⟩

/-- The rule on the type of objects lets nothing else through. -/
theorem exists_object_of_violations {properties : Option (List (String × Schema))}
    (h : violations place v (.rules (some [.object]) none minimum required properties others items) = []) :
    ∃ ms, v = .object ms := by
  cases v with
  | object ms => exact ⟨ms, rfl⟩
  | _ => simp [violations, typeFaults, JsonType.holds, located] at h

/-- **A closed object** holds nothing but listed members. -/
theorem violations_closed_iff :
    violations place v (.rules (some [.object]) none none [] (some ps) (some (.always false)) none) = [] ↔
      ∃ ms, v = .object ms ∧
        ∀ x ∈ ms, ∃ s, listed? ps x.1 = some s ∧ violations (place ++ [x.1]) x.2 s = [] := by
  have hallows : ∀ x, Allows place ps (some (.always false)) x ↔
      ∃ s, listed? ps x.1 = some s ∧ violations (place ++ [x.1]) x.2 s = [] := by
    intro x
    rw [Allows]
    cases listed? ps x.1 <;> simp [forbidsOthers]
  constructor
  · intro h
    obtain ⟨ms, rfl⟩ := exists_object_of_violations h
    exact ⟨ms, rfl, fun x hx => (hallows x).1 ((violations_object_iff.1 h).2 x hx)⟩
  · rintro ⟨ms, rfl, h⟩
    exact violations_object_iff.2 ⟨nofun, fun x hx => (hallows x).2 (h x hx)⟩

/-! ### The schemas of the common members -/

/-- The schema of a type alone. -/
def ofType (t : JsonType) : Schema := .rules (some [t]) none none [] none none none

/-- A list of strings. -/
def texts : Schema := .rules (some [.array]) none none [] none none (some (ofType .string))

/-- The lists of dependencies. -/
def lists : Schema :=
  .rules (some [.object]) none none []
    (some [("config", texts), ("content", texts), ("module", texts), ("theme", texts)])
    (some (.always false)) none

/-- The section of the dependencies. -/
def dependencies : Schema :=
  .rules (some [.object]) none none []
    (some [("config", texts), ("content", texts), ("enforced", lists), ("module", texts),
      ("theme", texts)])
    (some (.always false)) none

theorem ofJson_typed (t : JsonType) : ofJson (typed t) = .ok (ofType t) := by
  cases t <;> rfl

theorem ofJson_dependencies :
    ofJson (closed (("enforced", closed dependencyLists) :: dependencyLists)) = .ok dependencies := by
  rfl

theorem violations_string_iff : violations place v (ofType .string) = [] ↔ ∃ s, v = .string s := by
  cases v <;> simp [violations, ofType, typeFaults, choiceFaults, minimumFaults, requiredFaults,
    unexpectedFaults, forbidsOthers, partViolations, located, listedViolations?, JsonType.holds]

theorem violations_ofType_object (place : List String) (ms : List (String × Json)) :
    violations place (.object ms) (ofType .object) = [] := by
  simp [violations, ofType, typeFaults, choiceFaults, minimumFaults, requiredFaults,
    unexpectedFaults, forbidsOthers, partViolations, located, listedViolations?, JsonType.holds]

/-- A list is judged item by item. -/
theorem violations_texts_array (items : List Json) : violations place (.array items) texts = [] ↔
    ∀ e ∈ items.zip (List.range items.length),
      violations (place ++ [toString e.2]) e.1 (ofType .string) = [] := by
  simp [violations, texts, typeFaults, choiceFaults, minimumFaults, requiredFaults,
    unexpectedFaults, forbidsOthers, partViolations, located, JsonType.holds]

theorem violations_texts_iff (place : List String) : violations place v texts = [] ↔ v.IsTexts := by
  rw [Json.IsTexts]
  cases v with
  | array items =>
    rw [violations_texts_array]
    simp only [violations_string_iff]
    constructor
    · intro h
      refine ⟨items, rfl, fun i hi => ?_⟩
      obtain ⟨n, hn, rfl⟩ := List.mem_iff_getElem.1 hi
      exact h (items[n], n) (List.mem_iff_getElem.2 ⟨n, by simpa using hn, by simp⟩)
    · rintro ⟨_, heq, h⟩ e he
      cases heq
      exact h e.1 (List.of_mem_zip he).1
  | _ => simp [violations, texts, typeFaults, located, JsonType.holds]

theorem violations_lists_iff (place : List String) : violations place v lists = [] ↔ v.IsLists := by
  rw [lists, violations_closed_iff, Json.IsLists]
  refine exists_congr fun ms => and_congr_right fun _ => forall₂_congr fun x _ => ?_
  rw [← violations_texts_iff (place ++ [x.1])]
  constructor
  · rintro ⟨s, hs, hv⟩
    have hmem := mem_of_listed? hs
    simp only [List.mem_cons, Prod.mk.injEq, List.not_mem_nil, or_false] at hmem
    rcases hmem with ⟨hkey, rfl⟩ | ⟨hkey, rfl⟩ | ⟨hkey, rfl⟩ | ⟨hkey, rfl⟩ <;>
      exact ⟨by rw [hkey]; decide, hv⟩
  · rintro ⟨hkey, hv⟩
    generalize x.1 = key at hkey hv
    refine ⟨texts, ?_, hv⟩
    fin_cases hkey <;> rfl

/-- The four lists, and those that are enforced. -/
theorem violations_dependencies_iff : violations place v dependencies = [] ↔
    ∃ ms, v = .object ms ∧ ∀ x ∈ ms, x.1 ∈ "enforced" :: Dependencies.listKeys ∧
      if x.1 = "enforced" then x.2.IsLists else x.2.IsTexts := by
  rw [dependencies, violations_closed_iff]
  refine exists_congr fun ms => and_congr_right fun _ => forall₂_congr fun x _ => ?_
  rw [← violations_texts_iff (place ++ [x.1]), ← violations_lists_iff (place ++ [x.1])]
  generalize place ++ [x.1] = place, x.1 = key
  constructor
  · rintro ⟨s, hs, hv⟩
    have hmem := mem_of_listed? hs
    simp only [List.mem_cons, Prod.mk.injEq, List.not_mem_nil, or_false] at hmem
    rcases hmem with ⟨rfl, rfl⟩ | ⟨rfl, rfl⟩ | ⟨rfl, rfl⟩ | ⟨rfl, rfl⟩ | ⟨rfl, rfl⟩ <;>
      exact ⟨by decide, hv⟩
  · rintro ⟨hkey, hv⟩
    fin_cases hkey
    · exact ⟨lists, rfl, hv⟩
    all_goals exact ⟨texts, rfl, hv⟩

/-! ### Reading the schema of an object -/

open Json (Ordered collect insertMember member?)

variable {l members : List (String × Json)} {parts parts' : Parts}

/-- A schema is listed for each name for which one is given. -/
theorem listed?_of_readEach (h : readEach l = .ok ps) (key : String) :
    (l.find? (·.1 == key) = none → listed? ps key = none) ∧
      ∀ x, l.find? (·.1 == key) = some x → ∃ s, ofJson x.2 = .ok s ∧ listed? ps key = some s := by
  induction l generalizing ps with
  | nil =>
    cases h
    exact ⟨fun _ => rfl, nofun⟩
  | cons m l ih =>
    obtain ⟨k, v⟩ := m
    rw [readEach, except_bind_eq_ok_iff] at h
    obtain ⟨s, hs, h⟩ := h
    rw [except_bind_eq_ok_iff] at h
    obtain ⟨r, hr, h⟩ := h
    cases h
    rw [List.find?_cons, listed?, List.find?_cons]
    by_cases hk : k = key
    · rw [hk, beq_self_eq_true]
      refine ⟨nofun, fun x hx => ?_⟩
      cases hx
      exact ⟨s, hs, rfl⟩
    · rw [beq_false_of_ne hk]
      exact ih hr

/-- The members of a schema are read from its properties. -/
theorem properties_of_readParts (h : readParts parts l = .ok parts') (hordered : Ordered l) :
    (∀ v, ("properties", v) ∈ l → ∃ ps, readProperties v = .ok ps ∧ parts'.properties = some ps) ∧
      ((∀ x ∈ l, x.1 ≠ "properties") → parts'.properties = parts.properties) := by
  induction l generalizing parts with
  | nil =>
    cases h
    exact ⟨nofun, fun _ => rfl⟩
  | cons m l ih =>
    obtain ⟨k, v⟩ := m
    obtain ⟨hhead, htail⟩ := List.pairwise_cons.1 hordered
    by_cases hk : k = "properties"
    · subst hk
      rw [readParts, if_neg (by decide), if_neg (by decide), if_pos rfl, except_bind_eq_ok_iff] at h
      obtain ⟨ps, hps, h⟩ := h
      have hno : ∀ x ∈ l, x.1 ≠ "properties" := fun x hx => (hhead x hx).ne'
      refine ⟨fun w hw => ?_, fun hne => absurd rfl (hne _ List.mem_cons_self)⟩
      rcases List.mem_cons.1 hw with heq | hw
      · cases heq
        exact ⟨ps, hps, (ih h htail).2 hno⟩
      · exact absurd rfl (hno _ hw)
    · obtain ⟨parts₁, hparts₁, h⟩ : ∃ parts₁ : Parts, parts₁.properties = parts.properties ∧
          readParts parts₁ l = .ok parts' := by
        rw [readParts] at h
        split at h
        · rw [except_bind_eq_ok_iff] at h
          obtain ⟨s, -, h⟩ := h
          exact ⟨{ parts with others := some s }, rfl, h⟩
        split at h
        · rw [except_bind_eq_ok_iff] at h
          obtain ⟨s, -, h⟩ := h
          exact ⟨{ parts with items := some s }, rfl, h⟩
        exact ⟨parts, rfl, h⟩
      obtain ⟨hfound, hnone⟩ := ih h htail
      refine ⟨fun w hw => ?_, fun hne => ?_⟩
      · rcases List.mem_cons.1 hw with heq | hw
        · cases heq
          exact absurd rfl hk
        · exact hfound w hw
      · exact (hnone fun x hx => hne x (List.mem_cons_of_mem _ hx)).trans hparts₁

/-- Members that are there already stay; the others are added. -/
theorem find?_addMembers (members extra : List (String × Json)) (key : String) :
    (addMembers members extra).find? (·.1 == key) =
      (members.find? (·.1 == key)).or (extra.find? (·.1 == key)) := by
  induction extra generalizing members with
  | nil => simp [addMembers]
  | cons m extra ih =>
    rw [addMembers, List.foldl_cons, ← addMembers, ih, List.find?_cons]
    by_cases hkey : m.1 = key
    · subst hkey
      rw [beq_self_eq_true]
      split
      · rename_i hany
        obtain ⟨x, hx, hxm⟩ := List.any_eq_true.1 hany
        obtain ⟨y, hy⟩ := Option.ne_none_iff_exists'.1
          fun hnone : members.find? (·.1 == m.1) = none => List.find?_eq_none.1 hnone x hx hxm
        rw [hy]
        rfl
      · rename_i hany
        have hnone : members.find? (·.1 == m.1) = none :=
          List.find?_eq_none.2 fun x hx hxm => hany (List.any_eq_true.2 ⟨x, hx, hxm⟩)
        rw [Json.find?_insertMember_self, hnone]
        rfl
    · rw [beq_false_of_ne hkey]
      split
      · rfl
      · rw [Json.find?_insertMember_of_ne hkey]

end Schema

namespace Json

/-- **A schema of objects**: it says that it is one, and does not list the values that it allows. What
it says of numbers and items does not concern objects. -/
structure ObjectSchema (source : Json) : Prop where
  object : source.member? "type" = some (.string "object")
  free : source.member? "enum" = none

/-- A schema that says itself what a member may be. -/
def Declares (source : Json) (key : String) : Prop :=
  ∃ listed, source.member? "properties" = some (.object listed) ∧ ∃ x ∈ listed, x.1 = key

end Json

namespace Schema

open Json (Ordered collect insertMember member? ordered_insertMember mem_insertMember_iff)

/-- An object is read as rules. -/
theorem ofJson_object_eq_ok_iff {members : List (String × Json)} {schema : Schema} :
    ofJson (.object members) = .ok schema ↔ ∃ parts choices minimum required types,
      readParts ⟨none, none, none⟩ members = .ok parts ∧
      rule? members "enum" readChoices = .ok choices ∧
      rule? members "minimum" readMinimum = .ok minimum ∧
      rule? members "required" readRequired = .ok required ∧
      rule? members "type" readTypes = .ok types ∧
      schema = .rules types choices minimum (required.getD []) parts.properties parts.others
        parts.items := by
  rw [ofJson]
  simp only [except_bind_eq_ok_iff, pure, Except.pure, Except.ok.injEq, eq_comm (b := schema),
    exists_and_left]

/-- A rule is read as the member of its name is. -/
theorem rule?_eq {α : Type} {members : List (String × Json)} (hordered : Ordered members)
    (name : String) (read : Json → Except Defect α) :
    rule? members name read = match member? name (.object members) with
      | some v => (read v).map some
      | none => .ok none := by
  rw [rule?, hordered.find?_eq]
  cases member? name (.object members) <;> rfl

/-- A member that is put in does not change what the others are. -/
theorem member?_insertMember_of_ne {members : List (String × Json)} (hordered : Ordered members)
    {k name : String} (hne : k ≠ name) (v : Json) :
    member? name (.object (insertMember k v members)) = member? name (.object members) := by
  have hfind := Json.find?_insertMember_of_ne (v := v) hne members
  rw [hordered.find?_eq, (ordered_insertMember hordered).find?_eq] at hfind
  exact Option.map_injective (fun _ _ heq => (Prod.mk.inj heq).2) hfind

/-- **An object schema with the common members**: those that it does not declare are listed. -/
theorem withBaseMembers_sorted {source : Json} {schema : Schema} (hsource : source.ObjectSchema)
    (h : ofJson (withBaseMembers source.sorted) = .ok schema) :
    ∃ members listed, withBaseMembers source.sorted =
        .object (insertMember "properties" (.object (addMembers listed baseMembers)) members) ∧
      Ordered members ∧ (∀ k, member? k (.object members) = (source.member? k).map Json.sorted) ∧
        ∀ key, ¬source.Declares key → listed.find? (·.1 == key) = none := by
  cases source with
  | object raw =>
    obtain ⟨hordered, -⟩ := Json.mem_collect_iff (Json.sortedMembers raw)
    have hmember := Json.member?_sorted (.object raw)
    rw [show (Json.object raw).sorted = .object (collect (Json.sortedMembers raw)) from rfl]
      at h hmember ⊢
    generalize collect (Json.sortedMembers raw) = members at h hmember hordered ⊢
    have htype : member? "type" (.object members) = some (.string "object") := by
      rw [hmember, hsource.object]
      rfl
    have hprops := hmember "properties"
    cases hraw : (Json.object raw).member? "properties" with
    | none =>
      rw [hraw] at hprops
      refine ⟨members, [], ?_, hordered, hmember, fun _ _ => rfl⟩
      simp only [withBaseMembers, htype, hprops, Option.map_none]
    | some p =>
      rw [hraw] at hprops
      cases p with
      | object listed =>
        refine ⟨members, collect (Json.sortedMembers listed), ?_, hordered, hmember, fun key hkey => ?_⟩
        · simp only [withBaseMembers, htype, hprops, Option.map_some, Json.sorted, Json.ofMembers_eq]
        · have hnone : member? key (.object listed) = none :=
            Json.member?_eq_none_iff.2 fun x hx heq => hkey ⟨listed, hraw, x, hx, heq⟩
          have hlisted := Json.member?_sorted (.object listed) key
          rw [hnone] at hlisted
          rw [(Json.mem_collect_iff _).1.find?_eq]
          exact congrArg (Option.map (key, ·)) hlisted
      | _ =>
        -- what is listed as members has to be an object
        have hsame : withBaseMembers (.object members) = .object members := by
          simp only [withBaseMembers, htype, hprops, Option.map_some, Json.sorted]
        rw [hsame, ofJson_object_eq_ok_iff] at h
        obtain ⟨parts, -, -, -, -, hparts, -⟩ := h
        obtain ⟨ps, hps, -⟩ :=
          (properties_of_readParts hparts hordered).1 _ (Json.mem_of_member? hprops)
        cases hps
  | _ => cases hsource.object

/-- **An object schema allows the common members**: those that it does not declare are listed. -/
theorem exists_rules {source : Json} {schema : Schema} (hsource : source.ObjectSchema)
    (h : ofJson (withBaseMembers source.sorted) = .ok schema) :
    ∃ ps minimum required others items,
      schema = .rules (some [.object]) none minimum required (some ps) others items ∧
        ∀ key, ¬source.Declares key → ∀ x, baseMembers.find? (·.1 == key) = some x →
          ∃ s, ofJson x.2 = .ok s ∧ listed? ps key = some s := by
  obtain ⟨members, listed, heq, hordered, hmember, hlisted⟩ := withBaseMembers_sorted hsource h
  rw [heq, ofJson_object_eq_ok_iff] at h
  obtain ⟨parts, choices, minimum, required, types, hparts, hchoices, -, -, htypes, rfl⟩ := h
  have hordered' := ordered_insertMember (k := "properties")
    (v := .object (addMembers listed baseMembers)) hordered
  -- the properties are those that were put in
  obtain ⟨ps, hps, hproperties⟩ := (properties_of_readParts hparts hordered').1 _
    ((mem_insertMember_iff hordered).2 (.inl rfl))
  rw [readProperties] at hps
  rw [rule?_eq hordered', member?_insertMember_of_ne hordered (by decide), hmember,
    hsource.free] at hchoices
  rw [rule?_eq hordered', member?_insertMember_of_ne hordered (by decide), hmember,
    hsource.object] at htypes
  cases hchoices
  cases htypes
  rw [hproperties]
  refine ⟨ps, minimum, _, _, _, rfl, fun key hkey x hx => (listed?_of_readEach hps key).2 x ?_⟩
  rw [find?_addMembers, hlisted key hkey, Option.none_or, hx]

end Schema

end SiteConfig
