import Mathlib
import SiteConfig.Proofs.JsonTexts
import SiteConfig.Proofs.Reordering
import SiteConfig.Yaml.AsJson

/-!
# Members of objects

The members of an object that was put together from unordered data stand in the order of their names,
and of two with the same name the last one counts (`SiteConfig.Json.mem_collect_iff`). So it is with
the JSON form of a mapping, whose keys may be no strings. But a name that is no text of a boolean or
of a number (`SiteConfig.Json.isWord`) comes from a string, and binding a string that is such a name sets
just this member (`SiteConfig.Yaml.Mapping.Becomes.set`).
-/

namespace SiteConfig

namespace Json

variable {k key : String} {v w : Json} {l ms : List (String × Json)}

/-! ### Putting members at their places -/

/-- Members in the order of their names. -/
def Ordered (ms : List (String × Json)) : Prop := ms.Pairwise fun a b => a.1 < b.1

theorem mem_insertMember_iff (h : Ordered ms) {x : String × Json} :
    x ∈ insertMember k v ms ↔ x = (k, v) ∨ x.1 ≠ k ∧ x ∈ ms := by
  induction ms with
  | nil => simp [insertMember]
  | cons m ms ih =>
    obtain ⟨k', v'⟩ := m
    obtain ⟨hhead, htail⟩ := List.pairwise_cons.1 h
    rw [insertMember]
    split
    · rename_i hlt
      have hne : ∀ y ∈ (k', v') :: ms, y.1 ≠ k := by
        refine List.forall_mem_cons.2 ⟨hlt.ne', fun y hy => ?_⟩
        exact (hlt.trans (hhead y hy)).ne'
      rw [List.mem_cons]
      exact or_congr_right ⟨fun hx => ⟨hne x hx, hx⟩, fun hx => hx.2⟩
    · split
      · rename_i heq
        subst heq
        have hne : ∀ y ∈ ms, y.1 ≠ k := fun y hy => (hhead y hy).ne'
        rw [List.mem_cons, List.mem_cons]
        refine or_congr_right ⟨fun hx => ⟨hne x hx, .inr hx⟩, fun hx => hx.2.resolve_left ?_⟩
        rintro rfl
        exact hx.1 rfl
      · rename_i hne
        rw [List.mem_cons, ih htail, List.mem_cons]
        constructor
        · rintro (rfl | rfl | ⟨hx, hmem⟩)
          · exact .inr ⟨Ne.symm hne, .inl rfl⟩
          · exact .inl rfl
          · exact .inr ⟨hx, .inr hmem⟩
        · rintro (rfl | ⟨hx, rfl | hmem⟩)
          · exact .inr (.inl rfl)
          · exact .inl rfl
          · exact .inr (.inr ⟨hx, hmem⟩)

theorem ordered_insertMember (h : Ordered ms) : Ordered (insertMember k v ms) := by
  induction ms with
  | nil => exact List.pairwise_singleton _ _
  | cons m ms ih =>
    obtain ⟨k', v'⟩ := m
    obtain ⟨hhead, htail⟩ := List.pairwise_cons.1 h
    rw [insertMember]
    split
    · rename_i hlt
      refine List.pairwise_cons.2 ⟨List.forall_mem_cons.2 ⟨hlt, fun y hy => ?_⟩, h⟩
      exact hlt.trans (hhead y hy)
    · split
      · rename_i heq
        subst heq
        exact List.pairwise_cons.2 ⟨hhead, htail⟩
      · rename_i hnlt hne
        refine List.pairwise_cons.2 ⟨fun y hy => ?_, ih htail⟩
        rcases (mem_insertMember_iff htail).1 hy with rfl | ⟨-, hy⟩
        · exact lt_of_le_of_ne (not_lt.1 hnlt) (Ne.symm hne)
        · exact hhead y hy

/-- A member is put in without a look at those of other names. -/
theorem find?_insertMember_of_ne (h : k ≠ key) (ms : List (String × Json)) :
    (insertMember k v ms).find? (·.1 == key) = ms.find? (·.1 == key) := by
  have hk : (k == key) = false := beq_false_of_ne h
  induction ms with
  | nil => simp [insertMember, hk]
  | cons m ms ih =>
    obtain ⟨k', v'⟩ := m
    rw [insertMember]
    split
    · simp [hk]
    · split
      · rename_i heq
        subst heq
        simp [hk]
      · rw [List.find?_cons, List.find?_cons, ih]

/-- A member that is put in is found. -/
theorem find?_insertMember_self (ms : List (String × Json)) :
    (insertMember k v ms).find? (·.1 == k) = some (k, v) := by
  induction ms with
  | nil => simp [insertMember]
  | cons m ms ih =>
    obtain ⟨k', v'⟩ := m
    rw [insertMember]
    split
    · simp
    · split
      · simp
      · rename_i hne
        rw [List.find?_cons, beq_false_of_ne (Ne.symm hne), ih]

/-! ### Objects of unordered members -/

theorem member?_concat (l : List (String × Json)) (x : String × Json) (k : String) :
    member? k (.object (l ++ [x])) = if x.1 = k then some x.2 else member? k (.object l) := by
  rw [member?, member?, List.reverse_append, List.reverse_singleton, List.singleton_append,
    List.find?_cons]
  by_cases h : x.1 = k
  · rw [if_pos h, h, beq_self_eq_true]
    rfl
  · rw [if_neg h, beq_false_of_ne h]

theorem mem_of_member? (h : member? k (.object l) = some v) : (k, v) ∈ l := by
  obtain ⟨x, hx, rfl⟩ := Option.map_eq_some_iff.1 h
  have hkey : x.1 = k := by simpa using List.find?_some hx
  exact hkey ▸ List.mem_reverse.1 (List.mem_of_find?_eq_some hx)

theorem member?_eq_none_iff : member? k (.object l) = none ↔ ∀ x ∈ l, x.1 ≠ k := by
  rw [member?, Option.map_eq_none_iff, List.find?_eq_none]
  simp

theorem exists_member?_of_mem {x : String × Json} (hx : x ∈ l) :
    ∃ v, member? x.1 (.object l) = some v :=
  Option.ne_none_iff_exists'.1 fun hnone => member?_eq_none_iff.1 hnone x hx rfl

/-- A member may be replaced in its place. -/
theorem member?_map_replace (h : ∃ x ∈ l, x.1 = key) (k : String) :
    member? k (.object (l.map fun x => if x.1 = key then (x.1, v) else x)) =
      if k = key then some v else member? k (.object l) := by
  have hcomp : ((fun x : String × Json => x.1 == k) ∘ fun x => if x.1 = key then (x.1, v) else x)
      = fun x => x.1 == k := by
    funext x
    rw [Function.comp_apply]
    split <;> rfl
  rw [member?, ← List.map_reverse, List.find?_map, hcomp, member?]
  cases hfind : l.reverse.find? fun x => x.1 == k with
  | none =>
    have hne : k ≠ key := by
      rintro rfl
      obtain ⟨x, hx, hxk⟩ := h
      exact List.find?_eq_none.1 hfind x (List.mem_reverse.2 hx) (by simpa using hxk)
    rw [if_neg hne]
    rfl
  | some x =>
    have hxk : x.1 = k := by simpa using List.find?_some hfind
    by_cases hkey : k = key
    · simp [hxk, hkey]
    · simp [hxk, hkey]

/-- The members of an object of unordered members. -/
def collect (l : List (String × Json)) : List (String × Json) :=
  l.foldl (fun acc m => insertMember m.1 m.2 acc) []

theorem ofMembers_eq (l : List (String × Json)) : ofMembers l = .object (collect l) := rfl

/-- **The members of an object of unordered members** stand in order, and are the last ones of their
names. -/
theorem mem_collect_iff (l : List (String × Json)) :
    Ordered (collect l) ∧ ∀ k v, (k, v) ∈ collect l ↔ member? k (.object l) = some v := by
  induction l using List.reverseRecOn with
  | nil => exact ⟨.nil, fun _ _ => ⟨nofun, nofun⟩⟩
  | append_singleton l x ih =>
    obtain ⟨hordered, hmem⟩ := ih
    have hcollect : collect (l ++ [x]) = insertMember x.1 x.2 (collect l) := List.foldl_concat _ _ _ _
    rw [hcollect]
    refine ⟨ordered_insertMember hordered, fun k v => ?_⟩
    rw [mem_insertMember_iff hordered, member?_concat, hmem]
    by_cases h : x.1 = k
    · subst h
      simp [Prod.ext_iff, eq_comm]
    · rw [if_neg h]
      constructor
      · rintro (heq | ⟨-, hv⟩)
        · exact absurd (congrArg Prod.fst heq).symm h
        · exact hv
      · exact fun hv => .inr ⟨Ne.symm h, hv⟩

/-- In order, the first member of a name is the only one. -/
theorem Ordered.find?_eq (h : Ordered ms) (k : String) :
    ms.find? (·.1 == k) = (member? k (.object ms)).map (k, ·) := by
  cases hv : member? k (.object ms) with
  | none =>
    rw [Option.map_none, List.find?_eq_none]
    simpa using member?_eq_none_iff.1 hv
  | some v =>
    have hmem := mem_of_member? hv
    clear hv
    induction ms with
    | nil => cases hmem
    | cons m ms ih =>
      obtain ⟨hhead, htail⟩ := List.pairwise_cons.1 h
      rcases List.mem_cons.1 hmem with rfl | hmem
      · simp
      · rw [List.find?_cons, beq_false_of_ne (hhead _ hmem).ne, ih htail hmem]

theorem member?_ofMembers (l : List (String × Json)) (k : String) :
    member? k (ofMembers l) = member? k (.object l) := by
  obtain ⟨-, hmem⟩ := mem_collect_iff l
  rw [ofMembers_eq]
  cases hv : member? k (.object (collect l)) with
  | some v => exact ((hmem k v).1 (mem_of_member? hv)).symm
  | none =>
    by_contra hne
    obtain ⟨v, hv'⟩ := Option.ne_none_iff_exists'.1 (Ne.symm hne)
    exact member?_eq_none_iff.1 hv (k, v) ((hmem k v).2 hv') rfl

/-! ### Values with all members in order -/

theorem sortedMembers_eq_map (l : List (String × Json)) :
    sortedMembers l = l.map fun m => (m.1, sorted m.2) := by
  induction l with
  | nil => rfl
  | cons m l ih =>
    obtain ⟨k, v⟩ := m
    rw [sortedMembers, ih]
    rfl

/-- **Sorting does not change what a member is**, but for the order of the members within it. -/
theorem member?_sorted (v : Json) (k : String) :
    member? k v.sorted = (member? k v).map sorted := by
  cases v with
  | object l =>
    rw [sorted, member?_ofMembers, sortedMembers_eq_map, member?, member?, ← List.map_reverse,
      List.find?_map, Option.map_map, Option.map_map]
    rfl
  | _ => rfl

/-! ### Names that are words -/

/-- **A word**: a name that is the text of no boolean and of no number. -/
def isWord (k : String) : Bool :=
  k != "true" && k != "false" && k.toList.head?.any fun c => !c.isDigit && c != '-'

theorem not_isWord_of_head {c : Char} {cs : List Char} (h : k.toList = c :: cs)
    (hc : c.isDigit = true ∨ c = '-') : isWord k = false := by
  rw [isWord, h]
  rcases hc with hc | rfl
  · simp [hc]
  · simp

end Json

/-- The text of a number that is not negative begins with a digit. -/
theorem FloatStyle.exists_cons_place (style : FloatStyle) {ds : List Char} (hne : ds ≠ [])
    (hds : ∀ c ∈ ds, c.isDigit = true) (p : Int) :
    ∃ c cs, (style.place ds p).toList = c :: cs ∧ c.isDigit = true := by
  obtain ⟨d, r, rfl⟩ := List.exists_cons_of_ne_nil hne
  have hd := hds d List.mem_cons_self
  simp only [place]
  split
  · exact ⟨d, _, by simp; rfl, hd⟩
  split
  · rename_i hwhole
    obtain ⟨n, hn⟩ : ∃ n, (((d :: r).length : Int) + p).toNat = n + 1 :=
      ⟨(((d :: r).length : Int) + p).toNat - 1, by omega⟩
    rw [hn]
    exact ⟨d, _, by simp; rfl, hd⟩
  split
  · exact ⟨'0', _, by simp; rfl, rfl⟩
  · cases r with
    | nil => exact ⟨d, _, by simp; rfl, hd⟩
    | cons d' r => exact ⟨d, _, by simp; rfl, hd⟩

theorem FloatStyle.exists_cons_text (style : FloatStyle) {x : Binary64} (hx : x.isFinite = true) :
    ∃ c cs, (style.text x).toList = c :: cs ∧ (c.isDigit = true ∨ c = '-') := by
  cases x with
  | nan => cases hx
  | infinity => cases hx
  | finite negative m e =>
    cases negative with
    | true => exact ⟨'-', _, by simp [text]; rfl, .inr rfl⟩
    | false =>
      simp only [text, Bool.false_eq_true, if_false]
      split
      · exact ⟨'0', _, rfl, .inl rfl⟩
      · obtain ⟨c, cs, hc, hdigit⟩ := style.exists_cons_place Nat.toDigits_ne_nil
          (fun c hc => Nat.isDigit_of_mem_toDigits (b := 10) (by decide) (by decide) hc)
          (Binary64.shortest m e).2
        exact ⟨c, cs, hc, .inl hdigit⟩

namespace Yaml

open Json (isWord member? collect)

/-- **A key whose text is a word** is a string. -/
theorem Value.eq_string_of_keyText {v : Value} {k : String} (h : v.keyText = .ok k)
    (hk : isWord k = true) : v = .string k := by
  have hhead : ∀ {c : Char} {cs : List Char}, k.toList = c :: cs → ¬(c.isDigit = true ∨ c = '-') :=
    fun hc hdigit => by
      rw [Json.not_isWord_of_head hc hdigit] at hk
      cases hk
  cases v with
  | string s =>
    cases h
    rfl
  | bool b =>
    cases h
    cases b <;> cases hk
  | number n =>
    cases n with
    | int i =>
      cases h
      obtain ⟨c, cs, hc, hdigit⟩ := Json.exists_cons_toString i
      exact absurd hdigit (hhead hc)
    | float x =>
      rw [Value.keyText] at h
      split at h
      · rename_i hx
        cases h
        obtain ⟨c, cs, hc, hdigit⟩ := Json.floatStyle.exists_cons_text hx
        exact absurd hdigit (hhead hc)
      · cases h
  | _ => cases h

namespace Mapping

variable {m : Mapping} {l : List (String × Json)} {key : String} {v : Value} {j : Json}

/-- The members that entries become, one by one. -/
def Becomes (m : Mapping) (l : List (String × Json)) : Prop :=
  List.Forall₂ (fun e x => e.1.keyText = .ok x.1 ∧ e.2.toJson = .ok x.2) m l

theorem entriesToJson_eq_ok_iff : Value.entriesToJson m = .ok l ↔ Becomes m l := by
  induction m generalizing l with
  | nil => simp [Value.entriesToJson, Becomes, eq_comm]
  | cons e m ih =>
    obtain ⟨k, v⟩ := e
    simp only [Value.entriesToJson, except_bind_eq_ok_iff, ih, pure, Except.pure, Except.ok.injEq]
    constructor
    · rintro ⟨key, hkey, value, hvalue, r, hr, rfl⟩
      exact .cons ⟨hkey, hvalue⟩ hr
    · intro h
      cases h with
      | cons hx hr => exact ⟨_, hx.1, _, hx.2, _, hr, rfl⟩

theorem toJson_mapping_eq_ok_iff :
    (Value.mapping m).toJson = .ok j ↔ ∃ l, Becomes m l ∧ j = .object (collect l) := by
  simp only [Value.toJson, except_bind_eq_ok_iff, entriesToJson_eq_ok_iff, pure, Except.pure,
    Except.ok.injEq, Json.ofMembers_eq, eq_comm (b := j)]

theorem hasKey_iff {e : Value × Value} : hasKey key e = true ↔ e.1 = .string key := by
  obtain ⟨k, w⟩ := e
  cases k <;> simp [hasKey]

/-- A member whose name is a word comes from the entry of that string. -/
theorem Becomes.hasKey_iff {e : Value × Value} {x : String × Json} (h : e.1.keyText = .ok x.1)
    (hk : isWord key = true) : hasKey key e = true ↔ x.1 = key := by
  rw [Mapping.hasKey_iff]
  constructor
  · intro he
    rw [he] at h
    exact (Except.ok.inj h).symm
  · intro hx
    exact Value.eq_string_of_keyText (hx ▸ h) hk

/-- An entry that keeps its place is a member that keeps its place. -/
theorem Becomes.replace (h : Becomes m l) (hk : isWord key = true) (hv : v.toJson = .ok j) :
    Becomes (m.map fun e => if hasKey key e then (e.1, v) else e)
      (l.map fun x => if x.1 = key then (x.1, j) else x) := by
  induction h with
  | nil => exact .nil
  | @cons e x m l hx _ ih =>
    refine .cons ?_ ih
    have hiff := Becomes.hasKey_iff hx.1 hk
    dsimp only
    by_cases hkey : x.1 = key
    · rw [if_pos (hiff.2 hkey), if_pos hkey]
      exact ⟨hx.1, hv⟩
    · rw [if_neg fun he => hkey (hiff.1 he), if_neg hkey]
      exact hx

/-- **Binding a word** sets the member of that name and no other. -/
theorem Becomes.set (h : Becomes m l) (hk : isWord key = true) (hv : v.toJson = .ok j) :
    ∃ l', Becomes (m.set key v) l' ∧
      ∀ k, member? k (.object l') = if k = key then some j else member? k (.object l) := by
  have hany : m.any (hasKey key) = l.any fun x => x.1 == key := by
    induction h with
    | nil => rfl
    | cons hx _ ih =>
      rw [List.any_cons, List.any_cons, ih]
      congr 1
      rw [Bool.eq_iff_iff, Becomes.hasKey_iff hx.1 hk, beq_iff_eq]
  rw [Mapping.set, hany]
  split
  · rename_i hin
    simp only [List.any_eq_true, beq_iff_eq] at hin
    exact ⟨_, h.replace hk hv, fun k => Json.member?_map_replace hin k⟩
  · exact ⟨l ++ [(key, j)], List.rel_append h (.cons ⟨rfl, hv⟩ .nil), fun k => by
      rw [Json.member?_concat]
      simp only [eq_comm]⟩

/-- What a word is bound to is the member of that name. -/
theorem Becomes.toJson_of_member? (h : Becomes m l) (pm : (Value.mapping m).Proper)
    (hk : isWord key = true) (hmember : member? key (.object l) = some j)
    (hv : (.string key, v) ∈ m) : v.toJson = .ok j := by
  obtain ⟨e, he, hkey, hvalue⟩ : ∃ e ∈ m, e.1.keyText = .ok key ∧ e.2.toJson = .ok j := by
    have hmem := Json.mem_of_member? hmember
    clear hmember hv pm
    induction h with
    | nil => cases hmem
    | @cons e x m l hx _ ih =>
      rcases List.mem_cons.1 hmem with rfl | hmem
      · exact ⟨e, List.mem_cons_self, hx⟩
      · obtain ⟨e, he, h⟩ := ih hmem
        exact ⟨e, List.mem_cons_of_mem _ he, h⟩
  have hentry : (.string key, e.2) ∈ m := by
    rw [← Value.eq_string_of_keyText hkey hk]
    exact he
  have hsame := (get?_eq_some_iff pm).2 hv
  rw [(get?_eq_some_iff pm).2 hentry] at hsame
  exact Option.some_inj.1 hsame ▸ hvalue

theorem Becomes.exists_member (h : Becomes m l) {e : Value × Value} (he : e ∈ m) :
    ∃ x ∈ l, e.1.keyText = .ok x.1 ∧ e.2.toJson = .ok x.2 := by
  induction h with
  | nil => cases he
  | @cons f x m l hx _ ih =>
    rcases List.mem_cons.1 he with rfl | he
    · exact ⟨x, List.mem_cons_self, hx⟩
    · obtain ⟨y, hy, h⟩ := ih he
      exact ⟨y, List.mem_cons_of_mem _ hy, h⟩

end Mapping

end Yaml

end SiteConfig
