import Mathlib
import SiteConfig.Proofs.Outcome
import SiteConfig.Proofs.Reordering
import SiteConfig.Yaml.Decode

/-!
# Records, field by field

A record is read entry by entry, and what one entry states is put into the state that the entries
before it have left. When the known keys have **slots** of their own in that state
(`SiteConfig.Yaml.Slots`), the order does not matter: a record is read exactly when its keys are texts,
no known one is repeated, and every slot holds what its key is bound to or, if there is no such key,
what it held before (`SiteConfig.Yaml.Slots.record_eq_ok_iff`).
-/

namespace SiteConfig.Yaml

/-! ### Keys that are texts -/

theorem Decode.stringAs_eq_ok_iff {expected s : String} {v : Value} :
    Decode.stringAs expected v = .ok s ↔ v.asString? = some s := by
  rw [Decode.stringAs, Value.asString?]
  cases v.untag <;> simp [Decode.refuse]

namespace Mapping

variable {known : List String} {m : Mapping} {e : Value × Value} {key : String} {v : Value}

/-- What the first key that reads as a text is bound to. -/
def member? (m : Mapping) (key : String) : Option Value :=
  (m.find? fun e => e.1.asString? == some key).map (·.2)

theorem member?_cons (e : Value × Value) (m : Mapping) (key : String) :
    member? (e :: m) key = if e.1.asString? = some key then some e.2 else m.member? key := by
  rw [member?, List.find?_cons]
  by_cases h : e.1.asString? = some key
  · rw [if_pos h, h, beq_self_eq_true]
    rfl
  · rw [if_neg h, beq_false_of_ne h]
    rfl

theorem member?_eq_none_iff : m.member? key = none ↔ ∀ e ∈ m, e.1.asString? ≠ some key := by
  rw [member?, Option.map_eq_none_iff, List.find?_eq_none]
  simp

theorem exists_mem_of_member? (h : m.member? key = some v) :
    ∃ e ∈ m, e.1.asString? = some key ∧ e.2 = v := by
  obtain ⟨e, he, rfl⟩ := Option.map_eq_some_iff.1 h
  exact ⟨e, List.mem_of_find?_eq_some he, by simpa using List.find?_some he, rfl⟩

/-- The entries of a record: their keys are texts, and no known one is repeated. -/
structure Record (known : List String) (m : Mapping) : Prop where
  texts : ∀ e ∈ m, ∃ key, e.1.asString? = some key
  once : m.Pairwise fun e f => ∀ key ∈ known, e.1.asString? = some key → f.1.asString? ≠ some key

theorem record_nil (known : List String) : Record known [] := ⟨nofun, .nil⟩

theorem record_cons_iff : Record known (e :: m) ↔ (∃ key, e.1.asString? = some key) ∧
    (∀ key ∈ known, e.1.asString? = some key → m.member? key = none) ∧ m.Record known := by
  constructor
  · rintro ⟨htexts, honce⟩
    obtain ⟨hkey, htexts⟩ := List.forall_mem_cons.1 htexts
    obtain ⟨hhead, honce⟩ := List.pairwise_cons.1 honce
    exact ⟨hkey, fun key hknown he => member?_eq_none_iff.2 fun f hf => hhead f hf key hknown he,
      htexts, honce⟩
  · rintro ⟨hkey, hhead, htexts, honce⟩
    exact ⟨List.forall_mem_cons.2 ⟨hkey, htexts⟩, List.pairwise_cons.2 ⟨fun f hf key hknown he =>
      member?_eq_none_iff.1 (hhead key hknown he) f hf, honce⟩⟩

/-- In a record every entry with a known key is found. -/
theorem Record.member?_of_mem (h : m.Record known) (he : e ∈ m) (hknown : key ∈ known)
    (hkey : e.1.asString? = some key) : m.member? key = some e.2 := by
  induction m with
  | nil => cases he
  | cons f m ih =>
    obtain ⟨-, hhead, htail⟩ := record_cons_iff.1 h
    rw [member?_cons]
    rcases List.mem_cons.1 he with rfl | he
    · rw [if_pos hkey]
    · rw [if_neg fun hf => member?_eq_none_iff.1 (hhead key hknown hf) e he hkey]
      exact ih htail he

end Mapping

/-! ### Slots -/

/-- The place in a state that a key of a record fills. -/
structure Slot (σ : Type) where
  key : String
  {α : Type}
  /-- Whether a value states some content. -/
  states : Value → α → Prop
  get : σ → α
  set : α → σ → σ

variable {σ ρ : Type}

/-- The slot of `t` holds what a value states or, if there is none, what the slot of `s` holds. -/
def Slot.Holds (i : Slot σ) (s : σ) (o : Option Value) (t : σ) : Prop :=
  match o with
  | none => i.get t = i.get s
  | some v => i.states v (i.get t)

/-- **The slots of a record**: each entry fills the slot of its key and leaves the others, and the
rest of the state, as they are. -/
structure Slots (slots : List (Slot σ)) (rest : σ → ρ)
    (take : σ → String → Value → Except Mismatch σ) : Prop where
  nodup : (slots.map (·.key)).Nodup
  get_set : ∀ i ∈ slots, ∀ v a s, i.states v a → i.get (i.set a s) = a
  get_other : ∀ i ∈ slots, ∀ j ∈ slots, i.key ≠ j.key → ∀ a s, j.get (i.set a s) = j.get s
  rest_set : ∀ i ∈ slots, ∀ a s, rest (i.set a s) = rest s
  ext : ∀ s t, rest s = rest t → (∀ i ∈ slots, i.get s = i.get t) → s = t
  take : ∀ i ∈ slots, ∀ s v t, take s i.key v = .ok t ↔ ∃ a, i.states v a ∧ t = i.set a s

namespace Decode

variable (known : List String) (take : σ → String → Value → Except Mismatch σ)

/-- One entry of a record. -/
def takeEntry (acc : List String × σ) (e : Value × Value) :
    Except Mismatch (List String × σ) := do
  let key ← stringAs "field identifier" e.1
  if !known.contains key then return acc
  else if acc.1.contains key then throw (.duplicateField key)
  else return (key :: acc.1, ← take acc.2 key e.2)

theorem record_eq (name : String) (start : σ) (v : Value) : record name known start take v = do
    let m ← entries ("struct " ++ name) v
    return (← m.foldlM (takeEntry known take) ([], start)).2 := rfl

variable {known take} {seen : List String} {s : σ} {e : Value × Value} {acc : List String × σ}

/-- **An entry is taken** when its key is a text that is unknown, or that is new and can be taken. -/
theorem takeEntry_eq_ok_iff : takeEntry known take (seen, s) e = .ok acc ↔
    ∃ key, e.1.asString? = some key ∧ ((key ∉ known ∧ acc = (seen, s)) ∨
      (key ∈ known ∧ key ∉ seen ∧ ∃ t, take s key e.2 = .ok t ∧ acc = (key :: seen, t))) := by
  simp only [takeEntry, except_bind_eq_ok_iff, stringAs_eq_ok_iff]
  refine exists_congr fun key => and_congr_right fun _ => ?_
  by_cases hknown : key ∈ known
  · by_cases hseen : key ∈ seen
    · simp [hknown, hseen, throw, throwThe, MonadExceptOf.throw]
    · simp [hknown, hseen, except_bind_eq_ok_iff, pure, Except.pure, @eq_comm _ acc]
  · simp [hknown, pure, Except.pure, @eq_comm _ acc]

end Decode

namespace Slots

variable {slots : List (Slot σ)} {rest : σ → ρ} {take : σ → String → Value → Except Mismatch σ}
  {s t : σ} {seen : List String} {m : Mapping} {e : Value × Value} {i j : Slot σ}

open Decode Mapping

/-- Filling a slot does not touch the others. -/
theorem holds_set_iff (h : Slots slots rest take) (hi : i ∈ slots) (hj : j ∈ slots)
    (hij : i.key ≠ j.key) (a : i.α) (o : Option Value) : j.Holds (i.set a s) o t ↔ j.Holds s o t := by
  cases o with
  | none => rw [Slot.Holds, h.get_other i hi j hj hij, Slot.Holds]
  | some v => rfl

/-- **What is known once entries have been taken** from state `s` to state `t`, when some keys had been
seen before. -/
structure Taken (slots : List (Slot σ)) (rest : σ → ρ) (m : Mapping) (seen : List String) (s t : σ) :
    Prop where
  record : m.Record (slots.map (·.key))
  unseen : ∀ i ∈ slots, i.key ∈ seen → m.member? i.key = none
  holds : ∀ i ∈ slots, i.Holds s (m.member? i.key) t
  rest : rest t = rest s

/-- An entry with an unknown key is passed over. -/
theorem taken_cons_iff_of_unknown {key : String} (hkey : e.1.asString? = some key)
    (hunknown : key ∉ slots.map (·.key)) :
    Taken slots rest (e :: m) seen s t ↔ Taken slots rest m seen s t := by
  have hother : ∀ i ∈ slots, e.1.asString? ≠ some i.key := fun i hi heq =>
    hunknown (Option.some_inj.1 (hkey.symm.trans heq) ▸ List.mem_map_of_mem hi)
  have hmember : ∀ i ∈ slots, member? (e :: m) i.key = m.member? i.key := fun i hi => by
    rw [member?_cons, if_neg (hother i hi)]
  constructor
  · rintro ⟨hrecord, hunseen, hholds, hrest⟩
    exact ⟨(record_cons_iff.1 hrecord).2.2, fun i hi hin => hmember i hi ▸ hunseen i hi hin,
      fun i hi => hmember i hi ▸ hholds i hi, hrest⟩
  · rintro ⟨hrecord, hunseen, hholds, hrest⟩
    refine ⟨record_cons_iff.2 ⟨⟨key, hkey⟩, fun key' hknown heq => ?_, hrecord⟩,
      fun i hi hin => (hmember i hi).trans (hunseen i hi hin),
      fun i hi => (hmember i hi).symm ▸ hholds i hi, hrest⟩
    cases hkey.symm.trans heq
    exact absurd hknown hunknown

/-- An entry with a known key fills its slot. -/
theorem taken_cons_iff_of_known (h : Slots slots rest take) (hi : i ∈ slots)
    (hkey : e.1.asString? = some i.key) : Taken slots rest (e :: m) seen s t ↔
      i.key ∉ seen ∧ ∃ a, i.states e.2 a ∧ Taken slots rest m (i.key :: seen) (i.set a s) t := by
  have hself : member? (e :: m) i.key = some e.2 := by rw [member?_cons, if_pos hkey]
  have hother : ∀ j ∈ slots, i.key ≠ j.key → member? (e :: m) j.key = m.member? j.key :=
    fun j hj hij => by
      rw [member?_cons, if_neg fun heq => hij (Option.some_inj.1 (hkey.symm.trans heq))]
  have hsame : ∀ j ∈ slots, i.key = j.key → i = j := fun j hj hij =>
    List.inj_on_of_nodup_map h.nodup hi hj hij
  constructor
  · rintro ⟨hrecord, hunseen, hholds, hrest⟩
    obtain ⟨-, hfirst, hrecord⟩ := record_cons_iff.1 hrecord
    have hnone := hfirst i.key (List.mem_map_of_mem hi) hkey
    have hstates := hholds i hi
    rw [hself] at hstates
    refine ⟨fun hin => ?_, i.get t, hstates, hrecord, fun j hj hin => ?_, fun j hj => ?_,
      hrest.trans (h.rest_set i hi _ s).symm⟩
    · cases hself.symm.trans (hunseen i hi hin)
    · by_cases hij : i.key = j.key
      · exact hij ▸ hnone
      · rw [← hother j hj hij]
        exact hunseen j hj ((List.mem_cons.1 hin).resolve_left (Ne.symm hij))
    · by_cases hij : i.key = j.key
      · obtain rfl := hsame j hj hij
        rw [hnone, Slot.Holds, h.get_set i hi _ _ _ hstates]
      · rw [h.holds_set_iff hi hj hij, ← hother j hj hij]
        exact hholds j hj
  · rintro ⟨hnew, a, hstates, hrecord, hunseen, hholds, hrest⟩
    have hnone := hunseen i hi List.mem_cons_self
    refine ⟨record_cons_iff.2 ⟨⟨i.key, hkey⟩, fun key' _ heq => ?_, hrecord⟩, fun j hj hin => ?_,
      fun j hj => ?_, hrest.trans (h.rest_set i hi a s)⟩
    · cases hkey.symm.trans heq
      exact hnone
    · have hij : i.key ≠ j.key := fun hij => hnew (hij ▸ hin)
      rw [hother j hj hij]
      exact hunseen j hj (List.mem_cons_of_mem _ hin)
    · have hheld := hholds j hj
      by_cases hij : i.key = j.key
      · obtain rfl := hsame j hj hij
        rw [hnone, Slot.Holds, h.get_set i hi _ _ _ hstates] at hheld
        rw [hself, Slot.Holds, hheld]
        exact hstates
      · rw [hother j hj hij]
        exact (h.holds_set_iff hi hj hij a _).1 hheld

/-- **A run over entries** ends in a state exactly when that state holds what they state. -/
theorem foldlM_takeEntry_iff (h : Slots slots rest take) :
    (∃ seen', m.foldlM (takeEntry (slots.map (·.key)) take) (seen, s) = .ok (seen', t)) ↔
      Taken slots rest m seen s t := by
  induction m generalizing seen s with
  | nil =>
    rw [List.foldlM_nil]
    constructor
    · rintro ⟨seen', heq⟩
      cases heq
      exact ⟨record_nil _, fun _ _ _ => rfl, fun _ _ => rfl, rfl⟩
    · rintro ⟨-, -, hholds, hrest⟩
      obtain rfl := h.ext t s hrest hholds
      exact ⟨seen, rfl⟩
  | cons e m ih =>
    simp only [List.foldlM_cons, except_bind_eq_ok_iff, takeEntry_eq_ok_iff]
    constructor
    · rintro ⟨seen', acc, ⟨key, hkey, ⟨hunknown, rfl⟩ | ⟨hknown, hnew, s₁, htake, rfl⟩⟩, hrun⟩
      · exact (taken_cons_iff_of_unknown hkey hunknown).2 (ih.1 ⟨seen', hrun⟩)
      · obtain ⟨i, hi, rfl⟩ := List.mem_map.1 hknown
        obtain ⟨a, hstates, rfl⟩ := (h.take i hi s e.2 s₁).1 htake
        exact (h.taken_cons_iff_of_known hi hkey).2 ⟨hnew, a, hstates, ih.1 ⟨seen', hrun⟩⟩
    · intro htaken
      obtain ⟨key, hkey⟩ := htaken.record.texts e List.mem_cons_self
      by_cases hknown : key ∈ slots.map (·.key)
      · obtain ⟨i, hi, rfl⟩ := List.mem_map.1 hknown
        obtain ⟨hnew, a, hstates, htaken⟩ := (h.taken_cons_iff_of_known hi hkey).1 htaken
        obtain ⟨seen', hrun⟩ := ih.2 htaken
        exact ⟨seen', _, ⟨i.key, hkey, .inr ⟨hknown, hnew, _,
          (h.take i hi s e.2 _).2 ⟨a, hstates, rfl⟩, rfl⟩⟩, hrun⟩
      · obtain ⟨seen', hrun⟩ := ih.2 ((taken_cons_iff_of_unknown hkey hknown).1 htaken)
        exact ⟨seen', _, ⟨key, hkey, .inl ⟨hknown, rfl⟩⟩, hrun⟩

/-- **What a record states**, whatever the order of its entries. -/
theorem record_eq_ok_iff (h : Slots slots rest take) {name : String} {start : σ} {v : Value} :
    record name (slots.map (·.key)) start take v = .ok t ↔ ∃ m, entries ("struct " ++ name) v = .ok m ∧
      m.Record (slots.map (·.key)) ∧ (∀ i ∈ slots, i.Holds start (m.member? i.key) t) ∧
        rest t = rest start := by
  rw [record_eq]
  simp only [except_bind_eq_ok_iff, pure, Except.pure, Except.ok.injEq]
  refine exists_congr fun m => and_congr_right fun _ => ?_
  have hfold : (∃ seen, m.foldlM (takeEntry (slots.map (·.key)) take) ([], start) = .ok (seen, t)) ↔
      Taken slots rest m [] start t := h.foldlM_takeEntry_iff
  constructor
  · rintro ⟨⟨seen, s⟩, hrun, rfl⟩
    obtain ⟨hrecord, -, hholds, hrest⟩ := hfold.1 ⟨seen, hrun⟩
    exact ⟨hrecord, hholds, hrest⟩
  · rintro ⟨hrecord, hholds, hrest⟩
    obtain ⟨seen, hrun⟩ := hfold.2 ⟨hrecord, nofun, hholds, hrest⟩
    exact ⟨(seen, t), hrun, rfl⟩

end Slots

/-! ### Records within records -/

/-- A part of a state, given by how it is copied into another state. -/
structure Portion (σ : Type) where
  copy : σ → σ → σ
  copy_copy : ∀ a b s, copy a (copy b s) = copy a s
  copy_copy_left : ∀ a b s, copy (copy a b) s = copy a s
  copy_self : ∀ s, copy s s = s

/-- The slot of a key that is bound to a record of its own, which fills a part of the state. -/
def Portion.slot (part : Portion σ) (key : String) (base : σ) (decode : Decoder σ) : Slot σ :=
  { key, states := fun v a => decode v = .ok a, get := fun t => part.copy t base, set := part.copy }

/-- The slot of a key that is bound to a single content. -/
def Slot.single {α : Type} (key : String) (decode : Decoder α) (get : σ → α) (set : α → σ → σ) :
    Slot σ :=
  { key, states := fun v a => decode v = .ok a, get, set }

namespace Slots

variable {part : Portion σ} {base s t : σ} {slots : List (Slot σ)} {name : String} {v : Value}
  {take : σ → String → Value → Except Mismatch σ}

/-- A part that was read into the base is all that there is. -/
theorem copy_of_record (h : Slots slots (part.copy base) take)
    (ht : Decode.record name (slots.map (·.key)) base take v = .ok t) : part.copy t base = t := by
  obtain ⟨m, -, -, -, hrest⟩ := h.record_eq_ok_iff.1 ht
  rw [part.copy_self] at hrest
  rw [← hrest, part.copy_copy, part.copy_self]

/-- **A part is read as it is into the base**, wherever it is read into. -/
theorem record_copy_eq_ok_iff (h : Slots slots (part.copy base) take)
    (hget : ∀ i ∈ slots, ∀ a s, i.get (part.copy a s) = i.get a) :
    Decode.record name (slots.map (·.key)) (part.copy base s) take v = .ok t ↔
      ∃ a, Decode.record name (slots.map (·.key)) base take v = .ok a ∧ t = part.copy a s := by
  have hholds : ∀ i ∈ slots, ∀ (o : Option Value) (a a' b b' : σ), i.get a = i.get a' →
      i.get b = i.get b' → (i.Holds a o b ↔ i.Holds a' o b') := fun i _ o a a' b b' ha hb => by
    cases o <;> simp only [Slot.Holds, ha, hb]
  constructor
  · intro ht
    obtain ⟨m, hm, hrecord, hfilled, hrest⟩ := h.record_eq_ok_iff.1 ht
    rw [part.copy_copy] at hrest
    refine ⟨part.copy t base, h.record_eq_ok_iff.2 ⟨m, hm, hrecord, fun i hi => ?_, ?_⟩, ?_⟩
    · exact (hholds i hi _ _ _ _ _ (hget i hi base s) (hget i hi t base).symm).1 (hfilled i hi)
    · rw [part.copy_copy]
    · rw [part.copy_copy_left, ← part.copy_copy t base s, ← hrest, part.copy_copy, part.copy_self]
  · rintro ⟨a, ha, rfl⟩
    obtain ⟨m, hm, hrecord, hfilled, -⟩ := h.record_eq_ok_iff.1 ha
    refine h.record_eq_ok_iff.2 ⟨m, hm, hrecord, fun i hi => ?_, ?_⟩
    · exact (hholds i hi _ _ _ _ _ (hget i hi base s).symm (hget i hi a s).symm).1 (hfilled i hi)
    · rw [part.copy_copy, part.copy_copy]

end Slots

end SiteConfig.Yaml
