import Mathlib
import SiteConfig.Json.Reader
import SiteConfig.Proofs.Calendar

/-!
# The texts of JSON values

A value that is written without blanks is one line (`SiteConfig.Json.Readable.oneLine`), and it is
read as the same value (`SiteConfig.Json.Readable.read?_compact`): whatever a string contains is
escaped, and a number ends where something else than a digit stands.

This is so for values whose numbers are integers of at most 64 bits, down to the depth of nesting
that the reader refuses (`SiteConfig.Json.Readable`). Fractions are left out: what a fraction is
read as is a matter of rounding.

The reader is followed front to back. Each step says what is read from a text in front of some rest,
and the rest matters only where the text alone does not say that it is over
(`SiteConfig.Json.Ends`).
-/

namespace SiteConfig.Json

open Timestamp (EndsNumber takeWhile_digits dropWhile_digits)

/-! ### Strings -/

/-- **An escaped character is read** as itself. -/
theorem readString?_escape (c : Char) (rest : List Char) :
    readString? (escape c ++ rest) = (readString? rest).map fun p => (c :: p.1, p.2) := by
  have hcontrol : ∀ n < 32, unit? '0' '0' (hexDigit (n / 16)) (hexDigit (n % 16)) = some n := by
    decide
  unfold escape
  split
  case h_8 _ hquote hslash _ _ _ _ _ =>
    split
    · rename_i hlt
      have hread := hcontrol c.toNat hlt
      rw [List.cons_append, List.cons_append, List.cons_append, List.cons_append, List.cons_append,
        List.cons_append, List.nil_append, readString?, hread]
      simp only [Option.bind_eq_bind, Option.bind_some]
      rw [if_neg (by omega), if_neg (by omega), Char.ofNat_toNat]
      cases readString? rest <;> rfl
    · rename_i hge
      rw [List.singleton_append, readString?.eq_def]
      split
      · rename_i heq
        cases heq
      · rename_i heq
        cases heq
        exact absurd rfl hquote
      · rename_i heq
        cases heq
        exact absurd rfl hslash
      · rename_i heq
        cases heq
        exact absurd rfl hslash
      · rename_i heq
        cases heq
        rw [if_neg (by simpa using ⟨Nat.not_lt.1 hge, hslash⟩)]
  all_goals
    rw [List.cons_append, List.cons_append, List.nil_append, readString?]
    · simp only [letter?, Option.bind_eq_bind, Option.bind_some]
      cases readString? rest <;> rfl
    · intro a b c d r h
      cases h

/-- **What stands between quotes is read** up to the closing one. -/
theorem readString?_escaped (cs rest : List Char) :
    readString? (cs.flatMap escape ++ '"' :: rest) = some (cs, rest) := by
  induction cs with
  | nil => rfl
  | cons c cs ih =>
    rw [List.flatMap_cons, List.append_assoc, readString?_escape, ih]
    rfl

theorem toList_quote (s : String) :
    (quote s).toList = '"' :: (s.toList.flatMap escape ++ ['"']) := by
  rw [quote, String.toList_ofList, List.cons_append]

/-! ### Numbers -/

/-- A text does not go on with a part of a number. -/
def Ends (cs : List Char) : Prop := ∀ c ∈ cs.head?, c = ',' ∨ c = ']' ∨ c = '\x7d'

theorem Ends.endsNumber {cs : List Char} (h : Ends cs) : EndsNumber cs := by
  intro c hc
  obtain rfl | rfl | rfl := h c hc <;> rfl

theorem Ends.fraction? {cs : List Char} (h : Ends cs) : fraction? cs = some (none, cs) := by
  rcases cs with _ | ⟨c, cs⟩
  · rfl
  · obtain rfl | rfl | rfl := h c rfl <;> rfl

theorem Ends.exponent? {cs : List Char} (h : Ends cs) : exponent? cs = some (none, cs) := by
  rcases cs with _ | ⟨c, cs⟩
  · rfl
  · obtain rfl | rfl | rfl := h c rfl <;> rfl

/-- A number has no zeros in front. -/
theorem head?_toDigits_ne {n : Nat} (hn : 0 < n) : (Nat.toDigits 10 n).head? ≠ some '0' := by
  induction n using Nat.strongRecOn with
  | ind n ih =>
    rcases Nat.lt_or_ge n 10 with hlt | hge
    · rw [Nat.toDigits_of_lt_base hlt, List.head?_singleton, ne_eq, Option.some.injEq,
        Nat.digitChar_eq_zero]
      omega
    · rw [Nat.toDigits_of_base_le (by decide) hge,
        List.head?_append_of_ne_nil _ Nat.toDigits_ne_nil]
      exact ih _ (by omega) (by omega)

theorem not_leading (n : Nat) : ((Nat.toDigits 10 n).isEmpty ||
    (Nat.toDigits 10 n).head? == some '0' && decide (1 < (Nat.toDigits 10 n).length)) = false := by
  have hempty : (Nat.toDigits 10 n).isEmpty = false := by
    rw [List.isEmpty_eq_false_iff]
    exact Nat.toDigits_ne_nil
  rw [hempty, Bool.false_or, Bool.and_eq_false_iff]
  rcases Nat.eq_zero_or_pos n with rfl | hpos
  · exact .inr rfl
  · exact .inl (beq_false_of_ne (head?_toDigits_ne hpos))

theorem toList_negSucc (n : Nat) :
    (toString (Int.negSucc n)).toList = '-' :: Nat.toDigits 10 (n + 1) := by
  have htext : toString (Int.negSucc n) = "-" ++ (n + 1).repr := rfl
  rw [htext, String.toList_append, Nat.toList_repr]
  rfl

/-- **Numbers are read** as they are written. -/
theorem readNumber?_toString {i : Int} {rest : List Char} (hlow : -2 ^ 63 ≤ i) (hhigh : i < 2 ^ 64)
    (hrest : Ends rest) : readNumber? ((toString i).toList ++ rest) = some (.int i, rest) := by
  have hdigits : ∀ n, ∀ c ∈ Nat.toDigits 10 n, c.isDigit = true :=
    fun n c hc => Nat.isDigit_of_mem_toDigits (by decide) (by decide) hc
  have htake := fun n => takeWhile_digits (hdigits n) hrest.endsNumber
  have hdrop := fun n => dropWhile_digits (hdigits n) hrest.endsNumber
  have hvalue : ∀ n, digitsValue (Nat.toDigits 10 n) = n := fun n => Nat.ofDigitChars_ten_toDigits
  cases i with
  | ofNat n =>
    have htext : (toString (Int.ofNat n)).toList = Nat.toDigits 10 n := Nat.toList_repr
    have hsign : ∀ r, Nat.toDigits 10 n ++ rest ≠ '-' :: r := by
      intro r heq
      obtain ⟨c, ds, hc⟩ := List.exists_cons_of_ne_nil (Nat.toDigits_ne_nil (n := n) (b := 10))
      have hdigit := hdigits n c (hc ▸ List.mem_cons_self)
      rw [hc, List.cons_append, List.cons.injEq] at heq
      rw [heq.1] at hdigit
      cases hdigit
    rw [htext]
    unfold readNumber?
    split
    rename_i heq
    split at heq
    · rename_i heq'
      exact absurd heq' (hsign _)
    · cases heq
      dsimp only
      rw [htake, hdrop, not_leading, hvalue, hrest.fraction?]
      dsimp only [Option.bind_eq_bind, Option.bind_some]
      rw [hrest.exponent?]
      exact if_pos (Int.ofNat_lt.1 hhigh)
  | negSucc n =>
    have hle : n + 1 ≤ 2 ^ 63 := by
      rw [Int.negSucc_eq] at hlow
      omega
    rw [toList_negSucc, List.cons_append]
    unfold readNumber?
    split
    rename_i heq
    split at heq
    · rename_i heq'
      cases heq'
      cases heq
      dsimp only
      rw [htake, hdrop, not_leading, hvalue, hrest.fraction?]
      dsimp only [Option.bind_eq_bind, Option.bind_some]
      rw [hrest.exponent?]
      exact if_pos (show n + 1 ≠ 0 ∧ n + 1 ≤ Nat.pow 2 63 from ⟨Nat.succ_ne_zero n, hle⟩)
    · rename_i hsign
      exact absurd rfl (hsign _)

/-! ### Values -/

/-- **A value that is read back** where some levels of nesting are left: one without fractions,
whose numbers have at most 64 bits. -/
inductive Readable : Nat → Json → Prop
  | null {d : Nat} : Readable d .null
  | bool {d : Nat} (b : Bool) : Readable d (.bool b)
  | int {d : Nat} {i : Int} (hlow : -2 ^ 63 ≤ i) (hhigh : i < 2 ^ 64) : Readable d (.int i)
  | string {d : Nat} (s : String) : Readable d (.string s)
  | array {d : Nat} {items : List Json} (hd : 0 < d) (h : ∀ v ∈ items, Readable d v) :
      Readable (d + 1) (.array items)
  | object {d : Nat} {members : List (String × Json)} (hd : 0 < d)
      (h : ∀ m ∈ members, Readable d m.2) : Readable (d + 1) (.object members)

/-! ### The texts of arrays and objects -/

mutual
/-- What is put in front of other texts is the text of the value. -/
theorem join_compactOnto : ∀ (v : Json) (rest : List String),
    String.join (compactOnto rest v) = v.compact ++ String.join rest
  | .array items, rest => by
    rw [compact, compactOnto, compactOnto, String.join_cons, String.join_cons,
      join_compactItems items ("]" :: rest), join_compactItems items ["]"]]
    simp [String.append_assoc]
  | .object members, rest => by
    rw [compact, compactOnto, compactOnto, String.join_cons, String.join_cons,
      join_compactMembers members ("\x7d" :: rest), join_compactMembers members ["\x7d"]]
    simp [String.append_assoc]
  | .null, rest => by simp [compact, compactOnto]
  | .bool _, rest => by simp [compact, compactOnto]
  | .int _, rest => by simp [compact, compactOnto]
  | .float _, rest => by simp [compact, compactOnto]
  | .string _, rest => by simp [compact, compactOnto]

theorem join_compactItems : ∀ (items : List Json) (rest : List String) (first : Bool),
    String.join (compactItems rest first items)
      = String.join (compactItems [] first items) ++ String.join rest
  | [], rest, first => by simp [compactItems]
  | v :: items, rest, first => by
    rw [compactItems, compactItems]
    cases first <;> simp [join_compactOnto v (compactItems rest false items),
      join_compactOnto v (compactItems [] false items), join_compactItems items rest false,
      String.append_assoc]

theorem join_compactMembers : ∀ (members : List (String × Json)) (rest : List String)
    (first : Bool), String.join (compactMembers rest first members)
      = String.join (compactMembers [] first members) ++ String.join rest
  | [], rest, first => by simp [compactMembers]
  | (k, v) :: members, rest, first => by
    rw [compactMembers, compactMembers]
    cases first <;> simp [join_compactOnto v (compactMembers rest false members),
      join_compactOnto v (compactMembers [] false members),
      join_compactMembers members rest false, String.append_assoc]
end

theorem join_compactItems_rest (items : List Json) :
    String.join (compactItems [] false items)
      = String.join (items.map fun v => "," ++ v.compact) := by
  induction items with
  | nil => rfl
  | cons v items ih =>
    rw [compactItems, if_neg Bool.false_ne_true, String.join_cons, join_compactOnto, ih,
      List.map_cons, String.join_cons, String.append_assoc]

theorem join_compactMembers_rest (members : List (String × Json)) :
    String.join (compactMembers [] false members)
      = String.join (members.map fun m => "," ++ (quote m.1 ++ ":" ++ m.2.compact)) := by
  induction members with
  | nil => rfl
  | cons m members ih =>
    obtain ⟨k, v⟩ := m
    rw [compactMembers, if_neg Bool.false_ne_true, String.join_cons, String.join_cons,
      String.join_cons, join_compactOnto, ih, List.map_cons, String.join_cons]
    simp only [String.append_assoc]

/-- The text of further items. -/
def itemsText (items : List Json) : List Char := items.flatMap fun v => ',' :: v.compact.toList

/-- The text of a member. -/
def memberText (m : String × Json) : List Char := (quote m.1).toList ++ ':' :: m.2.compact.toList

/-- The text of further members. -/
def membersText (members : List (String × Json)) : List Char :=
  members.flatMap fun m => ',' :: memberText m

theorem toList_array (v : Json) (items : List Json) :
    (Json.array (v :: items)).compact.toList
      = '[' :: (v.compact.toList ++ (itemsText items ++ [']'])) := by
  have hopen : "[".toList = ['['] := rfl
  have hclose : "]".toList = [']'] := rfl
  have hcomma : ",".toList = [','] := rfl
  have hitems : ∀ items : List Json,
      (String.join (items.map fun v => "," ++ v.compact)).toList = itemsText items := by
    intro items
    rw [String.toList_join, List.flatMap_map]
    refine List.flatMap_congr fun v _ => ?_
    rw [String.toList_append, hcomma, List.singleton_append]
  rw [compact, compactOnto, compactItems, if_pos rfl, String.join_cons, join_compactOnto,
    join_compactItems, join_compactItems_rest, String.join_cons, String.join_nil,
    String.append_empty, String.toList_append, String.toList_append, String.toList_append, hitems,
    hopen, hclose, List.singleton_append]

theorem toList_object (m : String × Json) (members : List (String × Json)) :
    (Json.object (m :: members)).compact.toList
      = '\x7b' :: (memberText m ++ (membersText members ++ ['\x7d'])) := by
  have hopen : "\x7b".toList = ['\x7b'] := rfl
  have hclose : "\x7d".toList = ['\x7d'] := rfl
  have hcomma : ",".toList = [','] := rfl
  have hcolon : ":".toList = [':'] := rfl
  have hmembers : ∀ members : List (String × Json),
      (String.join (members.map fun m => "," ++ (quote m.1 ++ ":" ++ m.2.compact))).toList
        = membersText members := by
    intro members
    rw [String.toList_join, List.flatMap_map]
    refine List.flatMap_congr fun m _ => ?_
    rw [String.toList_append, String.toList_append, String.toList_append, memberText,
      List.append_assoc, hcomma, hcolon, List.singleton_append, List.singleton_append]
  obtain ⟨k, v⟩ := m
  rw [compact, compactOnto, compactMembers, if_pos rfl, String.join_cons, String.join_cons,
    String.join_cons, join_compactOnto, join_compactMembers, join_compactMembers_rest,
    String.join_cons, String.join_nil, String.append_empty, String.toList_append,
    String.toList_append, String.toList_append, String.toList_append, String.toList_append,
    hmembers, memberText, List.append_assoc, hopen, hclose, hcolon, List.singleton_append,
    List.singleton_append, List.cons_append]

theorem compact_int (i : Int) : (Json.int i).compact = toString i := by
  rw [compact, compactOnto, String.join_cons, String.join_nil, String.append_empty]
  · rfl
  all_goals
    intro _ h
    cases h

theorem compact_string (s : String) : (Json.string s).compact = quote s := by
  rw [compact, compactOnto, String.join_cons, String.join_nil, String.append_empty]
  · rfl
  all_goals
    intro _ h
    cases h

theorem exists_cons_toString (i : Int) : ∃ c cs, (toString i).toList = c :: cs ∧
    (c.isDigit = true ∨ c = '-') := by
  cases i with
  | ofNat n =>
    obtain ⟨c, cs, hc⟩ := List.exists_cons_of_ne_nil (Nat.toDigits_ne_nil (n := n) (b := 10))
    exact ⟨c, cs, Nat.toList_repr.trans hc,
      .inl (Nat.isDigit_of_mem_toDigits (by decide) (by decide) (hc ▸ List.mem_cons_self))⟩
  | negSucc n =>
    exact ⟨'-', _, toList_negSucc n, .inr rfl⟩

theorem not_blank {c : Char} (h : c.isDigit = true ∨ c = '-') :
    (c == ' ' || c == '\t' || c == '\n' || c == '\r') = false := by
  by_contra hblank
  simp only [Bool.not_eq_false, Bool.or_eq_true, beq_iff_eq] at hblank
  obtain ((rfl | rfl) | rfl) | rfl := hblank <;> obtain h | h := h <;> cases h

theorem dropBlanks_cons {c : Char} (h : (c == ' ' || c == '\t' || c == '\n' || c == '\r') = false)
    (cs : List Char) : dropBlanks (c :: cs) = c :: cs := by
  rw [dropBlanks, List.dropWhile_cons_of_neg]
  rw [h]
  exact Bool.false_ne_true

/-- A text that begins like a number is read as one. -/
theorem readValue?_number {d fuel : Nat} {c : Char} (h : c.isDigit = true ∨ c = '-')
    (cs : List Char) : readValue? d (fuel + 1) (c :: cs) = readNumber? (c :: cs) := by
  rw [readValue?, dropBlanks_cons (not_blank h)]
  split
  all_goals
    rename_i heq
    first
      | rfl
      | (cases heq; obtain h | h := h <;> cases h)

/-- A value begins neither with a blank nor with a bracket that ends an array. -/
theorem Readable.exists_cons {d : Nat} {v : Json} (h : Readable d v) : ∃ c cs,
    v.compact.toList = c :: cs ∧ (c == ' ' || c == '\t' || c == '\n' || c == '\r') = false ∧
      c ≠ ']' := by
  have hbracket : '[' ≠ ']' := by decide
  cases h with
  | null => exact ⟨'n', _, rfl, rfl, by decide⟩
  | bool b =>
    cases b
    · exact ⟨'f', _, rfl, rfl, by decide⟩
    · exact ⟨'t', _, rfl, rfl, by decide⟩
  | @int _ i =>
    obtain ⟨c, cs, htext, hc⟩ := exists_cons_toString i
    refine ⟨c, cs, (congrArg String.toList (compact_int i)).trans htext, not_blank hc, ?_⟩
    rintro rfl
    obtain hc | hc := hc <;> cases hc
  | string s =>
    exact ⟨'"', _, (congrArg String.toList (compact_string s)).trans (toList_quote s), rfl,
      by decide⟩
  | @array d items _ _ =>
    cases items with
    | nil => exact ⟨'[', _, rfl, rfl, hbracket⟩
    | cons v items => exact ⟨'[', _, toList_array v items, rfl, hbracket⟩
  | @object d members _ _ =>
    cases members with
    | nil => exact ⟨'\x7b', _, rfl, rfl, by decide⟩
    | cons m members => exact ⟨'\x7b', _, toList_object m members, rfl, by decide⟩

/-! ### Reading values -/

/-- A value is read in front of anything that does not go on with a number. The count that bounds
the work is the length of the text at least. -/
def ReadsBack (d : Nat) (v : Json) : Prop :=
  ∀ (fuel : Nat) (rest : List Char), v.compact.toList.length ≤ fuel → Ends rest →
    readValue? d fuel (v.compact.toList ++ rest) = some (v, rest)

/-- Items are read up to the bracket. -/
theorem readItems?_itemsText {d : Nat} {v : Json} {items : List Json}
    (h : ∀ w ∈ v :: items, ReadsBack d w) {fuel : Nat} (rest : List Char)
    (hfuel : v.compact.toList.length + (itemsText items).length + 1 ≤ fuel) :
    readItems? d fuel (v.compact.toList ++ (itemsText items ++ ']' :: rest))
      = some (v :: items, rest) := by
  induction items generalizing v fuel with
  | nil =>
    obtain ⟨fuel, rfl⟩ : ∃ n, fuel = n + 1 := ⟨fuel - 1, by omega⟩
    have hends : Ends (']' :: rest) := by
      intro c hc
      cases hc
      exact .inr (.inl rfl)
    have hfirst := h v List.mem_cons_self fuel (']' :: rest) (by omega) hends
    rw [readItems?, itemsText, List.flatMap_nil, List.nil_append, hfirst]
    rfl
  | cons w items ih =>
    obtain ⟨fuel, rfl⟩ : ∃ n, fuel = n + 1 := ⟨fuel - 1, by omega⟩
    have htext : itemsText (w :: items) ++ ']' :: rest
        = ',' :: (w.compact.toList ++ (itemsText items ++ ']' :: rest)) := by
      rw [itemsText, List.flatMap_cons, List.append_assoc, List.cons_append]
      rfl
    have hlength : (itemsText (w :: items)).length
        = w.compact.toList.length + (itemsText items).length + 1 := by
      rw [itemsText, List.flatMap_cons, List.length_append, List.length_cons]
      exact Nat.add_right_comm _ _ _
    have hends : Ends (',' :: (w.compact.toList ++ (itemsText items ++ ']' :: rest))) := by
      intro c hc
      cases hc
      exact .inl rfl
    have hfirst := h v List.mem_cons_self fuel _ (by omega) hends
    have hothers := ih (fun x hx => h x (List.mem_cons_of_mem v hx))
      (show w.compact.toList.length + (itemsText items).length + 1 ≤ fuel by omega)
    rw [readItems?, htext, hfirst]
    show (readItems? d fuel (w.compact.toList ++ (itemsText items ++ ']' :: rest))).map _ = _
    rw [hothers]
    rfl

/-- Members are read up to the brace. -/
theorem readMembers?_membersText {d : Nat} {m : String × Json} {members : List (String × Json)}
    (h : ∀ w ∈ m :: members, ReadsBack d w.2) {fuel : Nat} (rest : List Char)
    (hfuel : (memberText m).length + (membersText members).length ≤ fuel) :
    readMembers? d fuel (memberText m ++ (membersText members ++ '\x7d' :: rest))
      = some (m :: members, rest) := by
  have hlength : ∀ m : String × Json, m.2.compact.toList.length + 3 ≤ (memberText m).length := by
    intro m
    rw [memberText, toList_quote, List.length_append, List.length_cons, List.length_append,
      List.length_cons, List.length_cons]
    simp only [List.length_nil]
    omega
  induction members generalizing m fuel with
  | nil =>
    have hlong := hlength m
    obtain ⟨fuel, rfl⟩ : ∃ n, fuel = n + 1 := ⟨fuel - 1, by omega⟩
    have hends : Ends ('\x7d' :: rest) := by
      intro c hc
      cases hc
      exact .inr (.inr rfl)
    have hvalue := h m List.mem_cons_self fuel ('\x7d' :: rest) (by omega) hends
    rw [membersText, List.flatMap_nil, List.nil_append, memberText, toList_quote, List.append_assoc,
      List.cons_append, List.append_assoc, readMembers?]
    show (readString? _).bind _ = _
    rw [List.cons_append, List.nil_append, readString?_escaped, Option.bind_some]
    show (readValue? d fuel (m.2.compact.toList ++ _)).bind _ = _
    rw [hvalue, String.ofList_toList]
    rfl
  | cons w members ih =>
    have hlong := hlength m
    obtain ⟨fuel, rfl⟩ : ∃ n, fuel = n + 1 := ⟨fuel - 1, by omega⟩
    have htext : membersText (w :: members) ++ '\x7d' :: rest
        = ',' :: (memberText w ++ (membersText members ++ '\x7d' :: rest)) := by
      rw [membersText, List.flatMap_cons, List.append_assoc, List.cons_append]
      rfl
    have hmore : (membersText (w :: members)).length
        = (memberText w).length + (membersText members).length + 1 := by
      rw [membersText, List.flatMap_cons, List.length_append, List.length_cons]
      exact Nat.add_right_comm _ _ _
    have hends : Ends (',' :: (memberText w ++ (membersText members ++ '\x7d' :: rest))) := by
      intro c hc
      cases hc
      exact .inl rfl
    have hvalue := h m List.mem_cons_self fuel _ (by omega) hends
    have hothers := ih (fun x hx => h x (List.mem_cons_of_mem m hx))
      (show (memberText w).length + (membersText members).length ≤ fuel by omega)
    rw [htext, memberText, toList_quote, List.append_assoc,
      List.cons_append, List.append_assoc, readMembers?]
    show (readString? _).bind _ = _
    rw [List.cons_append, List.nil_append, readString?_escaped, Option.bind_some]
    show (readValue? d fuel (m.2.compact.toList ++ _)).bind _ = _
    rw [hvalue, Option.bind_some]
    show (readMembers? d fuel _).map _ = _
    rw [hothers, String.ofList_toList]
    rfl

/-- What begins with a bracket is read as an array. -/
theorem readValue?_array {d fuel : Nat} {r : List Char} (hd : 0 < d)
    (h : ∀ r', dropBlanks r ≠ ']' :: r') : readValue? (d + 1) (fuel + 1) ('[' :: r)
      = (readItems? d fuel (dropBlanks r)).map fun p => (.array p.1, p.2) := by
  have hblank : dropBlanks ('[' :: r) = '[' :: r := rfl
  rw [readValue?, hblank]
  refine (if_neg (Nat.not_le_of_gt (Nat.succ_lt_succ hd))).trans ?_
  split
  · rename_i heq
    exact absurd heq (h _)
  · rfl

/-- What begins with a brace is read as an object. -/
theorem readValue?_object {d fuel : Nat} {r : List Char} (hd : 0 < d)
    (h : ∀ r', dropBlanks r ≠ '\x7d' :: r') : readValue? (d + 1) (fuel + 1) ('\x7b' :: r)
      = (readMembers? d fuel (dropBlanks r)).map fun p => (.object p.1, p.2) := by
  have hblank : dropBlanks ('\x7b' :: r) = '\x7b' :: r := rfl
  rw [readValue?, hblank]
  refine (if_neg (Nat.not_le_of_gt (Nat.succ_lt_succ hd))).trans ?_
  split
  · rename_i heq
    exact absurd heq (h _)
  · rfl

/-- No text is empty, so that there is always some work left. -/
theorem Readable.readsBack_of {d : Nat} {v : Json} (hv : Readable d v)
    (h : ∀ (fuel : Nat) (rest : List Char), v.compact.toList.length ≤ fuel + 1 → Ends rest →
      readValue? d (fuel + 1) (v.compact.toList ++ rest) = some (v, rest)) : ReadsBack d v := by
  intro fuel rest hfuel hrest
  obtain ⟨c, cs, hcs, -⟩ := hv.exists_cons
  obtain ⟨fuel, rfl⟩ : ∃ n, fuel = n + 1 := by
    rw [hcs, List.length_cons] at hfuel
    exact ⟨fuel - 1, by omega⟩
  exact h fuel rest hfuel hrest

/-- **Values are read back.** -/
theorem Readable.readsBack {d : Nat} {v : Json} (h : Readable d v) : ReadsBack d v := by
  induction h with
  | null => exact Readable.null.readsBack_of fun fuel rest _ _ => rfl
  | bool b => exact (Readable.bool b).readsBack_of fun fuel rest _ _ => by cases b <;> rfl
  | @int d i hlow hhigh =>
    refine (Readable.int hlow hhigh).readsBack_of fun fuel rest _ hrest => ?_
    obtain ⟨c, cs, htext, hc⟩ := exists_cons_toString i
    have hread := readNumber?_toString hlow hhigh hrest
    rw [htext, List.cons_append] at hread
    rw [compact_int, htext, List.cons_append, readValue?_number hc, hread]
  | string s =>
    refine (Readable.string s).readsBack_of fun fuel rest _ _ => ?_
    rw [compact_string, toList_quote, List.cons_append, List.append_assoc]
    show (readString? (s.toList.flatMap escape ++ '"' :: rest)).map _ = _
    rw [readString?_escaped, Option.map_some]
    simp only [String.ofList_toList]
  | @array d items hd h ih =>
    refine (Readable.array hd h).readsBack_of fun fuel rest hfuel _ => ?_
    cases items with
    | nil => exact if_neg (by omega)
    | cons v items =>
      obtain ⟨c, cs, hcs, hblank, hne⟩ := (h v List.mem_cons_self).exists_cons
      have hdrop : ∀ r, dropBlanks (v.compact.toList ++ r) = v.compact.toList ++ r := by
        intro r
        rw [hcs, List.cons_append, dropBlanks_cons hblank]
      rw [toList_array] at hfuel ⊢
      simp only [List.length_cons, List.length_append, List.length_nil] at hfuel
      rw [List.cons_append, List.append_assoc, List.append_assoc, readValue?_array hd, hdrop,
        List.singleton_append, readItems?_itemsText ih rest (by omega)]
      · rfl
      · intro r' heq
        rw [hdrop, hcs, List.cons_append, List.cons.injEq] at heq
        exact hne heq.1
  | @object d members hd h ih =>
    refine (Readable.object hd h).readsBack_of fun fuel rest hfuel _ => ?_
    cases members with
    | nil => exact if_neg (by omega)
    | cons m members =>
      have hdrop : ∀ r, dropBlanks (memberText m ++ r) = memberText m ++ r := by
        intro r
        rw [memberText, toList_quote]
        rfl
      rw [toList_object] at hfuel ⊢
      simp only [List.length_cons, List.length_append, List.length_nil] at hfuel
      rw [List.cons_append, List.append_assoc, List.append_assoc, readValue?_object hd, hdrop,
        List.singleton_append, readMembers?_membersText ih rest (by omega)]
      · rfl
      · intro r' heq
        rw [hdrop, memberText, toList_quote] at heq
        cases heq

/-- **What is written is read.** -/
theorem Readable.read?_compact {v : Json} (h : Readable maxDepth v) : read? v.compact = some v := by
  have hread := h.readsBack (v.compact.toList.length + 2) [] (Nat.le_add_right _ _)
    (fun c hc => by cases hc)
  rw [List.append_nil] at hread
  unfold read?
  simp only
  rw [hread]
  rfl

/-! ### Lines -/

/-- A text has no control characters: no line ends in it. -/
def OneLine (cs : List Char) : Prop := ∀ c ∈ cs, 0x20 ≤ c.toNat

instance (cs : List Char) : Decidable (OneLine cs) := List.decidableBAll _ _

theorem oneLine_cons {c : Char} {cs : List Char} :
    OneLine (c :: cs) ↔ 0x20 ≤ c.toNat ∧ OneLine cs :=
  List.forall_mem_cons

theorem oneLine_append {cs ds : List Char} : OneLine (cs ++ ds) ↔ OneLine cs ∧ OneLine ds :=
  List.forall_mem_append

theorem oneLine_flatMap {α : Type} {l : List α} {f : α → List Char} :
    OneLine (l.flatMap f) ↔ ∀ a ∈ l, OneLine (f a) :=
  List.forall_mem_flatMap

theorem oneLine_escape (c : Char) : OneLine (escape c) := by
  have hhex : ∀ n < 16, 0x20 ≤ (hexDigit n).toNat := by decide
  unfold escape
  split
  case h_8 =>
    split
    · simp only [oneLine_cons]
      exact ⟨by decide, by decide, by decide, by decide, hhex _ (by omega), hhex _ (by omega),
        by decide⟩
    · rename_i hge
      exact oneLine_cons.2 ⟨Nat.not_lt.1 hge, by decide⟩
  all_goals decide

theorem oneLine_quote (s : String) : OneLine (quote s).toList := by
  rw [toList_quote, oneLine_cons, oneLine_append, oneLine_flatMap]
  exact ⟨by decide, fun c _ => oneLine_escape c, by decide⟩

theorem oneLine_toString (i : Int) : OneLine (toString i).toList := by
  have hdigits : ∀ n, OneLine (Nat.toDigits 10 n) := by
    intro n c hc
    have hdigit := Nat.isDigit_of_mem_toDigits (by decide) (by decide) hc
    exact Nat.le_trans (by decide) (Char.isDigit_iff_toNat.1 hdigit).1
  cases i with
  | ofNat n => exact (Nat.toList_repr (n := n)).symm ▸ hdigits n
  | negSucc n =>
    rw [toList_negSucc, oneLine_cons]
    exact ⟨by decide, hdigits _⟩

/-- **A text is one line.** -/
theorem Readable.oneLine {d : Nat} {v : Json} (h : Readable d v) : OneLine v.compact.toList := by
  induction h with
  | null => decide
  | bool b => cases b <;> decide
  | @int d i _ _ =>
    rw [compact_int]
    exact oneLine_toString i
  | string s =>
    rw [compact_string]
    exact oneLine_quote s
  | @array d items _ _ ih =>
    cases items with
    | nil => decide
    | cons v items =>
      rw [toList_array, oneLine_cons, oneLine_append, oneLine_append, itemsText, oneLine_flatMap]
      exact ⟨by decide, ih v List.mem_cons_self,
        fun w hw => oneLine_cons.2 ⟨by decide, ih w (List.mem_cons_of_mem v hw)⟩, by decide⟩
  | @object d members _ _ ih =>
    cases members with
    | nil => decide
    | cons m members =>
      have hmember : ∀ w ∈ m :: members, OneLine (memberText w) := fun w hw =>
        oneLine_append.2 ⟨oneLine_quote w.1, oneLine_cons.2 ⟨by decide, ih w hw⟩⟩
      rw [toList_object, oneLine_cons, oneLine_append, oneLine_append, membersText, oneLine_flatMap]
      exact ⟨by decide, hmember m List.mem_cons_self,
        fun w hw => oneLine_cons.2 ⟨by decide, hmember w (List.mem_cons_of_mem m hw)⟩, by decide⟩

end SiteConfig.Json
