import Mathlib
import SiteConfig.Timestamp

/-!
# Dates and the texts of points in time

Days are counted from the first of January 1970, and every day has one date
(`SiteConfig.Timestamp.exists_dateOfDays`). The calendar repeats itself after an era of four hundred
years; within an era the years begin with March, so that the day that is only sometimes there is the
last one of a year.

A point in time is written in one way, and what is written is read as the same point in time
(`SiteConfig.Timestamp.Valid.parse?_text`). This holds in all years that can be read at all
(`SiteConfig.Timestamp.Valid`), before the common era and after the year 9999 as well, for all
fractions of a second, and for leap seconds.
-/

namespace SiteConfig.Timestamp

/-! ### Years of an era -/

/-- The days of an era before one of its years, which are counted from March. -/
def yearStart (y : Nat) : Nat := 365 * y + y / 4 - y / 100 + y / 400

/-- The year of an era that has a day. -/
def yearOf (n : Nat) : Nat := (n - n / 1460 + n / 36524 - n / 146096) / 365

theorem yearOf_mono {a b : Nat} (h : a ≤ b) : yearOf a ≤ yearOf b := by
  refine monotone_nat_of_le_succ (fun n => ?_) h
  unfold yearOf
  refine Nat.div_le_div_right ?_
  omega

/-- A year has its first day and its last one. -/
theorem yearOf_yearStart :
    ∀ y < 400, yearOf (yearStart (y + 1) - 1) ≤ y ∧ y ≤ yearOf (yearStart y) := by
  decide +kernel

theorem yearOf_le {n : Nat} (h : n ≤ 146096) : yearOf n ≤ 399 := yearOf_mono h

/-- **The year of a day** begins before the day is over and ends after it. -/
theorem yearStart_yearOf {n : Nat} (h : n ≤ 146096) :
    yearStart (yearOf n) ≤ n ∧ n < yearStart (yearOf n + 1) := by
  have hle := yearOf_le h
  constructor
  · by_contra hlt
    have hpos : 0 < yearOf n := by
      refine Nat.pos_of_ne_zero fun h0 => hlt ?_
      rw [h0]
      exact Nat.zero_le n
    have hprev := (yearOf_yearStart (yearOf n - 1) (by omega)).1
    rw [Nat.sub_add_cancel hpos] at hprev
    have hmono := yearOf_mono (a := n) (b := yearStart (yearOf n) - 1) (by omega)
    omega
  · by_contra hge
    by_cases hlast : yearOf n = 399
    · rw [hlast] at hge
      exact hge (Nat.lt_of_le_of_lt h (by decide))
    · have hnext := (yearOf_yearStart (yearOf n + 1) (by omega)).2
      have hmono := yearOf_mono (a := yearStart (yearOf n + 1)) (b := n) (by omega)
      omega

theorem yearStart_succ : ∀ y < 400, yearStart (y + 1) = yearStart y +
    if isLeapYear (y + 1) then 366 else 365 := by
  decide +kernel

theorem isLeapYear_add_era (y era : Int) : isLeapYear (y + era * 400) = isLeapYear y := by
  have h4 : (y + era * 400) % 4 = y % 4 := by omega
  have h100 : (y + era * 400) % 100 = y % 100 := by omega
  have h400 : (y + era * 400) % 400 = y % 400 := by omega
  rw [isLeapYear, isLeapYear, h4, h100, h400]

/-! ### Days of a year -/

/-- The month of a day of a year, both counted from March. -/
def monthOf (n : Nat) : Nat := (5 * n + 2) / 153

/-- A day of a year is the day of a month. No month is too short for its days but February, which
has the last day of a leap year. -/
structure DayOfMonth (n m d : Nat) : Prop where
  month : (1 ≤ m ∧ m ≤ 12) ∧ (m + 9) % 12 = monthOf n
  day : 1 ≤ d ∧ (153 * monthOf n + 2) / 5 + d = n + 1
  inMonth : d ≤ daysInMonth 1 m ∨ m = 2 ∧ d = 29 ∧ n = 365

instance (n m d : Nat) : Decidable (DayOfMonth n m d) :=
  decidable_of_iff (((1 ≤ m ∧ m ≤ 12) ∧ (m + 9) % 12 = monthOf n) ∧
      (1 ≤ d ∧ (153 * monthOf n + 2) / 5 + d = n + 1) ∧
      (d ≤ daysInMonth 1 m ∨ m = 2 ∧ d = 29 ∧ n = 365))
    ⟨fun h => ⟨h.1, h.2.1, h.2.2⟩, fun h => ⟨h.month, h.day, h.inMonth⟩⟩

theorem dayOfMonth : ∀ n < 366, DayOfMonth n
    (if monthOf n < 10 then monthOf n + 3 else monthOf n - 9)
    (n - (153 * monthOf n + 2) / 5 + 1) := by
  decide +kernel

theorem daysInMonth_one_le (y : Int) (m : Nat) : daysInMonth 1 m ≤ daysInMonth y m := by
  have hone : isLeapYear 1 = false := rfl
  unfold daysInMonth
  split
  case h_1 =>
    rw [hone]
    cases isLeapYear y <;> decide
  all_goals exact le_refl _

theorem daysInMonth_le (y : Int) (m : Nat) : daysInMonth y m ≤ 31 := by
  unfold daysInMonth
  split
  case h_1 => cases isLeapYear y <;> decide
  all_goals decide

/-! ### Dates -/

/-- The date of a day of an era. -/
theorem dateOfDays_eq (era : Int) {n : Nat} (h : n ≤ 146096) :
    dateOfDays (era * 146097 + n - 719468) =
      let k := n - yearStart (yearOf n)
      let m := if monthOf k < 10 then monthOf k + 3 else monthOf k - 9
      (if m ≤ 2 then yearOf n + era * 400 + 1 else yearOf n + era * 400, m,
        k - (153 * monthOf k + 2) / 5 + 1) := by
  have hera : (era * 146097 + n - 719468 + 719468).fdiv 146097 = era := by
    rw [Int.fdiv_eq_ediv_of_nonneg _ (by norm_num)]
    omega
  have hday : (era * 146097 + n - 719468 + 719468 : Int) - era * 146097 = n := by ring
  have hyear : ((n : Int) - n / 1460 + n / 36524 - n / 146096) / 365 = yearOf n := by
    unfold yearOf
    omega
  have hle := yearOf_le h
  have hstart := (yearStart_yearOf h).1
  have hdayOfYear : (n : Int) - (365 * yearOf n + yearOf n / 4 - yearOf n / 100)
      = (n - yearStart (yearOf n) : Nat) := by
    have hcast : (yearStart (yearOf n) : Int)
        = 365 * yearOf n + yearOf n / 4 - yearOf n / 100 := by
      unfold yearStart
      omega
    omega
  unfold dateOfDays
  simp only [hera, hday, hyear, hdayOfYear]
  generalize n - yearStart (yearOf n) = k
  have hfromMarch : (5 * (k : Int) + 2) / 153 = monthOf k := by
    unfold monthOf
    omega
  have hmonth : (if (monthOf k : Int) < 10 then (monthOf k : Int) + 3 else monthOf k - 9).toNat
      = if monthOf k < 10 then monthOf k + 3 else monthOf k - 9 := by
    split <;> split <;> omega
  have hdayOfMonth : ((k : Int) - (153 * monthOf k + 2) / 5 + 1).toNat
      = k - (153 * monthOf k + 2) / 5 + 1 := by
    have hbefore : (153 * monthOf k + 2) / 5 ≤ k := by
      unfold monthOf
      omega
    omega
  simp only [hfromMarch, hmonth, hdayOfMonth]

/-- **Every day has a date**, which is the date of that day. -/
theorem exists_dateOfDays (days : Int) : ∃ y m d, dateOfDays days = (y, m, d) ∧
    (1 ≤ m ∧ m ≤ 12) ∧ (1 ≤ d ∧ d ≤ daysInMonth y m) ∧ daysOfDate y m d = days := by
  obtain ⟨era, n, hn, rfl⟩ :
      ∃ (era : Int) (n : Nat), n ≤ 146096 ∧ days = era * 146097 + n - 719468 :=
    ⟨(days + 719468) / 146097, ((days + 719468) % 146097).toNat, by omega, by omega⟩
  refine ⟨_, _, _, dateOfDays_eq era hn, ?_⟩
  have hle := yearOf_le hn
  obtain ⟨hstart, hend⟩ := yearStart_yearOf hn
  have hlength := yearStart_succ (yearOf n) (by omega)
  have hfits := dayOfMonth (n - yearStart (yearOf n)) (by split at hlength <;> omega)
  generalize hk : n - yearStart (yearOf n) = k at hfits ⊢
  generalize (if monthOf k < 10 then monthOf k + 3 else monthOf k - 9) = m at hfits ⊢
  generalize k - (153 * monthOf k + 2) / 5 + 1 = d at hfits ⊢
  refine ⟨hfits.month.1, ⟨hfits.day.1, ?_⟩, ?_⟩
  · rcases hfits.inMonth with hd | ⟨rfl, rfl, hlast⟩
    · exact hd.trans (daysInMonth_one_le _ m)
    · -- the year has a last day only when it is a leap year
      have hleap : isLeapYear (yearOf n + 1) = true := by
        by_contra hno
        rw [if_neg hno] at hlength
        omega
      rw [if_pos (le_refl 2), add_right_comm, daysInMonth, isLeapYear_add_era, hleap]
      exact le_refl _
  · have hyear : (if m ≤ 2 then (if m ≤ 2 then (yearOf n : Int) + era * 400 + 1
          else yearOf n + era * 400) - 1
        else if m ≤ 2 then (yearOf n : Int) + era * 400 + 1 else yearOf n + era * 400)
          = yearOf n + era * 400 := by
      split <;> omega
    have hera : ((yearOf n : Int) + era * 400).fdiv 400 = era := by
      rw [Int.fdiv_eq_ediv_of_nonneg _ (by norm_num)]
      omega
    have hyearOfEra : (yearOf n : Int) + era * 400 - era * 400 = yearOf n := by ring
    have hmonth : ((m : Int) + 9) % 12 = monthOf k := by
      have hmonth := hfits.month.2
      omega
    have hcast : (yearStart (yearOf n) : Int)
        = 365 * yearOf n + yearOf n / 4 - yearOf n / 100 := by
      unfold yearStart
      omega
    have hday := hfits.day
    unfold daysOfDate
    simp only [hyear, hera, hyearOfEra, hmonth]
    omega

/-- The leap days before the March of a year. -/
def leapDays (y : Int) : Int := y / 4 - y / 100 + y / 400

theorem leapDays_mono : Monotone leapDays := by
  refine monotone_int_of_le_succ fun y => ?_
  unfold leapDays
  omega

/-- A date counted in days. -/
theorem daysOfDate_eq (y : Int) (m d : Nat) : daysOfDate y m d =
    let y' := if m ≤ 2 then y - 1 else y
    365 * y' + leapDays y' + (153 * ((m + 9) % 12 : Int) + 2) / 5 + d - 719469 := by
  unfold daysOfDate leapDays
  simp only
  generalize (if m ≤ 2 then y - 1 else y) = y'
  rw [Int.fdiv_eq_ediv_of_nonneg _ (by norm_num)]
  omega

theorem daysOfDate_first (y : Int) :
    daysOfDate y 1 1 = 365 * (y - 1) + leapDays (y - 1) - 719162 := by
  rw [daysOfDate_eq]
  norm_num
  ring

/-- A day before the first of January of a year is not in that year, nor later. -/
theorem lt_of_daysOfDate_lt {y y' : Int} {m d : Nat} (hm : 1 ≤ m ∧ m ≤ 12) (hd : 1 ≤ d)
    (h : daysOfDate y m d < daysOfDate y' 1 1) : y < y' := by
  rw [daysOfDate_first, daysOfDate_eq] at h
  by_contra hno
  have hmono := leapDays_mono (show y' - 1 ≤ y - 1 by omega)
  have hmono' := leapDays_mono (show y - 1 ≤ y by omega)
  split at h <;> dsimp only at h <;> omega

/-- A day from the first of January of a year on is in that year or later. -/
theorem le_of_daysOfDate_le {y y' : Int} {m d : Nat} (hm : 1 ≤ m ∧ m ≤ 12) (hd : d ≤ 31)
    (h : daysOfDate y' 1 1 ≤ daysOfDate y m d) : y' ≤ y := by
  rw [daysOfDate_first, daysOfDate_eq] at h
  by_contra hno
  have hmono := leapDays_mono (show y ≤ y' - 1 by omega)
  have hmono' := leapDays_mono (show y - 1 ≤ y by omega)
  split at h <;> dsimp only at h <;> omega

/-! ### Digits -/

/-- A text does not go on with a digit. -/
def EndsNumber (cs : List Char) : Prop := ∀ c ∈ cs.head?, c.isDigit = false

section Digits

variable {ds rest : List Char}

theorem takeWhile_digits (hds : ∀ c ∈ ds, c.isDigit = true) (hrest : EndsNumber rest) :
    (ds ++ rest).takeWhile Char.isDigit = ds := by
  rw [List.takeWhile_append_of_pos hds]
  rcases rest with _ | ⟨c, rest⟩
  · simp
  · simp [hrest c rfl]

theorem dropWhile_digits (hds : ∀ c ∈ ds, c.isDigit = true) (hrest : EndsNumber rest) :
    (ds ++ rest).dropWhile Char.isDigit = rest := by
  rw [List.dropWhile_append_of_pos hds]
  rcases rest with _ | ⟨c, rest⟩
  · simp
  · simp [hrest c rfl]

theorem not_blank_of_isDigit {c : Char} (h : c.isDigit = true) :
    (c.isWhitespace || c = '\x0b' || c = '\x0c') = false := by
  by_contra hblank
  simp only [Char.isWhitespace, Bool.not_eq_false, Bool.or_eq_true, decide_eq_true_eq] at hblank
  obtain ((((rfl | rfl) | rfl) | rfl) | rfl) | rfl := hblank <;> cases h

theorem skip_digits (hne : ds ≠ []) (hds : ∀ c ∈ ds, c.isDigit = true) :
    skip (ds ++ rest) = ds ++ rest := by
  obtain ⟨c, ds, rfl⟩ := List.exists_cons_of_ne_nil hne
  rw [skip, List.cons_append, List.dropWhile_cons_of_neg]
  simpa using not_blank_of_isDigit (hds c List.mem_cons_self)

/-- **A number is read** up to its last digit. -/
theorem number?_digits {most : Nat} (hne : ds ≠ []) (hds : ∀ c ∈ ds, c.isDigit = true)
    (hlength : ds.length ≤ most) (hrest : EndsNumber rest) :
    number? most (ds ++ rest) = some (digitsValue ds, rest) := by
  have hempty : ds.isEmpty = false := by simpa using hne
  unfold number?
  simp only [skip_digits hne hds, takeWhile_digits hds hrest, List.take_of_length_le hlength,
    hempty, Bool.false_eq_true, if_false, List.drop_left]

end Digits

theorem toList_padded (width n : Nat) : (padded width n).toList
    = List.replicate (width - (Nat.toDigits 10 n).length) '0' ++ Nat.toDigits 10 n := by
  simp [padded, ← String.length_toList]

theorem isDigit_padded (width n : Nat) : ∀ c ∈ (padded width n).toList, c.isDigit = true := by
  intro c hc
  rw [toList_padded, List.mem_append] at hc
  rcases hc with hc | hc
  · rw [List.eq_of_mem_replicate hc]
    rfl
  · exact Nat.isDigit_of_mem_toDigits (by decide) (by decide) hc

theorem padded_ne_nil (width n : Nat) : (padded width n).toList ≠ [] := by
  rw [toList_padded]
  exact List.append_ne_nil_of_right_ne_nil _ Nat.toDigits_ne_nil

theorem digitsValue_padded (width n : Nat) : digitsValue (padded width n).toList = n := by
  rw [toList_padded]
  show Nat.ofDigitChars 10 _ 0 = n
  rw [Nat.ofDigitChars_append, Nat.ofDigitChars_replicate_zero, Nat.mul_zero,
    Nat.ofDigitChars_ten_toDigits]

/-- A number that has no more digits than there is room for fills the room. -/
theorem length_padded {width n : Nat} (hwidth : 0 < width) (hn : n < 10 ^ width) :
    (padded width n).toList.length = width := by
  have hle := (Nat.length_toDigits_le_iff (by decide : 1 < 10) hwidth).2 hn
  rw [toList_padded, List.length_append, List.length_replicate]
  omega

theorem number?_padded {width n : Nat} {rest : List Char} (hwidth : 0 < width)
    (hn : n < 10 ^ width) (hrest : EndsNumber rest) :
    number? width ((padded width n).toList ++ rest) = some (n, rest) := by
  rw [number?_digits (padded_ne_nil _ _) (isDigit_padded _ _) (length_padded hwidth hn).le hrest,
    digitsValue_padded]

/-! ### Parts of a text -/

theorem endsNumber_cons {c : Char} (h : c.isDigit = false) (rest : List Char) :
    EndsNumber (c :: rest) := by
  intro c' hc'
  cases hc'
  exact h

/-- The year of a date as it is written. -/
def yearText (y : Int) : String :=
  if 0 ≤ y ∧ y ≤ 9999 then padded 4 y.toNat
  else if y < 0 then "-" ++ padded 4 (-y).toNat
  else "+" ++ padded 4 y.toNat

theorem year?_minus (cs : List Char) : year? ('-' :: cs)
    = if (cs.takeWhile Char.isDigit).isEmpty then none
      else some (-(digitsValue (cs.takeWhile Char.isDigit) : Int), cs.dropWhile Char.isDigit) := rfl

theorem year?_plus (cs : List Char) : year? ('+' :: cs)
    = if (cs.takeWhile Char.isDigit).isEmpty then none
      else some ((digitsValue (cs.takeWhile Char.isDigit) : Int), cs.dropWhile Char.isDigit) := rfl

/-- **Years are read** as they are written, with any number of digits after a sign. -/
theorem year?_yearText (y : Int) (rest : List Char) :
    year? ((yearText y).toList ++ '-' :: rest) = some (y, '-' :: rest) := by
  have hrest : EndsNumber ('-' :: rest) := endsNumber_cons rfl rest
  have hdigits := fun n => takeWhile_digits (isDigit_padded 4 n) hrest
  have hleft := fun n => dropWhile_digits (isDigit_padded 4 n) hrest
  have hne : ∀ n, (padded 4 n).toList.isEmpty = false := fun n => by
    simpa using padded_ne_nil 4 n
  unfold yearText
  split
  · rename_i hy
    obtain ⟨n, rfl⟩ := Int.eq_ofNat_of_zero_le hy.1
    have hread : number? 4 ((padded 4 n).toList ++ '-' :: rest) = some (n, '-' :: rest) :=
      number?_padded (by decide) (by omega) hrest
    have hskip : skip ((padded 4 n).toList ++ '-' :: rest) = (padded 4 n).toList ++ '-' :: rest :=
      skip_digits (padded_ne_nil 4 n) (isDigit_padded 4 n)
    obtain ⟨c, ds, hc⟩ := List.exists_cons_of_ne_nil (padded_ne_nil 4 n)
    have hdigit : c.isDigit = true := isDigit_padded 4 n c (hc ▸ List.mem_cons_self)
    unfold year?
    rw [Int.toNat_natCast, hskip]
    split
    · rename_i heq
      rw [hc] at heq
      cases heq
      cases hdigit
    · rename_i heq
      rw [hc] at heq
      cases heq
      cases hdigit
    · rw [hread]
      rfl
  · split
    · have hvalue : -(((-y).toNat : Nat) : Int) = y := by omega
      have hsign : ("-" ++ padded 4 (-y).toNat).toList ++ '-' :: rest
          = '-' :: ((padded 4 (-y).toNat).toList ++ '-' :: rest) := by
        rw [String.toList_append]
        rfl
      rw [hsign, year?_minus, hdigits, hne, hleft, digitsValue_padded, hvalue]
      rfl
    · have hvalue : ((y.toNat : Nat) : Int) = y := by omega
      have hsign : ("+" ++ padded 4 y.toNat).toList ++ '-' :: rest
          = '+' :: ((padded 4 y.toNat).toList ++ '-' :: rest) := by
        rw [String.toList_append]
        rfl
      rw [hsign, year?_plus, hdigits, hne, hleft, digitsValue_padded, hvalue]
      rfl

/-- **Fractions are read** as they are written. -/
theorem fraction?_fractionText (t : Timestamp) (rest : List Char) :
    fraction? (t.fractionText.toList ++ 'Z' :: rest)
      = some (t.nanos % 1000000000, 'Z' :: rest) := by
  have hrest : EndsNumber ('Z' :: rest) := endsNumber_cons rfl rest
  have hdigits : ∀ width n, 0 < width → width ≤ 9 → n < 10 ^ width →
      fraction? (("." ++ padded width n).toList ++ 'Z' :: rest)
        = some (n * 10 ^ (9 - width), 'Z' :: rest) := by
    intro width n hwidth hnine hn
    have hlength := length_padded hwidth hn
    have hne : (padded width n).toList.isEmpty = false := by simpa using padded_ne_nil width n
    rw [String.toList_append]
    show fraction? ('.' :: ((padded width n).toList ++ 'Z' :: rest)) = _
    unfold fraction?
    simp only [takeWhile_digits (isDigit_padded _ _) hrest,
      dropWhile_digits (isDigit_padded _ _) hrest,
      List.take_of_length_le (hlength.le.trans hnine), hne, digitsValue_padded, hlength]
    rfl
  unfold fractionText
  simp only
  split
  · rename_i hzero
    rw [hzero]
    rfl
  · split
    · rw [hdigits 3 _ (by decide) (by decide) (by omega)]
      congr 2
      omega
    · split
      · rw [hdigits 6 _ (by decide) (by decide) (by omega)]
        congr 2
        omega
      · rw [hdigits 9 _ (by decide) (by decide) (by omega)]
        congr 2
        omega

/-- Behind a second there is a fraction or the end, but no digit. -/
theorem endsNumber_fractionText (t : Timestamp) : EndsNumber (t.fractionText.toList ++ ['Z']) := by
  have hdot : ∀ s : String, EndsNumber (("." ++ s).toList ++ ['Z']) := by
    intro s
    rw [String.toList_append]
    exact endsNumber_cons rfl _
  unfold fractionText
  simp only
  split
  · exact endsNumber_cons rfl _
  · split
    · exact hdot _
    · split
      · exact hdot _
      · exact hdot _

/-! ### Texts -/

/-- **A point in time that can be read**: the year is not out of range, and a second is only longer
than others when it is the last one of a minute. -/
structure Valid (t : Timestamp) : Prop where
  earliest : daysOfDate (-262143) 1 1 * 86400 ≤ t.seconds
  latest : t.seconds < daysOfDate 262143 1 1 * 86400
  nanos : t.nanos < 1000000000 ∨ t.nanos < 2000000000 ∧ t.seconds % 60 = 59

instance (t : Timestamp) : Decidable t.Valid :=
  decidable_of_iff (daysOfDate (-262143) 1 1 * 86400 ≤ t.seconds ∧
      t.seconds < daysOfDate 262143 1 1 * 86400 ∧
      (t.nanos < 1000000000 ∨ t.nanos < 2000000000 ∧ t.seconds % 60 = 59))
    ⟨fun h => ⟨h.1, h.2.1, h.2.2⟩, fun h => ⟨h.earliest, h.latest, h.nanos⟩⟩

/-- **The parts of a text**, one after the other. -/
theorem toList_text (t : Timestamp) {y : Int} {m d s : Nat}
    (hdate : dateOfDays (t.seconds / 86400) = (y, m, d)) (hs : (s : Int) = t.seconds % 86400) :
    t.text.toList = (yearText y).toList ++ '-' :: ((padded 2 m).toList ++ '-' ::
      ((padded 2 d).toList ++ 'T' :: ((padded 2 (s / 3600)).toList ++ ':' ::
        ((padded 2 (s / 60 % 60)).toList ++ ':' ::
          ((padded 2 (if 1000000000 ≤ t.nanos then s % 60 + 1 else s % 60)).toList ++
            (t.fractionText.toList ++ ['Z'])))))) := by
  have hdays : t.seconds.fdiv 86400 = t.seconds / 86400 :=
    Int.fdiv_eq_ediv_of_nonneg _ (by norm_num)
  have hleft : (t.seconds - t.seconds / 86400 * 86400).toNat = s := by omega
  have htext : t.text = yearText y ++ "-" ++ padded 2 m ++ "-" ++ padded 2 d ++ "T" ++
      padded 2 (s / 3600) ++ ":" ++ padded 2 (s / 60 % 60) ++ ":" ++
      padded 2 (if 1000000000 ≤ t.nanos then s % 60 + 1 else s % 60) ++ t.fractionText ++ "Z" := by
    unfold text dateTimeText
    rw [hdays, hdate]
    dsimp only
    rw [hleft]
    rfl
  have hdash : "-".toList = ['-'] := rfl
  have hcolon : ":".toList = [':'] := rfl
  have hjoint : "T".toList = ['T'] := rfl
  have hzone : "Z".toList = ['Z'] := rfl
  simp only [htext, String.toList_append, hdash, hcolon, hjoint, hzone, List.append_assoc,
    List.cons_append, List.nil_append]

/-- A mark that is there is read. -/
theorem mark?_cons {c : Char} (h : (c.isWhitespace || c = '\x0b' || c = '\x0c') = false)
    (rest : List Char) : mark? c (c :: rest) = some rest := by
  have hskip : skip (c :: rest) = c :: rest := by
    rw [skip, List.dropWhile_cons_of_neg]
    simpa using h
  rw [mark?, hskip]
  exact if_pos rfl

/-- **What is written is read** as the same point in time. -/
theorem Valid.parse?_text {t : Timestamp} (h : t.Valid) : parse? t.text = some t := by
  obtain ⟨y, m, d, hdate, hm, hd, hdays⟩ := exists_dateOfDays (t.seconds / 86400)
  obtain ⟨s, hs⟩ := Int.eq_ofNat_of_zero_le
    (Int.emod_nonneg t.seconds (by norm_num : (86400 : Int) ≠ 0))
  have hday : d ≤ 31 := hd.2.trans (daysInMonth_le y m)
  have hearliest : -262143 ≤ y := le_of_daysOfDate_le hm hday (by
    have := h.earliest
    omega)
  have hlatest : y < 262143 := lt_of_daysOfDate_lt hm hd.1 (by
    have := h.latest
    omega)
  have hlt : s < 86400 := by omega
  generalize hsecond : (if 1000000000 ≤ t.nanos then s % 60 + 1 else s % 60) = second
  have hsecond_le : second ≤ 60 := by
    rw [← hsecond]
    split <;> omega
  have hfraction := fraction?_fractionText t []
  have hzone : offset? (skip ['Z']) = some (0, []) := rfl
  unfold parse?
  rw [toList_text t hdate hs.symm, hsecond, year?_yearText]
  dsimp only [Option.bind_eq_bind, Option.bind_some]
  rw [mark?_cons rfl]
  dsimp only [Option.bind_some]
  rw [number?_padded (by decide) (by omega) (endsNumber_cons rfl _)]
  dsimp only [Option.bind_some]
  rw [mark?_cons rfl]
  dsimp only [Option.bind_some]
  rw [number?_padded (by decide) (by omega) (endsNumber_cons rfl _)]
  dsimp only [Option.bind_some]
  rw [if_pos (.inl rfl), number?_padded (by decide) (by omega) (endsNumber_cons rfl _)]
  dsimp only [Option.bind_some]
  rw [mark?_cons rfl]
  dsimp only [Option.bind_some]
  rw [number?_padded (by decide) (by omega) (endsNumber_cons rfl _)]
  dsimp only [Option.bind_some]
  rw [mark?_cons rfl]
  dsimp only [Option.bind_some]
  rw [number?_padded (by decide) (by omega) (endsNumber_fractionText t), Option.bind_some,
    hfraction]
  dsimp only [Option.bind_some]
  rw [hzone]
  dsimp only [Option.bind_some]
  rw [if_neg (by simp [skip]), if_neg (by omega), if_neg (by omega), if_neg (by omega),
    if_neg (by omega)]
  have hnanos := h.nanos
  obtain ⟨seconds, nanos⟩ := t
  dsimp only at *
  by_cases hleap : 1000000000 ≤ nanos
  · rw [if_pos hleap] at hsecond
    rw [if_pos (by omega)]
    simp only [Option.some.injEq, mk.injEq]
    omega
  · rw [if_neg hleap] at hsecond
    rw [if_neg (by omega)]
    simp only [Option.some.injEq, mk.injEq]
    omega

end SiteConfig.Timestamp
