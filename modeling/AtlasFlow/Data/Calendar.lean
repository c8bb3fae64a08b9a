import AtlasFlow.Data.Moments

/-!
# Dates from day numbers, and their order

`dayNumber` undone: the year, the month and the day of a day number (`dayNumber_dateOf`). The day number goes up with
the year, the month and the day in that order (`dayNumber_lt`), and so do the texts of fixed width that spell them
(`digits_lt`).
-/

namespace Moments

/-! ## Years -/

/-- The days of so many years. -/
def daysOfYears (past : Nat) : Nat := past * 365 + past / 4 - past / 100 + past / 400

def daysInYear (year : Nat) : Nat := if isLeap year then 366 else 365

/-- The years that are over on a day: 400, 100, 4 and 1 at a time; the last of 4, and the last 100 of 400, have a
day more. -/
def yearsOver (days : Nat) : Nat :=
  let n := days % 146097
  let y100 := min (n / 36524) 3
  let n := n - y100 * 36524
  let y4 := n / 1461
  let n := n % 1461
  days / 146097 * 400 + y100 * 100 + y4 * 4 + min (n / 365) 3

/-- The years, 400, 100, 4 and 1 at a time. -/
theorem daysOfYears_parts {a b c d : Nat} (hb : b < 4) (hc : c < 25) (hd : d < 4) :
    daysOfYears (a * 400 + b * 100 + c * 4 + d) = a * 146097 + b * 36524 + c * 1461 + d * 365 := by
  have h4 : (a * 400 + b * 100 + c * 4 + d) / 4 = a * 100 + b * 25 + c := by omega
  have h100 : (a * 400 + b * 100 + c * 4 + d) / 100 = a * 4 + b := by omega
  have h400 : (a * 400 + b * 100 + c * 4 + d) / 400 = a := by omega
  rw [daysOfYears, h4, h100, h400]
  omega

theorem daysOfYears_succ (past : Nat) : daysOfYears (past + 1) = daysOfYears past + daysInYear (past + 1) := by
  have hdays : past / 100 ≤ past * 365 + past / 4 := by omega
  unfold daysOfYears daysInYear isLeap
  rw [Nat.succ_div, Nat.succ_div, Nat.succ_div]
  by_cases h400 : 400 ∣ past + 1
  · have h100 : 100 ∣ past + 1 := by omega
    have h4 : 4 ∣ past + 1 := by omega
    rw [if_pos h400, if_pos h100, if_pos h4, if_pos (by simp; omega)]
    omega
  · by_cases h100 : 100 ∣ past + 1
    · have h4 : 4 ∣ past + 1 := by omega
      rw [if_neg h400, if_pos h100, if_pos h4, if_neg (by simp; omega)]
      omega
    · rw [if_neg h400, if_neg h100]
      by_cases h4 : 4 ∣ past + 1
      · rw [if_pos h4, if_pos (by simp; omega)]
        omega
      · rw [if_neg h4, if_neg (by simp; omega)]
        omega

theorem daysOfYears_mono : Monotone daysOfYears :=
  monotone_nat_of_le_succ fun past => by
    rw [daysOfYears_succ]
    exact Nat.le_add_right _ _

theorem daysInYear_bounds (year : Nat) : 365 ≤ daysInYear year ∧ daysInYear year ≤ 366 := by
  unfold daysInYear
  split <;> omega

/-- Of `n` things `size` at a time, four times at most. -/
theorem min_div_spec {n size : Nat} (hsize : 0 < size) (k : Nat) (hk : k = min (n / size) 3) :
    k ≤ 3 ∧ k * size ≤ n ∧ (k < 3 → n < k * size + size) := by
  have hdiv := Nat.div_add_mod n size
  have hmod := Nat.mod_lt n hsize
  have hle : k ≤ n / size := hk ▸ Nat.min_le_left _ _
  refine ⟨hk ▸ Nat.min_le_right _ _, ?_, fun h => ?_⟩
  · calc k * size ≤ n / size * size := Nat.mul_le_mul_right size hle
      _ ≤ n := Nat.div_mul_le_self n size
  · have heq : k = n / size := by omega
    rw [heq, Nat.mul_comm]
    omega

/-- A day as the parts that its years are counted by, and the day of its year. -/
theorem yearsOver_parts (days : Nat) : ∃ a b c d t, b ≤ 3 ∧ c ≤ 24 ∧ d ≤ 3 ∧
    days = a * 146097 + b * 36524 + c * 1461 + d * 365 + t ∧ yearsOver days = a * 400 + b * 100 + c * 4 + d ∧
    (t < 365 ∨ t = 365 ∧ d = 3 ∧ (c = 24 → b = 3)) := by
  have hr := Nat.div_add_mod days 146097
  have hr' := Nat.mod_lt days (show 0 < 146097 by decide)
  generalize hb : min (days % 146097 / 36524) 3 = b at *
  obtain ⟨hb3, hbr, hbnext⟩ := min_div_spec (n := days % 146097) (by decide) b hb.symm
  have hs := Nat.div_add_mod (days % 146097 - b * 36524) 1461
  have hs' := Nat.mod_lt (days % 146097 - b * 36524) (show 0 < 1461 by decide)
  generalize hd : min ((days % 146097 - b * 36524) % 1461 / 365) 3 = d at *
  obtain ⟨hd3, hdt, hdnext⟩ := min_div_spec (n := (days % 146097 - b * 36524) % 1461) (by decide) d hd.symm
  have hyears : yearsOver days =
      days / 146097 * 400 + b * 100 + (days % 146097 - b * 36524) / 1461 * 4 + d := by
    unfold yearsOver
    dsimp only
    rw [hb, hd]
  generalize days % 146097 = r at *
  generalize hu : (r - b * 36524) % 1461 = u at *
  generalize (r - b * 36524) / 1461 = c at *
  refine ⟨days / 146097, b, c, d, u - d * 365, hb3, by omega, hd3, by omega, hyears, ?_⟩
  by_cases hlast : d = 3
  · omega
  · exact .inl (by omega)

/-- The last year of 4 is a leap year, unless it is the last of 100 and not of 400. -/
theorem isLeap_last {a b c : Nat} (hc : c ≤ 24) (h : c = 24 → b = 3) :
    isLeap (a * 400 + b * 100 + c * 4 + 3 + 1) = true := by
  have h4 : (a * 400 + b * 100 + c * 4 + 3 + 1) % 4 = 0 := by omega
  simp only [isLeap, h4, decide_true, Bool.true_and, Bool.or_eq_true, decide_eq_true_eq]
  by_cases hlast : c = 24
  · right
    have hyears : a * 400 + b * 100 + c * 4 + 3 + 1 = (a + 1) * 400 := by
      rw [hlast, h hlast]
      ring
    rw [hyears, Nat.mul_mod_left]
  · left
    omega

/-- A day is in its year. -/
theorem daysOfYears_yearsOver (days : Nat) :
    daysOfYears (yearsOver days) ≤ days ∧ days < daysOfYears (yearsOver days) + daysInYear (yearsOver days + 1) := by
  obtain ⟨a, b, c, d, t, hb, hc, hd, hdays, hyears, ht⟩ := yearsOver_parts days
  have hparts := daysOfYears_parts (a := a) (Nat.lt_succ_of_le hb) (Nat.lt_succ_of_le hc) (Nat.lt_succ_of_le hd)
  rw [hyears, hparts]
  rcases ht with ht | ⟨rfl, rfl, hleap⟩
  · have hbounds := daysInYear_bounds (a * 400 + b * 100 + c * 4 + d + 1)
    omega
  · rw [daysInYear, if_pos (isLeap_last hc hleap)]
    omega

/-! ## Months -/

/-- The month of a day of a year. -/
def monthOf (year day : Nat) : Nat := (List.range' 1 12).countP fun month => daysBeforeMonth year month ≤ day

/-- The date of a day number. -/
def dateOf (days : Nat) : Nat × Nat × Nat :=
  let year := yearsOver days + 1
  let day := days - daysOfYears (yearsOver days)
  let month := monthOf year day
  (year, month, day - daysBeforeMonth year month + 1)

theorem daysInMonth_congr {year year' : Nat} (h : isLeap year = isLeap year') :
    daysInMonth year = daysInMonth year' := by
  funext month
  rw [daysInMonth, daysInMonth, h]

theorem daysBeforeMonth_congr {year year' : Nat} (h : isLeap year = isLeap year') (month : Nat) :
    daysBeforeMonth year month = daysBeforeMonth year' month := by
  rw [daysBeforeMonth, daysBeforeMonth, daysInMonth_congr h]

/-- A day of a year is in its month. -/
theorem monthOf_spec {year day : Nat} (h : day < daysInYear year) :
    1 ≤ monthOf year day ∧ monthOf year day ≤ 12 ∧ daysBeforeMonth year (monthOf year day) ≤ day ∧
      day < daysBeforeMonth year (monthOf year day) + daysInMonth year (monthOf year day) := by
  have hcommon : ∀ day < 365, 1 ≤ monthOf 1 day ∧ monthOf 1 day ≤ 12 ∧ daysBeforeMonth 1 (monthOf 1 day) ≤ day ∧
      day < daysBeforeMonth 1 (monthOf 1 day) + daysInMonth 1 (monthOf 1 day) := by decide +kernel
  have hleap : ∀ day < 366, 1 ≤ monthOf 4 day ∧ monthOf 4 day ≤ 12 ∧ daysBeforeMonth 4 (monthOf 4 day) ≤ day ∧
      day < daysBeforeMonth 4 (monthOf 4 day) + daysInMonth 4 (monthOf 4 day) := by decide +kernel
  have hmonth : ∀ {year' : Nat}, isLeap year = isLeap year' → monthOf year day = monthOf year' day := by
    intro year' hsame
    unfold monthOf
    exact List.countP_congr fun month _ => by rw [daysBeforeMonth_congr hsame]
  unfold daysInYear at h
  cases hyear : isLeap year with
  | false =>
      have hsame : isLeap year = isLeap 1 := hyear
      rw [hyear] at h
      rw [hmonth hsame, daysBeforeMonth_congr hsame, daysInMonth_congr hsame]
      exact hcommon day h
  | true =>
      have hsame : isLeap year = isLeap 4 := hyear
      rw [hyear] at h
      rw [hmonth hsame, daysBeforeMonth_congr hsame, daysInMonth_congr hsame]
      exact hleap day h

/-! ## Dates -/

/-- A date that exists, in any year from the first on. -/
structure IsDate (year month day : Nat) : Prop where
  year_pos : 1 ≤ year
  month_pos : 1 ≤ month
  month_le : month ≤ 12
  day_pos : 1 ≤ day
  day_le : day ≤ daysInMonth year month

theorem isDate_dateOf (days : Nat) : IsDate (dateOf days).1 (dateOf days).2.1 (dateOf days).2.2 := by
  obtain ⟨hstart, hend⟩ := daysOfYears_yearsOver days
  obtain ⟨hfirst, hlast, hmonth, hday⟩ := monthOf_spec
    (show days - daysOfYears (yearsOver days) < daysInYear (yearsOver days + 1) by omega)
  refine ⟨Nat.succ_pos _, hfirst, hlast, Nat.succ_pos _, ?_⟩
  unfold dateOf
  dsimp only
  omega

theorem dayNumber_eq (year month day : Nat) :
    dayNumber year month day = daysOfYears (year - 1) + daysBeforeMonth year month + (day - 1) := rfl

/-- **The date of a day number has that number.** -/
theorem dayNumber_dateOf (days : Nat) :
    dayNumber (dateOf days).1 (dateOf days).2.1 (dateOf days).2.2 = days := by
  obtain ⟨hstart, hend⟩ := daysOfYears_yearsOver days
  obtain ⟨-, -, hmonth, -⟩ := monthOf_spec
    (show days - daysOfYears (yearsOver days) < daysInYear (yearsOver days + 1) by omega)
  rw [dayNumber_eq]
  show daysOfYears (yearsOver days) + _ + _ = _
  unfold dateOf
  dsimp only
  omega

/-! ## The order of dates -/

theorem daysBeforeMonth_succ {year month : Nat} (h : 1 ≤ month) :
    daysBeforeMonth year (month + 1) = daysBeforeMonth year month + daysInMonth year month := by
  obtain ⟨m, rfl⟩ := Nat.exists_eq_add_of_le' h
  unfold daysBeforeMonth
  rw [Nat.add_sub_cancel, Nat.add_sub_cancel, List.range'_1_concat, List.map_append, List.sum_append]
  simp [Nat.add_comm]

theorem daysBeforeMonth_mono (year : Nat) {month later : Nat} (hmonth : 1 ≤ month) (h : month ≤ later) :
    daysBeforeMonth year month ≤ daysBeforeMonth year later := by
  induction later, h using Nat.le_induction with
  | base => exact Nat.le_refl _
  | succ later hle ih =>
      rw [daysBeforeMonth_succ (hmonth.trans hle)]
      omega

theorem daysBeforeMonth_all (year : Nat) : daysBeforeMonth year 13 = daysInYear year := by
  unfold daysInYear
  cases hyear : isLeap year with
  | false =>
      have hsame : isLeap year = isLeap 1 := hyear
      exact daysBeforeMonth_congr hsame 13
  | true =>
      have hsame : isLeap year = isLeap 4 := hyear
      exact daysBeforeMonth_congr hsame 13

variable {year month day year' month' day' : Nat}

/-- A date is before the end of its month. -/
theorem IsDate.lt_month (h : IsDate year month day) :
    daysBeforeMonth year month + (day - 1) < daysBeforeMonth year (month + 1) := by
  have hday := h.day_pos
  have hlast := h.day_le
  rw [daysBeforeMonth_succ h.month_pos]
  omega

/-- A date is before the end of its year. -/
theorem IsDate.lt_year (h : IsDate year month day) : dayNumber year month day < daysOfYears year := by
  have hmonths : daysBeforeMonth year (month + 1) ≤ daysInYear year := by
    rw [← daysBeforeMonth_all]
    exact daysBeforeMonth_mono year (Nat.succ_pos month) (Nat.succ_le_succ h.month_le)
  have hmonth := h.lt_month
  have hyear : daysOfYears year = daysOfYears (year - 1) + daysInYear year := by
    obtain ⟨past, rfl⟩ := Nat.exists_eq_add_of_le' h.year_pos
    exact daysOfYears_succ past
  rw [dayNumber_eq, hyear]
  omega

/-- **Later dates have greater numbers.** -/
theorem dayNumber_lt (h : IsDate year month day) (h' : IsDate year' month' day')
    (hlt : year < year' ∨ year = year' ∧ (month < month' ∨ month = month' ∧ day < day')) :
    dayNumber year month day < dayNumber year' month' day' := by
  rcases hlt with hyear | ⟨rfl, hmonth | ⟨rfl, hday⟩⟩
  · have hbefore := daysOfYears_mono (Nat.le_sub_one_of_lt hyear)
    have hend := h.lt_year
    rw [dayNumber_eq year']
    omega
  · have hbefore : daysBeforeMonth year (month + 1) ≤ daysBeforeMonth year month' :=
      daysBeforeMonth_mono year (Nat.succ_pos month) hmonth
    have hend := h.lt_month
    rw [dayNumber_eq, dayNumber_eq]
    omega
  · have hday' := h.day_pos
    rw [dayNumber_eq, dayNumber_eq]
    omega

/-- Two dates are in the order of their numbers. -/
theorem date_lt_of_dayNumber (h : IsDate year month day) (h' : IsDate year' month' day')
    (hlt : dayNumber year month day < dayNumber year' month' day') :
    year < year' ∨ year = year' ∧ (month < month' ∨ month = month' ∧ day < day') := by
  by_contra hnot
  rcases Nat.lt_trichotomy year year' with hyear | hyear | hyear
  · exact hnot (.inl hyear)
  · rcases Nat.lt_trichotomy month month' with hmonth | hmonth | hmonth
    · exact hnot (.inr ⟨hyear, .inl hmonth⟩)
    · have hday : day' ≤ day := by
        by_contra hday
        exact hnot (.inr ⟨hyear, .inr ⟨hmonth, Nat.lt_of_not_le hday⟩⟩)
      subst hyear hmonth
      rw [dayNumber_eq, dayNumber_eq] at hlt
      omega
    · exact Nat.lt_asymm hlt (dayNumber_lt h' h (.inr ⟨hyear.symm, .inl hmonth⟩))
  · exact Nat.lt_asymm hlt (dayNumber_lt h' h (.inl hyear))

theorem date_eq_of_dayNumber (h : IsDate year month day) (h' : IsDate year' month' day')
    (heq : dayNumber year month day = dayNumber year' month' day') : year = year' ∧ month = month' ∧ day = day' := by
  have hlt : ¬(year < year' ∨ year = year' ∧ (month < month' ∨ month = month' ∧ day < day')) :=
    fun hlt => Nat.ne_of_lt (dayNumber_lt h h' hlt) heq
  have hgt : ¬(year' < year ∨ year' = year ∧ (month' < month ∨ month' = month ∧ day' < day)) :=
    fun hlt => Nat.ne_of_lt (dayNumber_lt h' h hlt) heq.symm
  omega

/-! ## The order of texts -/

section Texts

variable {α : Type} [LT α]

/-- Texts of one length decide before what follows them. -/
theorem append_lt_append {x y : List α} (hlength : x.length = y.length) (h : x < y) (a b : List α) :
    x ++ a < y ++ b := by
  induction x generalizing y with
  | nil =>
      rw [List.length_nil] at hlength
      rw [List.eq_nil_of_length_eq_zero hlength.symm] at h
      exact absurd h (List.not_lt_nil _)
  | cons c x ih =>
      cases y with
      | nil => exact absurd h (List.not_lt_nil _)
      | cons d y =>
          rw [List.cons_append, List.cons_append, List.cons_lt_cons_iff]
          rcases List.cons_lt_cons_iff.mp h with hlt | ⟨heq, hlt⟩
          · exact .inl hlt
          · exact .inr ⟨heq, ih (Nat.succ.inj hlength) hlt⟩

end Texts

theorem digitChar_lt : ∀ m < 10, ∀ n < m, Nat.digitChar n < Nat.digitChar m := by decide

/-- **Numbers of one width are in the order of their texts.** -/
theorem digits_lt {width n m : Nat} (hm : m < 10 ^ width) (h : n < m) : digits width n < digits width m := by
  induction width generalizing n m with
  | zero =>
      rw [pow_zero] at hm
      omega
  | succ width ih =>
      rw [digits, digits]
      by_cases htens : n / 10 < m / 10
      · have hm' : m / 10 < 10 ^ width := by
          rw [pow_succ] at hm
          omega
        exact append_lt_append (by simp) (ih hm' htens) _ _
      · have hsame : n / 10 = m / 10 := by omega
        have hlast : Nat.digitChar (n % 10) < Nat.digitChar (m % 10) :=
          digitChar_lt _ (Nat.mod_lt m (by decide)) _ (by omega)
        rw [hsame]
        exact List.append_left_lt (List.cons_lt_cons_iff.mpr (.inl hlast))

/-- A number decides, and what follows it where the numbers are the same. -/
theorem digits_append_lt {width n m : Nat} {rest rest' : List Char} (hm : m < 10 ^ width)
    (h : n < m ∨ n = m ∧ rest < rest') : digits width n ++ rest < digits width m ++ rest' := by
  rcases h with h | ⟨rfl, h⟩
  · exact append_lt_append (by simp) (digits_lt hm h) _ _
  · exact List.append_left_lt h

end Moments
