import Mathlib.Order.Monotone.Basic
import Mathlib.Tactic

/-!
# The proleptic Gregorian calendar on the integers

Days are numbered by integers; day `0` is the first of January of the year
`1`, a Monday.  Months are numbered consecutively as well: month index
`12 * y + (m - 1)` is month `m` of year `y`.  With this numbering "the first
day of the next month" is `monthStart (k + 1)` whatever the year, and an
out-of-range month is normalised by integer division, as calendar libraries
do it.

Everything is linear arithmetic with division by literals, so `omega` proves
the calendar facts once the month lengths are case-split.

## Main results

* `monthStart_lt_succ`, `monthStart_mono` — months follow each other.
* `monthIndex_spec` — every day lies in exactly the month `monthIndex` names.
* `civil_number`, `number_civil` — the fields of a day and the day of valid
  fields determine each other.
-/

namespace Shost.Verified.Gregorian

/-! ## Years -/

/-- The leap-year rule with its century exceptions. -/
def isLeap (y : Int) : Bool :=
  decide (y % 4 = 0) && (decide (y % 100 ≠ 0) || decide (y % 400 = 0))

theorem isLeap_iff (y : Int) :
    isLeap y = true ↔ y % 4 = 0 ∧ (y % 100 ≠ 0 ∨ y % 400 = 0) := by
  simp [isLeap]

theorem isLeap_eq_false_iff (y : Int) :
    isLeap y = false ↔ y % 4 ≠ 0 ∨ (y % 100 = 0 ∧ y % 400 ≠ 0) := by
  rw [← Bool.not_eq_true, isLeap_iff]
  omega

/-- Number of the first day of year `y`. -/
def yearStart (y : Int) : Int :=
  365 * (y - 1) + (y - 1) / 4 - (y - 1) / 100 + (y - 1) / 400

/-- Length of year `y` in days. -/
def yearLength (y : Int) : Int := if isLeap y then 366 else 365

theorem yearStart_succ (y : Int) : yearStart (y + 1) = yearStart y + yearLength y := by
  unfold yearStart yearLength
  cases h : isLeap y with
  | true =>
      rw [isLeap_iff] at h
      simp only [if_true]
      omega
  | false =>
      rw [isLeap_eq_false_iff] at h
      simp only [Bool.false_eq_true, if_false]
      omega

/-- The year that day `n` lies in: an estimate from the mean year length,
corrected by at most one. -/
def yearOf (n : Int) : Int :=
  let y := 400 * n / 146097 + 1
  if n < yearStart y then y - 1 else if yearStart (y + 1) ≤ n then y + 1 else y

theorem yearOf_spec (n : Int) :
    yearStart (yearOf n) ≤ n ∧ n < yearStart (yearOf n + 1) := by
  unfold yearOf
  dsimp only
  split
  · constructor <;> simp only [yearStart] at * <;> omega
  · split
    · constructor <;> simp only [yearStart] at * <;> omega
    · constructor <;> simp only [yearStart] at * <;> omega

/-! ## Months -/

/-- Days of the year before its month number `r` (counted from zero). -/
def monthOffset (leap : Bool) (r : Int) : Int :=
  (367 * r + 5) / 12 - if r ≤ 1 then 0 else if leap then 1 else 2

/-- Number of the first day of the month with index `k`. -/
def monthStart (k : Int) : Int :=
  yearStart (k / 12) + monthOffset (isLeap (k / 12)) (k % 12)

/-- Length in days of the month with index `k`. -/
def monthLength (k : Int) : Int := monthStart (k + 1) - monthStart k

theorem monthStart_year (y : Int) : monthStart (12 * y) = yearStart y := by
  have hdiv : 12 * y / 12 = y := by omega
  have hmod : 12 * y % 12 = 0 := by omega
  simp [monthStart, hdiv, hmod, monthOffset]

private theorem monthOffset_zero (leap : Bool) : monthOffset leap 0 = 0 := rfl

/-- Within a year the month starts are the running sums of the month
lengths. -/
theorem monthLength_eq (k : Int) :
    monthLength k =
      if k % 12 = 1 then (if isLeap (k / 12) then 29 else 28)
      else if k % 12 = 3 ∨ k % 12 = 5 ∨ k % 12 = 8 ∨ k % 12 = 10 then 30
      else 31 := by
  unfold monthLength monthStart
  by_cases hlast : k % 12 = 11
  · have hdiv : (k + 1) / 12 = k / 12 + 1 := by omega
    have hmod : (k + 1) % 12 = 0 := by omega
    have hyear := yearStart_succ (k / 12)
    simp only [hdiv, hmod, hlast, monthOffset_zero, hyear, yearLength]
    cases isLeap (k / 12) <;> simp [monthOffset]
  · have hdiv : (k + 1) / 12 = k / 12 := by omega
    have hmod : (k + 1) % 12 = k % 12 + 1 := by omega
    have hlow : 0 ≤ k % 12 := by omega
    have hhigh : k % 12 < 11 := by omega
    rw [hdiv, hmod]
    generalize k % 12 = r at hlow hhigh ⊢
    cases isLeap (k / 12) <;> interval_cases r <;> simp [monthOffset]

theorem monthLength_pos (k : Int) : 28 ≤ monthLength k := by
  rw [monthLength_eq]
  split_ifs <;> omega

theorem monthLength_le (k : Int) : monthLength k ≤ 31 := by
  rw [monthLength_eq]
  split_ifs <;> omega

theorem monthStart_succ (k : Int) : monthStart (k + 1) = monthStart k + monthLength k := by
  unfold monthLength
  omega

theorem monthStart_lt_succ (k : Int) : monthStart k < monthStart (k + 1) := by
  have := monthLength_pos k
  rw [monthStart_succ]
  omega

theorem monthStart_strictMono : StrictMono monthStart :=
  strictMono_int_of_lt_succ monthStart_lt_succ

/-- Months are at least 28 days apart. -/
theorem monthStart_mono {j k : Int} (h : j ≤ k) : monthStart j ≤ monthStart k :=
  monthStart_strictMono.monotone h

/-- Month of the year, counted from zero, of the day `r` days into a year. -/
def monthInYear (leap : Bool) (r : Int) : Int :=
  let r' := if r < monthOffset leap 2 then r else if leap then r + 1 else r + 2
  (12 * r' + 373) / 367 - 1

/-- Index of the month that day `n` lies in. -/
def monthIndex (n : Int) : Int :=
  12 * yearOf n + monthInYear (isLeap (yearOf n)) (n - yearStart (yearOf n))

private theorem monthInYear_spec (leap : Bool) (r : Int) (h0 : 0 ≤ r)
    (h1 : r < if leap then 366 else 365) :
    0 ≤ monthInYear leap r ∧ monthInYear leap r ≤ 11 ∧
      monthOffset leap (monthInYear leap r) ≤ r ∧
      (monthInYear leap r < 11 → r < monthOffset leap (monthInYear leap r + 1)) := by
  unfold monthInYear monthOffset
  cases leap <;> simp only [if_true, Bool.false_eq_true, if_false] at h1 ⊢ <;>
    split_ifs <;> omega

/-- Day `n` lies in the month `monthIndex n`. -/
theorem monthIndex_spec (n : Int) :
    monthStart (monthIndex n) ≤ n ∧ n < monthStart (monthIndex n + 1) := by
  obtain ⟨hlo, hhi⟩ := yearOf_spec n
  have hsucc := yearStart_succ (yearOf n)
  obtain ⟨h0, h11, hle, hlt⟩ := monthInYear_spec (isLeap (yearOf n))
    (n - yearStart (yearOf n)) (by omega) (by unfold yearLength at hsucc; omega)
  unfold monthIndex
  generalize hr : monthInYear (isLeap (yearOf n)) (n - yearStart (yearOf n)) = r at *
  have hdiv : (12 * yearOf n + r) / 12 = yearOf n := by omega
  have hmod : (12 * yearOf n + r) % 12 = r := by omega
  constructor
  · rw [monthStart, hdiv, hmod]
    omega
  · by_cases hlast : r = 11
    · rw [show 12 * yearOf n + r + 1 = 12 * (yearOf n + 1) by omega, monthStart_year]
      exact hhi
    · have hdiv' : (12 * yearOf n + r + 1) / 12 = yearOf n := by omega
      have hmod' : (12 * yearOf n + r + 1) % 12 = r + 1 := by omega
      have := hlt (by omega)
      rw [monthStart, hdiv', hmod']
      omega

/-- The month containing a day is unique. -/
theorem monthIndex_unique {n k : Int} (hlo : monthStart k ≤ n)
    (hhi : n < monthStart (k + 1)) : monthIndex n = k := by
  obtain ⟨hlo', hhi'⟩ := monthIndex_spec n
  have h1 : monthIndex n < k + 1 := monthStart_strictMono.lt_iff_lt.mp (by omega)
  have h2 : k < monthIndex n + 1 := monthStart_strictMono.lt_iff_lt.mp (by omega)
  omega

/-! ## Dates -/

/-- A valid calendar date. -/
@[ext] structure CivilDate where
  year : Int
  month : Int
  day : Int
  month_pos : 1 ≤ month
  month_le : month ≤ 12
  day_pos : 1 ≤ day
  day_le : day ≤ monthLength (12 * year + (month - 1))

/-- The day number of the `d`-th day counted from the start of month `m` of
year `y`.  Neither `m` nor `d` need be in range: months overflow into years
and days into the following months. -/
def dayNumber (y m d : Int) : Int := monthStart (12 * y + (m - 1)) + (d - 1)

/-- The day number of a valid date. -/
def CivilDate.number (c : CivilDate) : Int := dayNumber c.year c.month c.day

/-- The calendar date of day `n`. -/
def civil (n : Int) : CivilDate where
  year := monthIndex n / 12
  month := monthIndex n % 12 + 1
  day := n - monthStart (monthIndex n) + 1
  month_pos := by omega
  month_le := by omega
  day_pos := by have := monthIndex_spec n; omega
  day_le := by
    rw [show 12 * (monthIndex n / 12) + (monthIndex n % 12 + 1 - 1) = monthIndex n by omega]
    have := monthIndex_spec n
    unfold monthLength
    omega

theorem CivilDate.day_le_31 (c : CivilDate) : c.day ≤ 31 :=
  Int.le_trans c.day_le (monthLength_le _)

/-- A date lies in the month its fields name. -/
theorem CivilDate.monthIndex_number (c : CivilDate) :
    monthIndex c.number = 12 * c.year + (c.month - 1) := by
  have hpos := c.day_pos
  have hle := c.day_le
  apply monthIndex_unique
  · unfold CivilDate.number dayNumber
    omega
  · rw [monthStart_succ]
    unfold CivilDate.number dayNumber
    omega

/-- The number of a day's date is the day. -/
theorem number_civil (n : Int) : (civil n).number = n := by
  simp only [CivilDate.number, dayNumber, civil]
  rw [show 12 * (monthIndex n / 12) + (monthIndex n % 12 + 1 - 1) = monthIndex n by omega]
  omega

/-- The date of a date's day number is the date. -/
theorem civil_number (c : CivilDate) : civil c.number = c := by
  have hidx := c.monthIndex_number
  have hpos := c.month_pos
  have hle := c.month_le
  ext
  · simp only [civil, hidx]
    omega
  · simp only [civil, hidx]
    omega
  · simp only [civil, hidx]
    unfold CivilDate.number dayNumber
    omega

/-- The years of the days from one New Year to the next. -/
theorem civil_year_iff (n y : Int) :
    (civil n).year = y ↔ yearStart y ≤ n ∧ n < yearStart (y + 1) := by
  obtain ⟨hlo, hhi⟩ := monthIndex_spec n
  change monthIndex n / 12 = y ↔ _
  rw [← monthStart_year, ← monthStart_year]
  constructor
  · intro h
    have h1 := monthStart_mono (show 12 * y ≤ monthIndex n by omega)
    have h2 := monthStart_mono (show monthIndex n + 1 ≤ 12 * (y + 1) by omega)
    omega
  · rintro ⟨h1, h2⟩
    have h3 : 12 * y < monthIndex n + 1 :=
      monthStart_strictMono.lt_iff_lt.mp (Int.lt_of_le_of_lt h1 hhi)
    have h4 : monthIndex n < 12 * (y + 1) :=
      monthStart_strictMono.lt_iff_lt.mp (Int.lt_of_le_of_lt hlo h2)
    omega

/-- A year has at most 366 days. -/
theorem yearStart_add_le (y : Int) (k : Nat) : yearStart (y + k) ≤ yearStart y + 366 * k := by
  induction k with
  | zero => simp
  | succ k ih =>
      have hsucc := yearStart_succ (y + k)
      have hlength : yearLength (y + k) ≤ 366 := by
        unfold yearLength
        split <;> omega
      rw [Nat.cast_succ, ← add_assoc, hsucc]
      omega

theorem yearStart_mono {y y' : Int} (h : y ≤ y') : yearStart y ≤ yearStart y' := by
  rw [← monthStart_year, ← monthStart_year]
  exact monthStart_mono (by omega)

/-- Length in days of month `m` in a year that is not leap. -/
def commonLength (m : Int) : Int := monthLength (12 + (m - 1))

/-- The twenty-ninth of February, in the years that have it. -/
def leapDay (y : Int) : Int := yearStart y + 59

private theorem monthLength_month {y m : Int} (h1 : 1 ≤ m) (h12 : m ≤ 12) :
    monthLength (12 * y + (m - 1)) =
      if m = 2 ∧ isLeap y = true then 29 else commonLength m := by
  have hdiv : (12 * y + (m - 1)) / 12 = y := by omega
  have hmod : (12 * y + (m - 1)) % 12 = m - 1 := by omega
  have hdiv' : (12 + (m - 1)) / 12 = 1 := by omega
  have hmod' : (12 + (m - 1)) % 12 = m - 1 := by omega
  have hleap : isLeap 1 = false := by decide
  unfold commonLength
  rw [monthLength_eq, monthLength_eq, hdiv, hmod, hdiv', hmod', hleap]
  cases isLeap y <;> simp only [Bool.false_eq_true, if_true, if_false, and_true, and_false]
  all_goals split_ifs <;> omega

theorem commonLength_two : commonLength 2 = 28 := by decide

theorem commonLength_ge (m : Int) : 28 ≤ commonLength m := monthLength_pos _

/-- A date that not every year has is a twenty-ninth of February. -/
theorem CivilDate.leap_of_not_common (c : CivilDate) (h : commonLength c.month < c.day) :
    c.month = 2 ∧ c.day = 29 ∧ isLeap c.year = true := by
  have hle := c.day_le
  rw [monthLength_month c.month_pos c.month_le] at hle
  split at hle
  · rename_i hm
    have h28 := commonLength_two
    rw [hm.1] at h
    exact ⟨hm.1, by omega, hm.2⟩
  · omega

/-- Dates of ordinary months exist in every year. -/
theorem civil_of_common {y m d : Int} (h1 : 1 ≤ m) (h12 : m ≤ 12) (hd1 : 1 ≤ d)
    (hd : d ≤ commonLength m) :
    (civil (dayNumber y m d)).year = y ∧ (civil (dayNumber y m d)).month = m ∧
      (civil (dayNumber y m d)).day = d := by
  have hle : d ≤ monthLength (12 * y + (m - 1)) := by
    rw [monthLength_month h1 h12]
    split
    · rename_i hm
      have h28 := commonLength_two
      rw [hm.1] at hd
      omega
    · exact hd
  have hc := civil_number ⟨y, m, d, h1, h12, hd1, hle⟩
  unfold CivilDate.number at hc
  dsimp only at hc
  rw [hc]
  exact ⟨rfl, rfl, rfl⟩

private theorem monthStart_february (y : Int) : monthStart (12 * y + 1) = yearStart y + 31 := by
  have hlen := monthLength_eq (12 * y)
  have hsucc := monthStart_succ (12 * y)
  rw [monthStart_year] at hsucc
  split_ifs at hlen <;> omega

theorem dayNumber_leapDay (y : Int) : dayNumber y 2 29 = leapDay y := by
  have h := monthStart_february y
  unfold dayNumber leapDay
  rw [show 12 * y + (2 - 1) = 12 * y + 1 by omega, h]
  omega

theorem civil_leapDay {y : Int} (h : isLeap y = true) :
    (civil (leapDay y)).year = y ∧ (civil (leapDay y)).month = 2 ∧
      (civil (leapDay y)).day = 29 := by
  have hle : (29 : Int) ≤ monthLength (12 * y + (2 - 1)) := by
    rw [monthLength_month (by omega) (by omega), if_pos ⟨rfl, h⟩]
  have hc := civil_number ⟨y, 2, 29, by omega, by omega, by omega, hle⟩
  unfold CivilDate.number at hc
  dsimp only at hc
  rw [dayNumber_leapDay] at hc
  rw [hc]
  exact ⟨rfl, rfl, rfl⟩

/-- A day dated the twenty-ninth of February is its year's leap day. -/
theorem eq_leapDay {n : Int} (hm : (civil n).month = 2) (hd : (civil n).day = 29) :
    n = leapDay (civil n).year := by
  have h := number_civil n
  unfold CivilDate.number at h
  rw [hm, hd, dayNumber_leapDay] at h
  exact h.symm

/-- Moving a date by whole years stays within the year it leads to. -/
theorem dayNumber_lt_yearStart (c : CivilDate) (k : Int) :
    dayNumber (c.year + k) c.month c.day < yearStart (c.year + k + 1) := by
  have h1 := c.month_pos
  have h12 := c.month_le
  have hlast := monthStart_succ (12 * (c.year + k) + 11)
  have hlen := monthLength_eq (12 * (c.year + k) + 11)
  have h31 := c.day_le_31
  have hnext := monthStart_year (c.year + k + 1)
  rw [show 12 * (c.year + k + 1) = 12 * (c.year + k) + 11 + 1 by omega] at hnext
  rw [if_neg (by omega), if_neg (by omega)] at hlen
  have hmono := monthStart_mono
    (show 12 * (c.year + k) + (c.month - 1) ≤ 12 * (c.year + k) + 11 by omega)
  unfold dayNumber
  omega

theorem yearStart_le_dayNumber (c : CivilDate) (k : Int) :
    yearStart (c.year + k) ≤ dayNumber (c.year + k) c.month c.day := by
  have h1 := c.month_pos
  have hd := c.day_pos
  have hmono := monthStart_mono
    (show 12 * (c.year + k) ≤ 12 * (c.year + k) + (c.month - 1) by omega)
  rw [monthStart_year] at hmono
  unfold dayNumber
  omega

theorem leapDay_mono {y y' : Int} (h : y ≤ y') : leapDay y ≤ leapDay y' := by
  have := yearStart_mono h
  unfold leapDay
  omega

theorem leapDay_lt_yearStart (y : Int) : leapDay y < yearStart (y + 1) := by
  have h := yearStart_succ y
  unfold yearLength at h
  unfold leapDay
  split at h <;> omega

private theorem february_end (y : Int) :
    monthStart (12 * y + 2) = leapDay y + if isLeap y then 1 else 0 := by
  have hfeb := monthStart_february y
  have hlen := monthLength_month (y := y) (m := 2) (by omega) (by omega)
  have hsucc := monthStart_succ (12 * y + 1)
  rw [commonLength_two, show 12 * y + (2 - 1) = 12 * y + 1 by omega] at hlen
  rw [show 12 * y + 1 + 1 = 12 * y + 2 by omega] at hsucc
  unfold leapDay
  cases h : isLeap y <;> rw [h] at hlen <;> simp at hlen ⊢ <;> omega

/-- In a year that is not leap the first of March takes the leap day's
place. -/
theorem dayNumber_march {y : Int} (h : isLeap y = false) : dayNumber y 3 1 = leapDay y := by
  have hend := february_end y
  rw [h] at hend
  unfold dayNumber
  rw [show 12 * y + (3 - 1) = 12 * y + 2 by omega, hend]
  simp

/-- A date before March, moved to another year, is before the leap day there. -/
theorem dayNumber_lt_leapDay (c : CivilDate) (k : Int) (hc : isLeap c.year = false)
    (h : c.number < leapDay c.year) :
    dayNumber (c.year + k) c.month c.day < leapDay (c.year + k) := by
  have h1 := c.month_pos
  have hle := c.day_le
  have h31 := c.day_le_31
  have hend := february_end c.year
  have hfeb := monthStart_february (c.year + k)
  have hmarch : c.month ≤ 2 := by
    by_contra hm
    have hmono := monthStart_mono (show 12 * c.year + 2 ≤ 12 * c.year + (c.month - 1) by omega)
    have hd := c.day_pos
    rw [hc] at hend
    unfold CivilDate.number dayNumber at h
    simp at hend
    omega
  rw [monthLength_month h1 c.month_le, if_neg (by simp [hc])] at hle
  rcases show c.month = 1 ∨ c.month = 2 by omega with hm | hm
  · unfold dayNumber leapDay
    rw [hm, show 12 * (c.year + k) + (1 - 1) = 12 * (c.year + k) by omega, monthStart_year]
    omega
  · rw [hm, commonLength_two] at hle
    unfold dayNumber leapDay
    rw [hm, show 12 * (c.year + k) + (2 - 1) = 12 * (c.year + k) + 1 by omega, hfeb]
    omega

/-- A date from March on, moved to a leap year, is after the leap day there. -/
theorem leapDay_lt_dayNumber (c : CivilDate) (k : Int) (hc : isLeap c.year = false)
    (hk : isLeap (c.year + k) = true) (h : leapDay c.year ≤ c.number) :
    leapDay (c.year + k) < dayNumber (c.year + k) c.month c.day := by
  have hend := february_end c.year
  have hend' := february_end (c.year + k)
  have hd := c.day_pos
  have hmarch : 3 ≤ c.month := by
    by_contra hm
    have h1 := c.month_pos
    have hmono := monthStart_mono
      (show 12 * c.year + (c.month - 1) + 1 ≤ 12 * c.year + 2 by omega)
    have hsucc := monthStart_succ (12 * c.year + (c.month - 1))
    have hle := c.day_le
    rw [hc] at hend
    unfold CivilDate.number dayNumber at h
    simp at hend
    omega
  have hmono := monthStart_mono
    (show 12 * (c.year + k) + 2 ≤ 12 * (c.year + k) + (c.month - 1) by omega)
  rw [hk] at hend'
  simp at hend'
  unfold dayNumber
  omega

/-- Day of the week of day `n`, Sunday being `0`. -/
def weekday (n : Int) : Int := (n + 1) % 7

/-- Seven consecutive days cover the week. -/
theorem exists_weekday (n : Int) {w : Int} (h0 : 0 ≤ w) (h6 : w ≤ 6) :
    ∃ k, n ≤ k ∧ k < n + 7 ∧ weekday k = w := by
  refine ⟨n + (w - (n + 1)) % 7, by omega, by omega, ?_⟩
  unfold weekday
  omega

example : (civil (dayNumber 2024 2 29)).day = 29 := by decide

example : weekday (dayNumber 2026 7 18) = 6 := by decide

end Shost.Verified.Gregorian
