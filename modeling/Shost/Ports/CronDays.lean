import Shost.Ports.CronDenote
import Shost.Ports.CronNext

/-!
# Cron expressions: the day rule

Whether a day field restricts the days is read off its text: a field that is just `*`
does not, every other one does.  So a field that admits every day without being `*`
lets every date match, where `*` would leave the decision to the other field.

## Main results

* `dayRule_of_expr` — the day rule, and when two expressions whose fields admit the
  same values have the same runs.
* `spelling_matters` — two expressions whose fields admit the same values and that have
  different runs.
-/

namespace Shost.Ports.CronDays

open Shost.Verified.SkipSearch
open Shost.Ports.CronExpr Shost.Ports.CronGrammar Shost.Ports.CronDenote Shost.Ports.CronNext
open Shost.Ports.GoTime

/-- The field of this number is written `*`. -/
def StarAt (spec : String) (i : Nat) : Prop := (specFields spec)[i]? = some ['*']

/-- The day-of-month field admits every day. -/
def AllDays (s : ExprSchedule) : Prop := ∀ v, 1 ≤ v → v ≤ 31 → hasBit s.dom v = true

/-- The day-of-week field admits every weekday. -/
def AllWeekdays (s : ExprSchedule) : Prop := ∀ v, 0 ≤ v → v ≤ 6 → hasBit s.dow v = true

/-- The day rule: a field that admits every day leaves the decision to the other one if
it is written `*`. -/
structure DayRule (spec : String) (s : ExprSchedule) : Prop where
  all_days : AllDays s → ∀ t,
    dayMatches s t = true ↔ (StarAt spec 2 → hasBit s.dow t.weekday = true)
  all_weekdays : AllWeekdays s → ∀ t,
    dayMatches s t = true ↔ (StarAt spec 4 → hasBit s.dom t.day = true)
  restricted : ¬ AllDays s → ¬ AllWeekdays s → ∀ t,
    dayMatches s t = true ↔ hasBit s.dom t.day = true ∨ hasBit s.dow t.weekday = true

/-- The fields of two schedules admit the same values. -/
structure SameValues (s s' : ExprSchedule) : Prop where
  min : ∀ v, 0 ≤ v → v ≤ 59 → hasBit s.min v = hasBit s'.min v
  hour : ∀ v, 0 ≤ v → v ≤ 23 → hasBit s.hour v = hasBit s'.hour v
  dom : ∀ v, 1 ≤ v → v ≤ 31 → hasBit s.dom v = hasBit s'.dom v
  month : ∀ v, 1 ≤ v → v ≤ 12 → hasBit s.month v = hasBit s'.month v
  dow : ∀ v, 0 ≤ v → v ≤ 6 → hasBit s.dow v = hasBit s'.dow v

/-- Where one day field admits every day and the other one does not, both expressions
write the first one `*`, or neither does. -/
structure SameStars (spec spec' : String) (s : ExprSchedule) : Prop where
  dom : AllDays s → ¬ AllWeekdays s → (StarAt spec 2 ↔ StarAt spec' 2)
  dow : AllWeekdays s → ¬ AllDays s → (StarAt spec 4 ↔ StarAt spec' 4)

variable {spec spec' : String} {s s' : ExprSchedule}

/-- The flags tell which day fields are written `*`, and such a field admits every day. -/
theorem stars_of_expr (h : expr spec = .ok s) :
    (s.domStar = true ↔ StarAt spec 2) ∧ (s.dowStar = true ↔ StarAt spec 4) ∧
      (s.domStar = true → AllDays s) ∧ (s.dowStar = true → AllWeekdays s) := by
  obtain ⟨f0, f1, f2, f3, f4, hp⟩ := expr_iff.mp h
  have hfields : specFields spec = [f0, f1, f2, f3, f4] := hp.fields_eq
  have hdays : parseField ['*'] 1 31 [] = .ok 0xfffffffe := rfl
  have hweekdays : parseField ['*'] 0 7 dowNames = .ok 0xff := rfl
  refine ⟨by simp [hp.domStar, StarAt, hfields], by simp [hp.dowStar, StarAt, hfields], ?_, ?_⟩
  · intro hstar v h1 h31
    rw [hp.domStar, decide_eq_true_eq] at hstar
    have hdom := hp.dom
    rw [hstar, hdays] at hdom
    rw [← Except.ok.inj hdom]
    interval_cases v <;> rfl
  · intro hstar v h0 h6
    rw [hp.dowStar, decide_eq_true_eq] at hstar
    obtain ⟨dow, hdow, hfold⟩ := hp.dow
    rw [hstar, hweekdays] at hdow
    rw [hfold, ← Except.ok.inj hdow]
    interval_cases v <;> rfl

theorem weekday_bounds (t : Time) : 0 ≤ t.weekday ∧ t.weekday ≤ 6 := by
  unfold Time.weekday Shost.Verified.Gregorian.weekday
  omega

theorem dayRule_of_ok (h : expr spec = .ok s) : DayRule spec s := by
  obtain ⟨hdom, hdow, hdays, hweekdays⟩ := stars_of_expr h
  constructor
  · intro hall t
    have hday := hall t.day t.day_pos t.day_le
    have hweekday : s.dowStar = true → hasBit s.dow t.weekday = true :=
      fun hstar => hweekdays hstar t.weekday (weekday_bounds t).1 (weekday_bounds t).2
    rw [← hdom]
    cases hd : s.domStar <;> cases hw : s.dowStar <;> simp_all [dayMatches]
  · intro hall t
    have hweekday := hall t.weekday (weekday_bounds t).1 (weekday_bounds t).2
    have hday : s.domStar = true → hasBit s.dom t.day = true :=
      fun hstar => hdays hstar t.day t.day_pos t.day_le
    rw [← hdow]
    cases hd : s.domStar <;> cases hw : s.dowStar <;> simp_all [dayMatches]
  · intro hnot hnot' t
    have hd : s.domStar = false := by
      by_contra hstar
      exact hnot (hdays (Bool.eq_true_of_not_eq_false hstar))
    have hw : s.dowStar = false := by
      by_contra hstar
      exact hnot' (hweekdays (Bool.eq_true_of_not_eq_false hstar))
    simp [dayMatches, hd, hw]

/-! ## The same runs -/

theorem SameValues.allDays_iff (hs : SameValues s s') : AllDays s ↔ AllDays s' := by
  refine forall_congr' fun v => forall_congr' fun h1 => forall_congr' fun h31 => ?_
  rw [hs.dom v h1 h31]

theorem SameValues.allWeekdays_iff (hs : SameValues s s') : AllWeekdays s ↔ AllWeekdays s' := by
  refine forall_congr' fun v => forall_congr' fun h0 => forall_congr' fun h6 => ?_
  rw [hs.dow v h0 h6]

theorem dayMatches_eq (hr : DayRule spec s) (hr' : DayRule spec' s') (hs : SameValues s s')
    (hstars : SameStars spec spec' s) (t : Time) : dayMatches s t = dayMatches s' t := by
  have hday := hs.dom t.day t.day_pos t.day_le
  have hweekday := hs.dow t.weekday (weekday_bounds t).1 (weekday_bounds t).2
  rw [Bool.eq_iff_iff]
  by_cases hall : AllDays s <;> by_cases hall' : AllWeekdays s
  · have hadmits := hall' t.weekday (weekday_bounds t).1 (weekday_bounds t).2
    rw [hr.all_days hall, hr'.all_days (hs.allDays_iff.mp hall), ← hweekday]
    simp [hadmits]
  · rw [hr.all_days hall, hr'.all_days (hs.allDays_iff.mp hall), ← hweekday,
      hstars.dom hall hall']
  · rw [hr.all_weekdays hall', hr'.all_weekdays (hs.allWeekdays_iff.mp hall'), ← hday,
      hstars.dow hall' hall]
  · rw [hr.restricted hall hall', hr'.restricted (mt hs.allDays_iff.mpr hall)
      (mt hs.allWeekdays_iff.mpr hall'), ← hday, ← hweekday]

/-- The loops of two schedules whose fields admit the same go through the same
candidates. -/
theorem returns_iff (hs : SameValues s s') (hdays : ∀ t, dayMatches s t = dayMatches s' t)
    (after r : Time) : Returns s after r ↔ Returns s' after r := by
  have hjump : jump s = jump s' := by
    funext t
    unfold jump
    rw [hs.month t.month t.month_pos t.month_le, hdays t,
      hs.hour t.hour t.hour_nonneg (Int.lt_add_one_iff.mp t.hour_lt),
      hs.min t.minute t.minute_nonneg (Int.lt_add_one_iff.mp t.minute_lt)]
  unfold Returns nextWithin
  rw [hjump]

theorem dayRule_of_expr (h : expr spec = .ok s) (h' : expr spec' = .ok s') :
    DayRule spec s ∧
      (SameValues s s' → SameStars spec spec' s →
        ∀ after r, Returns s after r ↔ Returns s' after r) := by
  refine ⟨dayRule_of_ok h, fun hs hstars => returns_iff hs ?_⟩
  exact dayMatches_eq (dayRule_of_ok h) (dayRule_of_ok h') hs hstars

/-- `0 0 * * *`. -/
def everyDay : ExprSchedule := ⟨0x1, 0x1, 0xfffffffe, 0x1ffe, 0xff, true, true⟩

/-- `0 0 1-31 * *`. -/
def spelledDays : ExprSchedule := { everyDay with domStar := false }

/-- As every weekday is admitted too, it does not matter how the days are spelled. -/
theorem dayRule_spelledDays :
    DayRule "0 0 1-31 * *" spelledDays ∧
      ∀ after r, Returns spelledDays after r ↔ Returns everyDay after r := by
  have hexpr : expr "0 0 1-31 * *" = .ok spelledDays := rfl
  have hexpr' : expr "0 0 * * *" = .ok everyDay := rfl
  have hdays : AllDays spelledDays := by
    intro v h1 h31
    interval_cases v <;> rfl
  have hweekdays : AllWeekdays spelledDays := by
    intro v h0 h6
    interval_cases v <;> rfl
  obtain ⟨hrule, hsame⟩ := dayRule_of_expr hexpr hexpr'
  refine ⟨hrule, hsame ⟨fun _ _ _ => rfl, fun _ _ _ => rfl, fun _ _ _ => rfl,
    fun _ _ _ => rfl, fun _ _ _ => rfl⟩ ⟨?_, ?_⟩⟩
  · exact fun _ hnot => absurd hweekdays hnot
  · exact fun _ hnot => absurd hdays hnot

/-- `0 0 * * mon`. -/
def mondays : ExprSchedule := ⟨0x1, 0x1, 0xfffffffe, 0x1ffe, 0x2, true, false⟩

/-- `0 0 1-31 * mon`. -/
def daysOrMondays : ExprSchedule := { mondays with domStar := false }

/-- Tuesday, the fourteenth of July 2026, at 10:30. -/
def tuesday : Time := timeDate 2026 7 14 10 30 0 0 Shost.Verified.Zone.utc

/-- With all days of the month spelled out every day matches, and the next run is on
Wednesday; with `*` it is on Monday. -/
theorem spelling_matters :
    expr "0 0 1-31 * mon" = .ok daysOrMondays ∧ expr "0 0 * * mon" = .ok mondays ∧
      SameValues daysOrMondays mondays ∧ AllDays daysOrMondays ∧
      (dayMatches daysOrMondays tuesday = true ∧
        hasBit daysOrMondays.dow tuesday.weekday = false) ∧
      ∃ r, Returns daysOrMondays tuesday r ∧ ¬ Returns mondays tuesday r := by
  have hmonday : Returns mondays tuesday (timeDate 2026 7 20 0 0 0 0 Shost.Verified.Zone.utc) :=
    ⟨20, by decide +kernel⟩
  refine ⟨rfl, rfl, ⟨fun _ _ _ => rfl, fun _ _ _ => rfl, fun _ _ _ => rfl, fun _ _ _ => rfl,
    fun _ _ _ => rfl⟩, ?_, by decide, timeDate 2026 7 15 0 0 0 0 Shost.Verified.Zone.utc,
    ⟨20, by decide +kernel⟩, fun hwednesday => ?_⟩
  · intro v h1 h31
    interval_cases v <;> rfl
  · have hsame := hwednesday.unique hmonday
    revert hsame
    decide

end Shost.Ports.CronDays
