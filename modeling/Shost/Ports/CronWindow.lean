import Shost.Ports.CronScan

/-!
# Cron expressions: how far the search has to look

`Next` gives up five years after `after`.  A schedule that fires on some date
every year has fired by then.  The only accepted schedules that fire at all
but not every year are those whose only date is the twenty-ninth of February,
and their longest pause is eight years: around a century year that is not
leap.  This file determines exactly which calls give up although the schedule
fires again.

## Main results

* `firesYearly_or_leapDayOnly` — the accepted schedules that ever fire.
* `window_of_not_gap`, `no_window_of_gap` — the moments from which five years are
  not enough.
* `next_zero_iff_never` — when the zero time means "never again".
-/

namespace Shost.Ports.CronWindow

open Shost.Verified
open Shost.Verified.Gregorian
open Shost.Ports.CronExpr
open Shost.Ports.CronNext
open Shost.Ports.CronScan
open Shost.Ports.GoTime

/-! ## Moments in UTC -/

theorem wall_utc {t : Time} (h : t.loc = Zone.utc) : t.wall = t.sec := by
  rw [wall_eq Zone.utc_constant h, Int.add_zero]

/-- The moment `h:mi` of the calendar day `n`. -/
def instant (n h mi : Int) : Time := ⟨(n * 86400 + h * 3600 + mi * 60) * second, Zone.utc⟩

theorem instant_wall (n h mi : Int) :
    (instant n h mi).wall = n * 86400 + h * 3600 + mi * 60 := by
  rw [wall_utc rfl]
  unfold Time.sec instant second
  dsimp only
  omega

theorem instant_wallDay {n h mi : Int} (h0 : 0 ≤ h) (h24 : h < 24) (m0 : 0 ≤ mi)
    (m60 : mi < 60) : (instant n h mi).wallDay = n := by
  rw [wallDay_eq, instant_wall]
  omega

theorem instant_hour {n h mi : Int} (h0 : 0 ≤ h) (h24 : h < 24) (m0 : 0 ≤ mi)
    (m60 : mi < 60) : (instant n h mi).hour = h := by
  unfold Time.hour
  rw [instant_wall]
  omega

theorem instant_minute {n h mi : Int} (m0 : 0 ≤ mi) (m60 : mi < 60) :
    (instant n h mi).minute = mi := by
  unfold Time.minute
  rw [instant_wall]
  omega

/-- In UTC a moment of an earlier day is an earlier moment. -/
theorem abs_lt_of_wallDay_lt {t u : Time} (ht : t.loc = Zone.utc) (hu : u.loc = Zone.utc)
    (h : t.wallDay < u.wallDay) : t.abs < u.abs := by
  rw [wallDay_eq, wallDay_eq, wall_utc ht, wall_utc hu] at h
  unfold Time.sec second at h
  omega

theorem wallDay_le_of_abs_le {t u : Time} (ht : t.loc = Zone.utc) (hu : u.loc = Zone.utc)
    (h : t.abs ≤ u.abs) : t.wallDay ≤ u.wallDay := by
  by_contra hlt
  have := abs_lt_of_wallDay_lt hu ht (by omega)
  omega

/-- The day on which the search gives up. -/
theorem limit_wallDay {after : Time} (h : after.loc = Zone.utc) :
    (limit after).wallDay = dayNumber (after.year + 5) after.month after.day := by
  have h0 := after.nsec_nonneg
  have h1 := after.nsec_lt
  have hh := after.hour_lt
  have hh0 := after.hour_nonneg
  have hm := after.minute_lt
  have hm0 := after.minute_nonneg
  have hloc : (limit after).loc = Zone.utc := by
    unfold limit
    rw [Time.addDate_eq, ofWall_loc, h]
  rw [wallDay_eq, wall_utc hloc]
  unfold limit
  rw [Time.addDate_eq, h]
  unfold Time.sec
  rw [ofWall_abs Zone.utc_constant]
  unfold Time.addDateWall wallClock Time.second
  rw [Int.add_zero, Int.add_zero]
  unfold second at h1 ⊢
  omega

/-! ## Firing days -/

/-- The month and day fields admit the calendar day `n`. -/
def firesDay (s : ExprSchedule) (n : Int) : Bool :=
  hasBit s.month (instant n 0 0).month && dayMatches s (instant n 0 0)

theorem instant_date (n : Int) : (instant n 0 0).date = civil n := by
  unfold Time.date
  rw [instant_wallDay le_rfl (by omega) le_rfl (by omega)]

/-- A moment fires when its day, hour and minute are admitted. -/
theorem fires_eq (s : ExprSchedule) (t : Time) :
    fires s t = (firesDay s t.wallDay && hasBit s.hour t.hour && hasBit s.min t.minute) := by
  have hday : (instant t.wallDay 0 0).wallDay = t.wallDay :=
    instant_wallDay le_rfl (by omega) le_rfl (by omega)
  have hmonth : (instant t.wallDay 0 0).month = t.month := by
    rw [month_eq, month_eq, hday]
  unfold fires firesDay
  rw [hmonth, dayMatches_congr s hday]

/-- Only the day-of-month field restricts the day. -/
def DomOnly (s : ExprSchedule) : Prop := s.dowStar = true ∧ s.domStar = false

/-- The only date the schedule admits is the twenty-ninth of February. -/
structure LeapDayOnly (s : ExprSchedule) : Prop where
  domOnly : DomOnly s
  february : hasBit s.month 2 = true
  twentyNinth : hasBit s.dom 29 = true
  noOther : ∀ m d, 1 ≤ m → m ≤ 12 → 1 ≤ d → d ≤ commonLength m →
    hasBit s.month m = true → hasBit s.dom d = false

/-- The schedule admits a day of every year. -/
def FiresYearly (s : ExprSchedule) : Prop :=
  ∀ y, ∃ n, yearStart y ≤ n ∧ n < yearStart (y + 1) ∧ firesDay s n = true

theorem firesDay_of_domOnly {s : ExprSchedule} (h : DomOnly s) (n : Int) :
    firesDay s n = (hasBit s.month (civil n).month && hasBit s.dom (civil n).day) := by
  simp [firesDay, dayMatches, Time.month, Time.day, instant_date, h.1, h.2]

theorem firesDay_of_dow {s : ExprSchedule} (h : ¬ DomOnly s) {n : Int}
    (hm : hasBit s.month (civil n).month = true) (hw : hasBit s.dow (weekday n) = true) :
    firesDay s n = true := by
  have hweek : (instant n 0 0).weekday = weekday n := by
    unfold Time.weekday
    rw [instant_wallDay le_rfl (by omega) le_rfl (by omega)]
  unfold DomOnly at h
  simp only [firesDay, dayMatches, Time.month, instant_date, hm, hweek, hw, Bool.true_and]
  cases hd : s.domStar <;> cases hw' : s.dowStar <;> simp_all

/-- A schedule that lets weekdays in fires every year: seven days of an
admitted month cover the week. -/
theorem firesYearly_of_dow {s : ExprSchedule} (hin : s.Inhabited) (h : ¬ DomOnly s) :
    FiresYearly s := by
  obtain ⟨m, hm1, hm12, hm⟩ := hin.month
  obtain ⟨w, hw0, hw6, hw⟩ := hin.dow
  intro y
  obtain ⟨n, hlo, hhi, hn⟩ := exists_weekday (dayNumber y m 1) hw0 hw6
  have hlen := commonLength_ge m
  obtain ⟨hyear, hmonth, -⟩ := civil_of_common (y := y) (d := n - dayNumber y m 1 + 1)
    hm1 hm12 (by omega) (by omega)
  have hnum : dayNumber y m (n - dayNumber y m 1 + 1) = n := by
    unfold dayNumber
    omega
  rw [hnum] at hyear hmonth
  obtain ⟨h1, h2⟩ := (civil_year_iff n y).mp hyear
  exact ⟨n, h1, h2, firesDay_of_dow h (by rw [hmonth, hm]) (by rw [hn, hw])⟩

/-- So does one that admits a date of ordinary years. -/
theorem firesYearly_of_common {s : ExprSchedule} (h : DomOnly s) {m d : Int}
    (hm1 : 1 ≤ m) (hm12 : m ≤ 12) (hd1 : 1 ≤ d) (hd : d ≤ commonLength m)
    (hmonth : hasBit s.month m = true) (hdom : hasBit s.dom d = true) : FiresYearly s := by
  intro y
  obtain ⟨hyear, hm, hday⟩ := civil_of_common (y := y) hm1 hm12 hd1 hd
  obtain ⟨h1, h2⟩ := (civil_year_iff _ y).mp hyear
  exact ⟨_, h1, h2, by rw [firesDay_of_domOnly h, hm, hday, hmonth, hdom]; rfl⟩

/-- An accepted schedule with a firing day fires every year or only on the
twenty-ninth of February. -/
theorem firesYearly_or_leapDayOnly {s : ExprSchedule} (hin : s.Inhabited) {n : Int}
    (hn : firesDay s n = true) : FiresYearly s ∨ LeapDayOnly s := by
  by_cases hdow : DomOnly s
  · by_cases hother : ∃ m d, 1 ≤ m ∧ m ≤ 12 ∧ 1 ≤ d ∧ d ≤ commonLength m ∧
        hasBit s.month m = true ∧ hasBit s.dom d = true
    · obtain ⟨m, d, hm1, hm12, hd1, hd, hmonth, hdom⟩ := hother
      exact Or.inl (firesYearly_of_common hdow hm1 hm12 hd1 hd hmonth hdom)
    · right
      have hno : ∀ m d, 1 ≤ m → m ≤ 12 → 1 ≤ d → d ≤ commonLength m →
          hasBit s.month m = true → hasBit s.dom d = false := by
        intro m d hm1 hm12 hd1 hd hmonth
        by_contra hdom
        exact hother ⟨m, d, hm1, hm12, hd1, hd, hmonth, by simpa using hdom⟩
      rw [firesDay_of_domOnly hdow, Bool.and_eq_true] at hn
      have hlong : commonLength (civil n).month < (civil n).day := by
        by_contra hle
        have := hno _ _ (civil n).month_pos (civil n).month_le (civil n).day_pos
          (by omega) hn.1
        rw [hn.2] at this
        cases this
      obtain ⟨hm, hd, -⟩ := (civil n).leap_of_not_common hlong
      exact ⟨hdow, by rw [← hm]; exact hn.1, by rw [← hd]; exact hn.2, hno⟩
  · exact Or.inl (firesYearly_of_dow hin hdow)

/-- A schedule of the leap day fires on the leap days and on no other day. -/
theorem LeapDayOnly.firesDay_iff {s : ExprSchedule} (h : LeapDayOnly s) (n : Int) :
    firesDay s n = true ↔
      isLeap (civil n).year = true ∧ n = leapDay (civil n).year := by
  rw [firesDay_of_domOnly h.domOnly, Bool.and_eq_true]
  constructor
  · rintro ⟨hm, hd⟩
    have hlong : commonLength (civil n).month < (civil n).day := by
      by_contra hle
      have := h.noOther _ _ (civil n).month_pos (civil n).month_le (civil n).day_pos
        (by omega) hm
      rw [hd] at this
      cases this
    obtain ⟨hm', hd', hleap⟩ := (civil n).leap_of_not_common hlong
    exact ⟨hleap, eq_leapDay hm' hd'⟩
  · rintro ⟨hleap, hn⟩
    obtain ⟨-, hm, hd⟩ := civil_leapDay hleap
    rw [← hn] at hm hd
    rw [hm, hd]
    exact ⟨h.february, h.twentyNinth⟩

/-! ## The next firing -/

/-- `m` is a whole minute after `after` at which the schedule fires. -/
structure Later (s : ExprSchedule) (after m : Time) : Prop where
  loc : m.loc = after.loc
  whole : m.abs % minute = 0
  later : after.abs < m.abs
  fires : fires s m = true

/-- From `after` on the schedule fires next on a leap day eight years after
its last one, and `after` is not yet within five years of it: year `y` is
leap, the leap day four years later is dropped, the schedule has fired for the
last time in year `y`, and the first of March three years later is to come. -/
def LeapGap (s : ExprSchedule) (after : Time) : Prop :=
  LeapDayOnly s ∧ ∃ y, isLeap y = true ∧ isLeap (y + 4) = false ∧
    (∀ m : Time, m.loc = Zone.utc → m.abs % minute = 0 → m.year = y →
      fires s m = true → m.abs ≤ after.abs) ∧
    after.abs < (timeDate (y + 3) 3 1 0 0 0 0 Zone.utc).abs

/-- The calendar year of `after`. -/
theorem after_year (after : Time) :
    yearStart after.year ≤ after.wallDay ∧ after.wallDay < yearStart (after.year + 1) :=
  (civil_year_iff _ _).mp rfl

section Gap

variable {s : ExprSchedule} {after : Time} (hin : s.Inhabited)
  (hutc : after.loc = Zone.utc)

include hin in
/-- Every firing day has a minute at which the schedule fires. -/
theorem exists_fires {n : Int} (hn : firesDay s n = true) :
    ∃ m : Time, m.loc = Zone.utc ∧ m.abs % minute = 0 ∧ m.wallDay = n ∧
      fires s m = true := by
  obtain ⟨h, h0, h23, hh⟩ := hin.hour
  obtain ⟨mi, m0, m59, hm⟩ := hin.min
  refine ⟨instant n h mi, rfl, ?_, instant_wallDay h0 (by omega) m0 (by omega), ?_⟩
  · unfold instant minute second
    dsimp only
    omega
  · rw [fires_eq, instant_wallDay h0 (by omega) m0 (by omega),
      instant_hour h0 (by omega) m0 (by omega), instant_minute m0 (by omega), hn, hh, hm]
    rfl

include hutc

theorem limit_loc : (limit after).loc = Zone.utc := by
  unfold limit
  rw [Time.addDate_eq, ofWall_loc, hutc]

include hin in
/-- A firing day after that of `after` and before the year in which the search
gives up lies in the window. -/
theorem window_of_day {n : Int} (hn : firesDay s n = true) (hlo : after.wallDay < n)
    (hhi : n < yearStart (after.year + 5)) : ∃ m, Window s after m := by
  obtain ⟨m, hloc, hwhole, hday, hfires⟩ := exists_fires hin hn
  have hlimit := yearStart_le_dayNumber after.date 5
  refine ⟨m, hloc.trans hutc.symm, hwhole, ?_, ?_, hfires⟩
  · exact abs_lt_of_wallDay_lt hutc hloc (by omega)
  · apply abs_lt_of_wallDay_lt hloc (limit_loc hutc)
    rw [limit_wallDay hutc, hday]
    exact Int.lt_of_lt_of_le hhi hlimit

include hin in
/-- A schedule that fires every year fires in the window. -/
theorem window_of_yearly (h : FiresYearly s) : ∃ m, Window s after m := by
  obtain ⟨n, hlo, hhi, hn⟩ := h (after.year + 1)
  obtain ⟨-, hafter⟩ := after_year after
  have hmono := yearStart_mono (show after.year + 1 + 1 ≤ after.year + 5 by omega)
  exact window_of_day hin hutc hn (by omega) (by omega)

include hin in
/-- The leap days of the next four years lie in the window. -/
private theorem window_of_leapYear (hl : LeapDayOnly s) {y : Int} (hleap : isLeap y = true)
    (hlo : after.year < y) (hhi : y ≤ after.year + 4) : ∃ m, Window s after m := by
  have hday : firesDay s (leapDay y) = true := by
    rw [hl.firesDay_iff, (civil_leapDay hleap).1]
    exact ⟨hleap, rfl⟩
  obtain ⟨-, hafter⟩ := after_year after
  have hmono := yearStart_mono (show after.year + 1 ≤ y by omega)
  have hmono' := yearStart_mono (show y + 1 ≤ after.year + 5 by omega)
  have hend := leapDay_lt_yearStart y
  have hstart : yearStart y ≤ leapDay y := by unfold leapDay; omega
  exact window_of_day hin hutc hday (by omega) (by omega)

/-- A moment is before March of a year that is not leap when its day is. -/
private theorem lt_march_iff {y : Int} (hy : isLeap y = false) :
    after.abs < (timeDate y 3 1 0 0 0 0 Zone.utc).abs ↔ after.wallDay < leapDay y := by
  rw [timeDate_wholeSecond, ofWall_abs Zone.utc_constant, wallDay_eq, wall_utc hutc]
  unfold wallClock Time.sec second
  rw [dayNumber_march hy]
  constructor <;> intro <;> omega

/-- A firing minute of the running year that is still to come lies in the window. -/
private theorem window_of_thisYear {m : Time} (hloc : m.loc = Zone.utc)
    (hwhole : m.abs % minute = 0) (hm : m.year = after.year) (hfires : fires s m = true)
    (hlt : after.abs < m.abs) : Window s after m := by
  refine ⟨hloc.trans hutc.symm, hwhole, hlt, ?_, hfires⟩
  apply abs_lt_of_wallDay_lt hloc (limit_loc hutc)
  have hm' := (civil_year_iff _ _).mp hm
  have hmono := yearStart_mono (show after.year + 1 ≤ after.year + 5 by omega)
  have hlimit : yearStart (after.year + 5) ≤
      dayNumber (after.year + 5) after.month after.day :=
    yearStart_le_dayNumber after.date 5
  have hmday : m.wallDay < yearStart (after.year + 1) := hm'.2
  rw [limit_wallDay hutc]
  omega

/-- Outside the gap, when nothing is left of the running year and the next multiple of
four is not leap, `after` is past February of the year before that. -/
private theorem march_of_not_gap (hl : LeapDayOnly s) (hgap : ¬ LeapGap s after)
    (hsame : ¬ ∃ m : Time, m.loc = Zone.utc ∧ m.abs % minute = 0 ∧
      m.year = after.year ∧ fires s m = true ∧ after.abs < m.abs)
    {c : Int} (hdrop : isLeap c = false) (hc4 : c % 4 = 0) (hlo : after.year < c)
    (hhi : c ≤ after.year + 4) : leapDay (c - 1) ≤ after.wallDay := by
  obtain ⟨hyear, -⟩ := after_year after
  have hcent := (isLeap_eq_false_iff c).mp hdrop
  have hprev : isLeap (c - 4) = true := (isLeap_iff _).mpr (by omega)
  have hcommon : isLeap (c - 1) = false := (isLeap_eq_false_iff _).mpr (by omega)
  by_contra hlt
  refine hgap ⟨hl, c - 4, hprev, ?_, ?_, ?_⟩
  · rw [show c - 4 + 4 = c by omega]
    exact hdrop
  · intro m hloc hwhole hm hfires
    by_contra hlt'
    rcases show after.year = c - 4 ∨ c - 4 < after.year by omega with heq | hgt
    · exact hsame ⟨m, hloc, hwhole, by omega, hfires, by omega⟩
    · have hm' := (civil_year_iff _ _).mp hm
      have hmono := yearStart_mono (show c - 4 + 1 ≤ after.year by omega)
      have hearly := abs_lt_of_wallDay_lt hloc hutc (by omega)
      omega
  · rw [show c - 4 + 3 = c - 1 by omega, lt_march_iff hutc hcommon]
    omega

include hin in
/-- Five years from March before a dropped leap year is past the leap day of the
next leap year. -/
private theorem window_of_march (hl : LeapDayOnly s) {c : Int} (hdrop : isLeap c = false)
    (hc4 : c % 4 = 0) (hlo : after.year < c) (hmarch : leapDay (c - 1) ≤ after.wallDay) :
    ∃ m, Window s after m := by
  obtain ⟨-, hyear'⟩ := after_year after
  have hcent := (isLeap_eq_false_iff c).mp hdrop
  have hnext : isLeap (c + 4) = true := (isLeap_iff _).mpr (by omega)
  have hcommon : isLeap (c - 1) = false := (isLeap_eq_false_iff _).mpr (by omega)
  have hlate : after.year = c - 1 := by
    have hstart : yearStart (c - 1) ≤ leapDay (c - 1) := by unfold leapDay; omega
    by_contra hne
    have hmono := yearStart_mono (show after.year + 1 ≤ c - 1 by omega)
    omega
  obtain ⟨m, hloc, hwhole, hday, hfires⟩ := exists_fires hin
    ((hl.firesDay_iff _).mpr (by rw [(civil_leapDay hnext).1]; exact ⟨hnext, rfl⟩))
  have hlimit : leapDay (c + 4) < dayNumber (after.year + 5) after.month after.day := by
    have hnum : after.date.number = after.wallDay := number_civil _
    have hmove := leapDay_lt_dayNumber after.date 5
    change isLeap after.year = false → isLeap (after.year + 5) = true →
      leapDay after.year ≤ _ →
      leapDay (after.year + 5) < dayNumber (after.year + 5) after.month after.day at hmove
    rw [hnum, hlate, show c - 1 + 5 = c + 4 by omega] at hmove
    rw [hlate, show c - 1 + 5 = c + 4 by omega]
    exact hmove hcommon hnext hmarch
  refine ⟨m, hloc.trans hutc.symm, hwhole, ?_, ?_, hfires⟩
  · apply abs_lt_of_wallDay_lt hutc hloc
    have hmono := yearStart_mono (show after.year + 1 ≤ c + 4 by omega)
    rw [hday]
    unfold leapDay
    omega
  · apply abs_lt_of_wallDay_lt hloc (limit_loc hutc)
    rw [limit_wallDay hutc, hday]
    exact hlimit

include hin in
/-- Outside the gap a schedule of the leap day fires in the window. -/
theorem window_of_not_gap (hl : LeapDayOnly s) (hgap : ¬ LeapGap s after) :
    ∃ m, Window s after m := by
  by_cases hsame : ∃ m : Time, m.loc = Zone.utc ∧ m.abs % minute = 0 ∧
      m.year = after.year ∧ fires s m = true ∧ after.abs < m.abs
  · obtain ⟨m, hloc, hwhole, hm, hfires, hlt⟩ := hsame
    exact ⟨m, window_of_thisYear hutc hloc hwhole hm hfires hlt⟩
  -- the multiple of four among the next four years, leap or dropped
  obtain ⟨c, hc4, hlo, hhi⟩ : ∃ c, c % 4 = 0 ∧ after.year < c ∧ c ≤ after.year + 4 :=
    ⟨after.year + 4 - after.year % 4, by omega, by omega, by omega⟩
  by_cases hleap : isLeap c = true
  · exact window_of_leapYear hin hutc hl hleap hlo hhi
  · have hdrop : isLeap c = false := Bool.eq_false_of_not_eq_true hleap
    exact window_of_march hin hutc hl hdrop hc4 hlo
      (march_of_not_gap hutc hl hgap hsame hdrop hc4 hlo hhi)

include hin in
/-- Before `after` nothing lies in the window: the last firing of the leap year that
begins the gap is not after `after`. -/
private theorem not_window_early (hl : LeapDayOnly s) {y : Int} (hleap : isLeap y = true)
    (hlast : ∀ m : Time, m.loc = Zone.utc → m.abs % minute = 0 → m.year = y →
      fires s m = true → m.abs ≤ after.abs)
    {w : Time} (hday : w.wallDay = leapDay w.year) (hlt : w.year < y) : ¬ Window s after w := by
  intro hw
  have hwloc : w.loc = Zone.utc := hw.loc.trans hutc
  have hfirst : firesDay s (leapDay y) = true := by
    rw [hl.firesDay_iff, (civil_leapDay hleap).1]
    exact ⟨hleap, rfl⟩
  obtain ⟨f, hfloc, hfwhole, hfday, hffires⟩ := exists_fires hin hfirst
  have hfyear : f.year = y := by
    change (civil f.wallDay).year = y
    rw [hfday]
    exact (civil_leapDay hleap).1
  have hle := hlast f hfloc hfwhole hfyear hffires
  have hend := leapDay_lt_yearStart w.year
  have hmono := yearStart_mono (show w.year + 1 ≤ y by omega)
  have hstart : yearStart y ≤ leapDay y := by unfold leapDay; omega
  have hearly := abs_lt_of_wallDay_lt hwloc hfloc (by omega)
  have hlater := hw.later
  omega

/-- Five years from `after` are up before the leap day that ends the gap. -/
private theorem not_window_late {y : Int} (hcommon : isLeap (y + 3) = false)
    (hmarch : after.wallDay < leapDay (y + 3)) {w : Time} (hday : w.wallDay = leapDay w.year)
    (hge : y + 8 ≤ w.year) : ¬ Window s after w := by
  intro hw
  obtain ⟨hyear, -⟩ := after_year after
  have hwloc : w.loc = Zone.utc := hw.loc.trans hutc
  have hbound := wallDay_le_of_abs_le hwloc (limit_loc hutc) (Int.le_of_lt hw.bounded)
  rw [limit_wallDay hutc] at hbound
  have hmono := leapDay_mono hge
  have hearly : after.year ≤ y + 3 := by
    have hend := leapDay_lt_yearStart (y + 3)
    by_contra hgt
    have hmono' := yearStart_mono (show y + 3 + 1 ≤ after.year by omega)
    omega
  rcases show after.year < y + 3 ∨ after.year = y + 3 by omega with hlt | heq
  · have hlim := dayNumber_lt_yearStart after.date 5
    have hmono' := yearStart_mono (show after.year + 5 + 1 ≤ y + 8 by omega)
    have hstart : yearStart (y + 8) ≤ leapDay (y + 8) := by unfold leapDay; omega
    change dayNumber (after.year + 5) after.month after.day <
      yearStart (after.year + 5 + 1) at hlim
    omega
  · have hnum : after.date.number = after.wallDay := number_civil _
    have hmove := dayNumber_lt_leapDay after.date 5
    change isLeap after.year = false → _ < leapDay after.year →
      dayNumber (after.year + 5) after.month after.day < leapDay (after.year + 5) at hmove
    rw [hnum, heq] at hmove
    have hlim := hmove hcommon hmarch
    rw [heq] at hbound
    rw [show y + 3 + 5 = y + 8 by omega] at hlim hbound
    omega

include hin in
/-- In the gap the schedule fires again, but not in the window. -/
theorem no_window_of_gap (hgap : LeapGap s after) :
    (∃ m, Later s after m) ∧ ∀ m, ¬ Window s after m := by
  obtain ⟨hl, y, hleap, hdrop, hlast, hmarch⟩ := hgap
  have hy := (isLeap_iff y).mp hleap
  have hy4 := (isLeap_eq_false_iff (y + 4)).mp hdrop
  have hnext : isLeap (y + 8) = true := (isLeap_iff _).mpr (by omega)
  have hcommon : isLeap (y + 3) = false := (isLeap_eq_false_iff _).mpr (by omega)
  rw [lt_march_iff hutc hcommon] at hmarch
  constructor
  · have hnextDay : firesDay s (leapDay (y + 8)) = true := by
      rw [hl.firesDay_iff, (civil_leapDay hnext).1]
      exact ⟨hnext, rfl⟩
    obtain ⟨m, hloc, hwhole, hday, hfires⟩ := exists_fires hin hnextDay
    refine ⟨m, hloc.trans hutc.symm, hwhole, ?_, hfires⟩
    apply abs_lt_of_wallDay_lt hutc hloc
    have hmono := leapDay_mono (show y + 3 ≤ y + 8 by omega)
    omega
  · intro w hw
    have hfires := hw.fires
    rw [fires_eq, Bool.and_eq_true, Bool.and_eq_true] at hfires
    obtain ⟨hwleap, hwday⟩ := (hl.firesDay_iff _).mp hfires.1.1
    change isLeap w.year = true at hwleap
    have hwy := (isLeap_iff w.year).mp hwleap
    rcases show w.year < y ∨ w.year = y ∨ y + 8 ≤ w.year by omega with hlt | heq | hge
    · exact not_window_early hin hutc hl hleap hlast hwday hlt hw
    · have hle := hlast w (hw.loc.trans hutc) hw.whole heq hw.fires
      exact absurd hw.later (Int.not_lt.mpr hle)
    · exact not_window_late hutc hcommon hmarch hwday hge hw

end Gap

/-! ## When the zero time means "never again" -/

/-- The next minute at which the schedule fires is the zero time itself. -/
def ZeroFirst (s : ExprSchedule) (after : Time) : Prop :=
  after.abs < 0 ∧ fires s Time.zero = true ∧ ∀ m, Later s after m → 0 ≤ m.abs

theorem Window.toLater {s : ExprSchedule} {after m : Time} (h : Window s after m) :
    Later s after m :=
  ⟨h.loc, h.whole, h.later, h.fires⟩

/-- When the zero time fires first, it is what the search finds. -/
private theorem zero_of_zeroFirst {s : ExprSchedule} {after r : Time}
    (hutc : after.loc = Zone.utc) (hzero : ZeroFirst s after) (hleast : Least s after r) :
    r.isZero = true := by
  obtain ⟨hneg, hfires, hfirst⟩ := hzero
  have hge := hfirst r (Window.toLater hleast.1)
  by_contra hne
  have hpos : 0 < r.abs := by
    simp only [Time.isZero, beq_iff_eq] at hne
    omega
  have hle := hleast.2 Time.zero ⟨hutc.symm, by decide, hneg,
    Int.lt_trans hpos hleast.1.bounded, hfires⟩
  simp only [Time.zero] at hle
  omega

/-- When the search finds the zero time, that fires first. -/
private theorem zeroFirst_of_zero {s : ExprSchedule} {after r : Time}
    (hutc : after.loc = Zone.utc) (hleast : Least s after r) (hz : r.isZero = true) :
    ZeroFirst s after := by
  have habs : r.abs = 0 := by simpa [Time.isZero] using hz
  have hr0 : r = Time.zero := by
    cases r
    simp only [Time.zero, Time.mk.injEq]
    exact ⟨habs, hleast.1.loc.trans hutc⟩
  refine ⟨?_, by rw [← hr0]; exact hleast.1.fires, fun m hm => ?_⟩
  · rw [← habs]
    exact hleast.1.later
  · by_contra hlt
    have hle := hleast.2 m ⟨hm.loc, hm.whole, hm.later,
      Int.lt_trans (by omega) hleast.1.bounded, hm.fires⟩
    omega

/-- Outside the gap a schedule that fires again fires in the window. -/
private theorem window_of_later {s : ExprSchedule} {after m : Time} (hin : s.Inhabited)
    (hutc : after.loc = Zone.utc) (hgap : ¬ LeapGap s after) (hm : Later s after m) :
    ∃ w, Window s after w := by
  have hfires := hm.fires
  rw [fires_eq, Bool.and_eq_true, Bool.and_eq_true] at hfires
  rcases firesYearly_or_leapDayOnly hin hfires.1.1 with hyearly | hl
  · exact window_of_yearly hin hutc hyearly
  · exact window_of_not_gap hin hutc hl hgap

/-- **The search bound.** In UTC the call `s.Next(after)` of an accepted
schedule returns a non-zero time whenever the schedule fires again, if and
only if `after` is not in the gap of a schedule of the leap day and the next
firing minute is not the zero time itself. -/
theorem next_zero_iff_never {spec : String} {s : ExprSchedule} {after : Time}
    (h : expr spec = .ok s) (hutc : after.loc = Zone.utc) :
    (∃ r, Returns s after r ∧ ((∃ m, Later s after m) → r.isZero = false)) ↔
      ¬ LeapGap s after ∧ ¬ ZeroFirst s after := by
  have hin := expr_inhabited h
  have hconst : after.loc.Constant 0 := by
    rw [hutc]
    exact Zone.utc_constant
  obtain ⟨r, hr, hscan⟩ := next_scan (s := s) hconst (by decide)
  constructor
  · rintro ⟨r', hr', hnever⟩
    obtain rfl := hr.unique hr'
    constructor
    · intro hgap
      obtain ⟨hlater, hnone⟩ := no_window_of_gap hin hutc hgap
      rcases hscan with hleast | ⟨rfl, -⟩
      · exact hnone r hleast.1
      · cases hnever hlater
    · intro hzero
      have hlater : Later s after Time.zero := ⟨hutc.symm, by decide, hzero.1, hzero.2.1⟩
      have hne := hnever ⟨_, hlater⟩
      rcases hscan with hleast | ⟨rfl, -⟩
      · rw [zero_of_zeroFirst hutc hzero hleast] at hne
        cases hne
      · cases hne
  · rintro ⟨hgap, hzero⟩
    refine ⟨r, hr, fun ⟨m, hm⟩ => ?_⟩
    rcases hscan with hleast | ⟨rfl, hnone⟩
    · by_contra hz
      exact hzero (zeroFirst_of_zero hutc hleast (Bool.eq_true_of_not_eq_false hz))
    · obtain ⟨w, hw⟩ := window_of_later hin hutc hgap hm
      exact absurd hw (hnone w)

/-- `0 0 29 2 *`. -/
def leapMidnight : ExprSchedule where
  min := 1
  hour := 1
  dom := 0x20000000
  month := 4
  dow := 0xff
  domStar := false
  dowStar := true

/-- The first of March 2096, the leap day just over. -/
def march2096 : Time := timeDate 2096 3 1 0 0 0 0 Zone.utc

/-- The schedule `0 0 29 2 *` asked on the first of March 2096 gives up in
2101, although it fires again on the twenty-ninth of February 2104. -/
theorem next_zero_march2096 :
    expr "0 0 29 2 *" = .ok leapMidnight ∧
      Returns leapMidnight march2096 Time.zero ∧
      Later leapMidnight march2096 (timeDate 2104 2 29 0 0 0 0 Zone.utc) := by
  refine ⟨by rfl, ⟨400, by decide +kernel⟩, ?_⟩
  exact
    { loc := rfl
      whole := by decide
      later := by decide
      fires := by decide }

/-- The first of March 2024. -/
def march2024 : Time := timeDate 2024 3 1 0 0 0 0 Zone.utc

/-- The next leap day is not dropped. -/
private theorem not_leapGap_march2024 : ¬ LeapGap leapMidnight march2024 := by
  rintro ⟨-, y, hleap, hdropped, hlast, hbefore⟩
  have hafter : march2024.abs = dayNumber 2024 3 1 * 86400 * second := by rfl
  have hnotBefore : 2022 ≤ y := by
    by_contra hlt
    have hbound : (timeDate (y + 3) 3 1 0 0 0 0 Zone.utc).abs =
        dayNumber (y + 3) 3 1 * 86400 * second := by
      rw [timeDate_wholeSecond, ofWall_abs Zone.utc_constant]
      simp [wallClock]
    have hmono : monthStart (12 * (y + 3) + (3 - 1)) ≤ monthStart (12 * 2024 + (3 - 1)) :=
      monthStart_mono (by omega)
    rw [hafter, hbound] at hbefore
    unfold dayNumber second at hbefore
    omega
  have hnotAfter : y ≤ 2024 := by
    obtain ⟨hyear, hmonth, hday⟩ := civil_leapDay hleap
    have hwall : (instant (leapDay y) 0 0).wallDay = leapDay y :=
      instant_wallDay le_rfl (by omega) le_rfl (by omega)
    have hfires : fires leapMidnight (instant (leapDay y) 0 0) = true := by
      rw [fires_eq, hwall, firesDay_of_domOnly ⟨rfl, rfl⟩, hmonth, hday,
        instant_hour le_rfl (by omega) le_rfl (by omega), instant_minute le_rfl (by omega)]
      rfl
    have hle := hlast (instant (leapDay y) 0 0) rfl
      (by unfold instant minute second; dsimp only; omega)
      (by unfold Time.year Time.date; rw [hwall, hyear]) hfires
    by_contra hlt
    have hmono : leapDay 2025 ≤ leapDay y := leapDay_mono (by omega)
    have hmarch : dayNumber 2024 3 1 < leapDay 2025 := by decide
    rw [hafter] at hle
    unfold instant second at hle
    dsimp only at hle
    omega
  have hcases : y = 2022 ∨ y = 2023 ∨ y = 2024 := by omega
  rcases hcases with rfl | rfl | rfl
  · cases hleap
  · cases hleap
  · cases hdropped

/-- On the first of March 2024 four years are enough. -/
theorem next_found_march2024 :
    ∃ r, Returns leapMidnight march2024 r ∧
      ((∃ m, Later leapMidnight march2024 m) → r.isZero = false) :=
  (next_zero_iff_never (show expr "0 0 29 2 *" = .ok leapMidnight by rfl) rfl).mpr
    ⟨not_leapGap_march2024, fun hzero => absurd hzero.1 (by decide)⟩

end Shost.Ports.CronWindow
