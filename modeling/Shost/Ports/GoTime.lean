import Shost.Verified.Gregorian
import Shost.Verified.Zone

/-!
# The part of Go's `time` package that the cron schedules use

A `Time` is an instant together with the location it is shown in.  Instants
are nanoseconds counted from Go's zero time, the first of January of the year
`1` at 00:00 UTC, so the zero `Time` is the instant `0` and truncation to
whole minutes, which Go defines relative to the zero time, is truncation of
the integer.  The instants of a location's table are counted in seconds from
the same origin.

The bounds of Go's 64-bit representation (about 292 thousand million years)
are not modelled.
-/

namespace Shost.Ports.GoTime

open Shost.Verified
open Shost.Verified.Gregorian

/-- `time.Second` and its multiples, in nanoseconds. -/
def second : Int := 1000000000

def minute : Int := 60 * second

def hour : Int := 60 * minute

/-- `time.Time`. -/
structure Time where
  abs : Int
  loc : Zone
  deriving DecidableEq

namespace Time

/-- `time.Time{}`. -/
def zero : Time := ⟨0, Zone.utc⟩

/-- `Time.IsZero`. -/
def isZero (t : Time) : Bool := t.abs == 0

/-- `Time.Before`. -/
def before (t u : Time) : Bool := decide (t.abs < u.abs)

/-- `Time.Add`. -/
def add (t : Time) (d : Int) : Time := { t with abs := t.abs + d }

/-- `Time.Truncate`: down to a multiple of `d` since the zero time. -/
def truncate (t : Time) (d : Int) : Time := { t with abs := t.abs - t.abs % d }

/-- Whole seconds since the zero time. -/
def sec (t : Time) : Int := t.abs / second

/-- Nanoseconds within the second. -/
def nsec (t : Time) : Int := t.abs % second

/-- The offset in force at `t` in its location. -/
def offset (t : Time) : Int := t.loc.offset t.sec

/-- The wall clock of `t` in seconds, read as if it were UTC. -/
def wall (t : Time) : Int := t.sec + t.offset

/-- Day number of the wall clock. -/
def wallDay (t : Time) : Int := t.wall / 86400

/-- `Time.Date`: the calendar date of the wall clock. -/
def date (t : Time) : CivilDate := civil t.wallDay

/-- `Time.Year`. -/
def year (t : Time) : Int := t.date.year

/-- `Time.Month`. -/
def month (t : Time) : Int := t.date.month

/-- `Time.Day`. -/
def day (t : Time) : Int := t.date.day

/-- `Time.Weekday`, Sunday being `0`. -/
def weekday (t : Time) : Int := Gregorian.weekday t.wallDay

/-- `Time.Hour`. -/
def hour (t : Time) : Int := t.wall % 86400 / 3600

/-- `Time.Minute`. -/
def minute (t : Time) : Int := t.wall % 3600 / 60

/-- `Time.Second`. -/
def second (t : Time) : Int := t.wall % 60

end Time

/-- The wall clock `Date` builds from its arguments, in seconds. -/
def wallClock (y m d h mi s : Int) : Int :=
  dayNumber y m d * 86400 + h * 3600 + mi * 60 + s

/-- The instant at which the wall clock of `loc` shows `w`, as `Date` resolves
it. -/
def ofWall (w ns : Int) (loc : Zone) : Time :=
  ⟨(w - loc.dateOffset w) * second + ns, loc⟩

/-- `time.Date`. -/
def timeDate (y m d h mi s ns : Int) (loc : Zone) : Time :=
  ofWall (wallClock y m d h mi s + ns / second) (ns % second) loc

/-- The wall clock that `AddDate` hands to `Date`. -/
def Time.addDateWall (t : Time) (years months days : Int) : Int :=
  wallClock (t.year + years) (t.month + months) (t.day + days) t.hour t.minute t.second

/-- `Time.AddDate`. -/
def Time.addDate (t : Time) (years months days : Int) : Time :=
  timeDate (t.year + years) (t.month + months) (t.day + days) t.hour t.minute t.second
    t.nsec t.loc

/-! ## Seconds and wall clocks -/

namespace Time

variable (t : Time)

theorem nsec_nonneg : 0 ≤ t.nsec := by
  unfold nsec GoTime.second
  omega

theorem nsec_lt : t.nsec < GoTime.second := by
  unfold nsec GoTime.second
  omega

theorem abs_eq : t.abs = t.sec * GoTime.second + t.nsec := by
  unfold sec nsec GoTime.second
  omega

/-- The calendar day of `t` begins at the wall clock `wallDay * 86400`. -/
theorem wallClock_date :
    wallClock t.year t.month t.day 0 0 0 = t.wallDay * 86400 := by
  have h := number_civil t.wallDay
  simp only [CivilDate.number] at h
  simp only [wallClock, year, month, day, date, h]
  omega

/-- The calendar hour of `t` begins at the wall clock rounded down to it. -/
theorem wallClock_hour :
    wallClock t.year t.month t.day t.hour 0 0 = t.wall - t.wall % 3600 := by
  have h := t.wallClock_date
  unfold wallClock at h ⊢
  unfold hour
  unfold wallDay at h
  omega

/-- The fields of `t` spell its wall clock. -/
theorem wallClock_fields :
    wallClock t.year t.month t.day t.hour t.minute t.second = t.wall := by
  have h := t.wallClock_hour
  unfold wallClock at h ⊢
  unfold minute second
  omega

/-- The first day of the calendar month of `t`, in month indices. -/
theorem wallClock_month (k : Int) :
    wallClock t.year (t.month + k) 1 0 0 0 =
      monthStart (monthIndex t.wallDay + k) * 86400 := by
  have hidx := t.date.monthIndex_number
  have hnum : t.date.number = t.wallDay := number_civil t.wallDay
  rw [hnum] at hidx
  simp only [wallClock, dayNumber, year, month]
  rw [show 12 * t.date.year + (t.date.month + k - 1) = monthIndex t.wallDay + k by omega]
  omega

/-- A month after the start of a month the next one begins. -/
theorem addDateWall_month {i : Int} (h : t.wall = monthStart i * 86400) :
    t.addDateWall 0 1 0 = monthStart (i + 1) * 86400 := by
  have hday : t.wallDay = monthStart i := by
    unfold wallDay
    omega
  have hidx : monthIndex t.wallDay = i := by
    rw [hday]
    exact monthIndex_unique le_rfl (monthStart_lt_succ _)
  have hfirst : t.day = 1 := by
    unfold day date civil
    dsimp only
    rw [hidx, hday]
    omega
  have hmonth := t.wallClock_month 1
  rw [hidx] at hmonth
  unfold addDateWall
  rw [hfirst, ← hmonth]
  unfold wallClock hour minute second
  rw [Int.add_zero, Int.add_zero]
  omega

/-- A day after the start of a day the next one begins. -/
theorem addDateWall_day {n : Int} (h : t.wall = n * 86400) :
    t.addDateWall 0 0 1 = (n + 1) * 86400 := by
  have hfields := t.wallClock_fields
  unfold addDateWall
  unfold wallClock at hfields ⊢
  rw [Int.add_zero, Int.add_zero]
  unfold dayNumber at hfields ⊢
  omega

theorem month_pos : 1 ≤ t.month := t.date.month_pos

theorem month_le : t.month ≤ 12 := t.date.month_le

theorem day_pos : 1 ≤ t.day := t.date.day_pos

theorem day_le : t.day ≤ 31 := t.date.day_le_31

theorem hour_nonneg : 0 ≤ t.hour := by
  unfold hour
  omega

theorem hour_lt : t.hour < 24 := by
  unfold hour
  omega

theorem minute_nonneg : 0 ≤ t.minute := by
  unfold minute
  omega

theorem minute_lt : t.minute < 60 := by
  unfold minute
  omega

end Time

/-! ## Resolved wall clocks -/

theorem timeDate_wholeSecond (y m d h mi s : Int) (loc : Zone) :
    timeDate y m d h mi s 0 loc = ofWall (wallClock y m d h mi s) 0 loc := by
  simp [timeDate, second]

theorem Time.addDate_eq (t : Time) (years months days : Int) :
    t.addDate years months days = ofWall (t.addDateWall years months days) t.nsec t.loc := by
  have h0 := t.nsec_nonneg
  have h1 := t.nsec_lt
  unfold Time.addDate Time.addDateWall timeDate
  rw [Int.ediv_eq_zero_of_lt h0 h1, Int.emod_eq_of_lt h0 h1, Int.add_zero]

theorem ofWall_loc (w ns : Int) (loc : Zone) : (ofWall w ns loc).loc = loc := rfl

theorem ofWall_sec (w : Int) (loc : Zone) :
    (ofWall w 0 loc).sec = w - loc.dateOffset w := by
  unfold ofWall Time.sec second
  dsimp only
  omega

theorem ofWall_nsec (w : Int) (loc : Zone) : (ofWall w 0 loc).nsec = 0 := by
  unfold ofWall Time.nsec second
  dsimp only
  omega

/-- Instants on whole seconds compare as their seconds do. -/
theorem Time.abs_lt_ofWall (t : Time) (w : Int) (loc : Zone) :
    t.abs < (ofWall w 0 loc).abs ↔ t.sec < w - loc.dateOffset w := by
  have h := t.abs_eq
  have h0 := t.nsec_nonneg
  have h1 := t.nsec_lt
  simp only [ofWall, GoTime.second] at h h1 ⊢
  constructor <;> intro <;> omega

end Shost.Ports.GoTime
