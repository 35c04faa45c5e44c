import Shost.Ports.CronNext

/-!
# Cron expressions: the search against the minute-by-minute scan

In a location whose offset never changes the wall clock is the instant plus a
constant, so the jumps land where their names say.  A jump then skips only
minutes that share the field it rejected, and the skip-ahead search finds the
first minute of the window that fires.

## Main results

* `monthTarget_eq`, `dayTarget_eq`, `hourStart_eq` — where the jumps land.
* `jump_skips` — no skipped instant fires.
* `next_least_minute` — `Next` against the scan.
-/

namespace Shost.Ports.CronScan

open Shost.Verified
open Shost.Verified.Gregorian
open Shost.Verified.SkipSearch
open Shost.Ports.CronExpr
open Shost.Ports.CronNext
open Shost.Ports.GoTime

/-! ## Wall clocks under a constant offset -/

theorem hourStart_eq (t : Time) : hourStart t = t.wall - t.wall % 3600 :=
  t.wallClock_hour

/-- The calendar day of the wall clock. -/
theorem wallDay_eq (t : Time) : t.wallDay = t.wall / 86400 := rfl

section Constant

variable {z : Zone} {off : Int} (hz : z.Constant off)

include hz

theorem wall_eq {t : Time} (ht : t.loc = z) : t.wall = t.sec + off := by
  unfold Time.wall Time.offset
  rw [ht, hz]

theorem ofWall_abs (w ns : Int) : (ofWall w ns z).abs = (w - off) * second + ns := by
  simp [ofWall, hz.dateOffset]

theorem ofWall_wall (w : Int) : (ofWall w 0 z).wall = w := by
  rw [wall_eq hz (ofWall_loc w 0 z), ofWall_sec, hz.dateOffset]
  omega

theorem monthTarget_eq {t : Time} (ht : t.loc = z) :
    monthTarget t = monthStart (monthIndex t.wallDay + 1) * 86400 := by
  have hstart : wallClock t.year t.month 1 0 0 0 =
      monthStart (monthIndex t.wallDay) * 86400 := by
    simpa using t.wallClock_month 0
  unfold monthTarget
  rw [timeDate_wholeSecond, ht, hstart]
  exact Time.addDateWall_month _ (ofWall_wall hz _)

theorem dayTarget_eq {t : Time} (ht : t.loc = z) :
    dayTarget t = (t.wallDay + 1) * 86400 := by
  unfold dayTarget
  rw [timeDate_wholeSecond, ht, t.wallClock_date]
  exact Time.addDateWall_day _ (ofWall_wall hz _)

/-- A constant location never gets in the way of a jump. -/
theorem clear_of_constant (s : ExprSchedule) {t : Time} (ht : t.loc = z) : Clear s t := by
  have hoff : t.offset = off := by
    unfold Time.offset
    rw [ht, hz]
  have hdate : ∀ w, t.loc.dateOffset w = off := by
    intro w
    rw [ht, hz.dateOffset]
  have hidx := monthIndex_spec t.wallDay
  have hday := wallDay_eq t
  unfold Clear OffsetWithin
  simp only [hoff, hdate, monthTarget_eq hz ht, dayTarget_eq hz ht, hourStart_eq]
  split_ifs
  · omega
  · omega
  · omega

end Constant

/-! ## What a jump skips -/

theorem month_eq (t : Time) : t.month = monthIndex t.wallDay % 12 + 1 := rfl

/-- The day fields only depend on the calendar day. -/
theorem dayMatches_congr (s : ExprSchedule) {t u : Time} (h : u.wallDay = t.wallDay) :
    dayMatches s u = dayMatches s t := by
  unfold dayMatches Time.day Time.weekday Time.date
  rw [h]

section Skip

variable {z : Zone} {off : Int} (hz : z.Constant off) {s : ExprSchedule}

include hz

private theorem wall_le {t u : Time} (ht : t.loc = z) (hu : u.loc = z)
    (hle : t.abs ≤ u.abs) : t.wall ≤ u.wall := by
  rw [wall_eq hz ht, wall_eq hz hu]
  unfold Time.sec second
  omega

private theorem wall_lt_of_abs_lt {u : Time} {w : Int} (hu : u.loc = z)
    (hlt : u.abs < (w - off) * second) : u.wall < w := by
  rw [wall_eq hz hu]
  unfold Time.sec
  unfold second at *
  omega

/-- No instant from `t` on and before the start of the next month fires when
the month of `t` is not admitted. -/
private theorem skip_month {t u : Time} (ht : t.loc = z)
    (hle : t.wall ≤ u.wall) (hlt : u.wall < monthTarget t)
    (hrej : hasBit s.month t.month = false) : fires s u = false := by
  rw [monthTarget_eq hz ht] at hlt
  have hspec := monthIndex_spec t.wallDay
  have htday := wallDay_eq t
  have huday := wallDay_eq u
  have hidx : monthIndex u.wallDay = monthIndex t.wallDay :=
    monthIndex_unique (by omega) (by omega)
  have hmonth : u.month = t.month := by rw [month_eq, month_eq, hidx]
  simp [fires, hmonth, hrej]

private theorem skip_day {t u : Time} (ht : t.loc = z)
    (hle : t.wall ≤ u.wall) (hlt : u.wall < dayTarget t)
    (hrej : dayMatches s t = false) : fires s u = false := by
  rw [dayTarget_eq hz ht] at hlt
  have hday : u.wallDay = t.wallDay := by
    rw [wallDay_eq] at hlt
    rw [wallDay_eq, wallDay_eq]
    omega
  simp [fires, dayMatches_congr s hday, hrej]

omit hz in
private theorem skip_hour {t u : Time} (hle : t.wall ≤ u.wall)
    (hlt : u.wall < hourStart t + 3600)
    (hrej : hasBit s.hour t.hour = false) : fires s u = false := by
  rw [hourStart_eq] at hlt
  have hhour : u.hour = t.hour := by
    unfold Time.hour
    omega
  simp [fires, hhour, hrej]

omit hz in
private theorem skip_minute {t u : Time} (hwhole : t.wall % 60 = 0)
    (hle : t.wall ≤ u.wall) (hlt : u.wall < t.wall + 60)
    (hrej : hasBit s.min t.minute = false) : fires s u = false := by
  have hminute : u.minute = t.minute := by
    unfold Time.minute
    omega
  simp [fires, hminute, hrej]

/-- A jump from a candidate on a whole minute skips no instant that fires. -/
theorem jump_skips {t t' u : Time} (ht : t.loc = z) (hu : u.loc = z)
    (hoff : off % 60 = 0) (hwhole : t.abs % minute = 0) (hj : jump s t = some t')
    (hle : t.abs ≤ u.abs) (hlt : u.abs < t'.abs) : fires s u = false := by
  have hw := wall_le hz ht hu hle
  unfold jump at hj
  split_ifs at hj with hmonth hday hhour hmin <;>
    simp only [Option.some.injEq] at hj <;> subst hj
  · rw [nextMonth_eq, ht, ofWall_abs hz, Int.add_zero] at hlt
    exact skip_month hz ht hw (wall_lt_of_abs_lt hz hu hlt) (by simpa using hmonth)
  · rw [nextDay_eq, ht, ofWall_abs hz, Int.add_zero] at hlt
    exact skip_day hz ht hw (wall_lt_of_abs_lt hz hu hlt) (by simpa using hday)
  · rw [nextHour_abs, ht, hz.dateOffset] at hlt
    exact skip_hour hw (wall_lt_of_abs_lt hz hu hlt) (by simpa using hhour)
  · simp only [Time.add, minute, second] at hlt hwhole
    refine skip_minute ?_ hw ?_ (by simpa using hmin)
    · rw [wall_eq hz ht]
      unfold Time.sec second
      omega
    · rw [wall_eq hz ht, wall_eq hz hu]
      unfold Time.sec second
      omega

/-- A jump from a candidate on a whole minute leads to a whole minute. -/
theorem jump_wholeMinute {t t' : Time} (ht : t.loc = z) (hoff : off % 60 = 0)
    (hwhole : t.abs % minute = 0) (hj : jump s t = some t') : t'.abs % minute = 0 := by
  unfold jump at hj
  split_ifs at hj <;> simp only [Option.some.injEq] at hj <;> subst hj
  · rw [nextMonth_eq, ht, ofWall_abs hz, monthTarget_eq hz ht]
    unfold minute second
    omega
  · rw [nextDay_eq, ht, ofWall_abs hz, dayTarget_eq hz ht]
    unfold minute second
    omega
  · rw [nextHour_abs, ht, hz.dateOffset, hourStart_eq]
    have hmod : (t.wall - t.wall % 3600) % 60 = 0 := by omega
    unfold minute second
    omega
  · simp only [Time.add, minute, second] at hwhole ⊢
    omega

end Skip

theorem first_wholeMinute (after : Time) : (firstCandidate after).abs % minute = 0 := by
  simp only [firstCandidate, Time.truncate, Time.add, minute, second]
  omega

/-- A whole minute after `after` is not before the first candidate. -/
theorem first_le {after u : Time} (hwhole : u.abs % minute = 0)
    (hlt : after.abs < u.abs) : (firstCandidate after).abs ≤ u.abs := by
  simp only [firstCandidate, Time.truncate, Time.add, minute, second] at hwhole ⊢
  omega

/-! ## The scan -/

/-- `m` is a whole minute after `after`, before the bound of the search, at
which the schedule fires. -/
structure Window (s : ExprSchedule) (after m : Time) : Prop where
  loc : m.loc = after.loc
  whole : m.abs % minute = 0
  later : after.abs < m.abs
  bounded : m.abs < (limit after).abs
  fires : fires s m = true

/-- `m` is the least such minute. -/
def Least (s : ExprSchedule) (after m : Time) : Prop :=
  Window s after m ∧ ∀ m', Window s after m' → m.abs ≤ m'.abs

section Agreement

variable {s : ExprSchedule} {after : Time} {off : Int}
  (hz : after.loc.Constant off) (hoff : off % 60 = 0)

include hz hoff

theorem Candidate.whole {t : Time} (hc : Candidate s after t) :
    t.abs % minute = 0 := by
  have hboth : t.loc = after.loc ∧ t.abs % minute = 0 :=
    hc.invariant (motive := fun u => u.loc = after.loc ∧ u.abs % minute = 0)
      ⟨rfl, first_wholeMinute after⟩
      (fun u u' hu _ hj =>
        ⟨(jump_loc hj).trans hu.1, jump_wholeMinute hz hu.1 hoff hu.2 hj⟩)
  exact hboth.2

/-- No minute of the window lies before a candidate. -/
private theorem Candidate.skips {t t' : Time} (hc : Candidate s after t)
    (hj : jump s t = some t') (p : Int) (hle : t.abs ≤ p) (hlt : p < t'.abs) :
    ¬ Window s after ⟨p, after.loc⟩ := by
  intro hw
  have hfires := jump_skips hz hc.loc (u := ⟨p, after.loc⟩) rfl hoff
    (Candidate.whole hz hoff hc) hj hle hlt
  rw [hw.fires] at hfires
  cases hfires

/-- **Skip-ahead against the scan.** In a location with a constant offset of
whole minutes the call returns.  Its result is the least whole minute of the
window that fires, or the zero time where the window has none. -/
theorem next_scan :
    ∃ r, Returns s after r ∧
      (Least s after r ∨ (r = Time.zero ∧ ∀ m, ¬ Window s after m)) := by
  have hclear : ∀ t, Candidate s after t → live after t = true → Clear s t :=
    fun t hc _ => clear_of_constant hz s hc.loc
  obtain ⟨r, n, hn⟩ := returns_of_clear hclear
  refine ⟨r, ⟨n, hn⟩, ?_⟩
  obtain ⟨a, ha, rfl⟩ := Option.map_eq_some_iff.mp hn
  have hmk : ∀ m : Time, m.loc = after.loc → (⟨m.abs, after.loc⟩ : Time) = m := by
    rintro ⟨p, z⟩ rfl
    rfl
  have hskip : ∀ u u', Candidate s after u → live after u = true → jump s u = some u' →
      ∀ p, u.abs ≤ p → p < u'.abs → ¬ Window s after ⟨p, after.loc⟩ :=
    fun u u' hu _ hj p => Candidate.skips hz hoff hu hj p
  have hlive : ∀ u, live after u = true ↔ u.abs < (limit after).abs := by
    intro u
    simp [live, Time.before]
  cases a with
  | some t =>
      left
      have haccept : ∀ u, Candidate s after u → live after u = true → jump s u = none →
          Window s after ⟨u.abs, after.loc⟩ := by
        intro u hc hl hj
        rw [hmk u hc.loc]
        exact ⟨hc.loc, Candidate.whole hz hoff hc, Candidate.after_lt hclear hc,
          (hlive u).mp hl, (jump_eq_none_iff s u).mp hj⟩
      have hloc : t.loc = after.loc := Candidate.loc (search_hit ha).1
      obtain ⟨hwin, hnone⟩ := search_hit_least Time.abs
        (fun p => Window s after ⟨p, after.loc⟩) ha haccept hskip
      refine ⟨by rwa [hmk t hloc] at hwin, fun m hm => ?_⟩
      by_contra hlt
      refine hnone m.abs (first_le hm.whole hm.later) (by simpa using hlt) ?_
      rwa [hmk m hm.loc]
  | none =>
      right
      refine ⟨rfl, fun m hm => ?_⟩
      have hmiss := search_miss_none Time.abs (fun p => Window s after ⟨p, after.loc⟩)
        (limit after).abs ha (fun u hu => by rw [← Int.not_lt, ← hlive, hu]; simp) hskip
      refine hmiss m.abs (first_le hm.whole hm.later) hm.bounded ?_
      rwa [hmk m hm.loc]

/-- The result of `Next` in a location with a constant offset of whole
minutes: the least whole minute of the window that fires when there is one,
else the zero time.  The result is the zero time exactly when the window has
no such minute or the least one is the zero time itself. -/
theorem next_least_minute :
    ∃ r, Returns s after r ∧
      ((∃ m, Window s after m) → Least s after r) ∧
      (r.isZero = true ↔
        (∀ m, ¬ Window s after m) ∨ ∃ m, Least s after m ∧ m.isZero = true) := by
  obtain ⟨r, hr, hscan⟩ := next_scan (s := s) hz hoff
  refine ⟨r, hr, ?_, ?_⟩
  · rintro ⟨m, hm⟩
    rcases hscan with hleast | ⟨-, hnone⟩
    · exact hleast
    · exact absurd hm (hnone m)
  · rcases hscan with hleast | ⟨rfl, hnone⟩
    · constructor
      · exact fun hzero => Or.inr ⟨r, hleast, hzero⟩
      · rintro (hnone | ⟨m, hm, hzero⟩)
        · exact absurd hleast.1 (hnone r)
        · have hle := hleast.2 m hm.1
          have hge := hm.2 r hleast.1
          have heq : r.abs = m.abs := Int.le_antisymm hle hge
          simpa [Time.isZero, heq] using hzero
    · simp [hnone, Time.isZero, Time.zero]

end Agreement

/-- `* * * * *`. -/
def everyMinute : ExprSchedule where
  min := 0xfffffffffffffff
  hour := 0xffffff
  dom := 0xfffffffe
  month := 0x1ffe
  dow := 0xff
  domStar := true
  dowStar := true

/-- The last minute of the year before the year `1`, in UTC. -/
def beforeZero : Time := ⟨-minute, Zone.utc⟩

/-- A minute that fires can be the zero time itself: one minute before it the
schedule `* * * * *` returns the zero time although the window is not empty. -/
theorem next_zero_fires :
    expr "* * * * *" = .ok everyMinute ∧
      Returns everyMinute beforeZero Time.zero ∧
      Window everyMinute beforeZero Time.zero :=
  ⟨by rfl, ⟨1, by rfl⟩,
    { loc := rfl
      whole := by decide
      later := by decide
      bounded := by decide
      fires := by decide }⟩

/-- In UTC, from the eighteenth of July 2026 on. -/
theorem next_least_minute_utc :
    ∃ r, Returns everyMinute ⟨63919929600 * second, Zone.utc⟩ r ∧
      ((∃ m, Window everyMinute ⟨63919929600 * second, Zone.utc⟩ m) →
        Least everyMinute ⟨63919929600 * second, Zone.utc⟩ r) ∧
      (r.isZero = true ↔
        (∀ m, ¬ Window everyMinute ⟨63919929600 * second, Zone.utc⟩ m) ∨
          ∃ m, Least everyMinute ⟨63919929600 * second, Zone.utc⟩ m ∧ m.isZero = true) :=
  next_least_minute Zone.utc_constant (by decide)

end Shost.Ports.CronScan
