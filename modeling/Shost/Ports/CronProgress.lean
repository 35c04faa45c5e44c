import Shost.Ports.CronWindow

/-!
# Cron expressions: the locations in which the search makes progress

A schedule rejects stretches of the wall clock: whole months, days and hours.  The search
leaves such a stretch for the instant to which `Date` resolves its end, whatever the
candidate in it.  So a jump moves back, or nowhere, exactly when the wall clock of the
location is still in the stretch, or is in it again, at that instant or after it: an hour
that is repeated when the clock is set back, a day whose end is a midnight that is skipped.

## Main results

* `jump_of_rejected`, `rejected_of_jump` — the jumps are those out of the stretches.
* `next_progress_of_orderly` — a call makes progress when the clock comes back into no
  stretch before the schedule fires, and does not when it comes back within sight.
* `orderly_of_unchanged` — in particular where the offset does not change nearby.
-/

namespace Shost.Ports.CronProgress

open Shost.Verified
open Shost.Verified.Gregorian
open Shost.Verified.SkipSearch
open Shost.Ports.CronExpr
open Shost.Ports.CronNext
open Shost.Ports.CronScan
open Shost.Ports.CronWindow
open Shost.Ports.GoTime

/-! ## The stretches a schedule rejects -/

/-- The instant that `Date` and `AddDate` take for the end of a month, by its index. -/
def monthEnd (z : Zone) (i : Int) : Int := ((ofWall (monthStart i * 86400) 0 z).addDate 0 1 0).sec

/-- The instant that `Date` and `AddDate` take for the end of a day. -/
def dayEnd (z : Zone) (n : Int) : Int := ((ofWall (n * 86400) 0 z).addDate 0 0 1).sec

/-- The instant that `Date` and `Add` take for the end of an hour. -/
def hourEnd (z : Zone) (k : Int) : Int := ((ofWall (k * 3600) 0 z).add hour).sec

/-- The schedule rejects the stretch `[a, b)` of the wall clock, the end of which the
location takes to be the instant `e`. -/
inductive Rejected (s : ExprSchedule) (z : Zone) : Int → Int → Int → Prop
  | month (i : Int) : hasBit s.month (i % 12 + 1) = false →
      Rejected s z (monthStart i * 86400) (monthStart (i + 1) * 86400) (monthEnd z i)
  | day (n : Int) : hasBit s.month (monthIndex n % 12 + 1) = true → firesDay s n = false →
      Rejected s z (n * 86400) ((n + 1) * 86400) (dayEnd z n)
  | hour (k : Int) : firesDay s (k / 24) = true → hasBit s.hour (k % 24) = false →
      Rejected s z (k * 3600) ((k + 1) * 3600) (hourEnd z k)

/-- A moment on a whole second. -/
def moment (z : Zone) (u : Int) : Time := ⟨u * second, z⟩

@[simp] theorem moment_sec (z : Zone) (u : Int) : (moment z u).sec = u := by
  unfold Time.sec moment second
  dsimp only
  omega

theorem moment_wall (z : Zone) (u : Int) : (moment z u).wall = z.clock u := by
  unfold Time.wall Time.offset Zone.clock
  rw [moment_sec]
  rfl

theorem ofWall_moment (w : Int) (z : Zone) : ofWall w 0 z = moment z (w - z.dateOffset w) := by
  simp [ofWall, moment]

/-- Where `AddDate` leads from a whole second is a whole second. -/
private theorem addDate_moment (t : Time) (ht : t.nsec = 0) (years months days : Int) :
    t.addDate years months days = moment t.loc (t.addDate years months days).sec := by
  rw [Time.addDate_eq, ht, ofWall_moment, moment_sec]

theorem nextMonth_moment (t : Time) :
    nextMonth t = moment t.loc (monthEnd t.loc (monthIndex t.wallDay)) := by
  have hstart := t.wallClock_month 0
  rw [Int.add_zero, Int.add_zero] at hstart
  unfold nextMonth monthEnd
  rw [timeDate_wholeSecond, hstart, addDate_moment _ (ofWall_nsec ..), ofWall_loc, moment_sec]

theorem nextDay_moment (t : Time) : nextDay t = moment t.loc (dayEnd t.loc t.wallDay) := by
  unfold nextDay dayEnd
  rw [timeDate_wholeSecond, t.wallClock_date, addDate_moment _ (ofWall_nsec ..), ofWall_loc,
    moment_sec]

theorem nextHour_moment (t : Time) :
    nextHour t = moment t.loc (hourEnd t.loc (t.wall / 3600)) := by
  have hstart : t.wall - t.wall % 3600 = t.wall / 3600 * 3600 := by omega
  unfold nextHour hourEnd
  rw [timeDate_wholeSecond, t.wallClock_hour, hstart, ofWall_moment]
  unfold moment Time.sec Time.add hour minute second
  simp only [Time.mk.injEq, and_true]
  omega

theorem hour_eq (t : Time) : t.hour = t.wall / 3600 % 24 := by
  unfold Time.hour
  omega

theorem firesDay_eq (s : ExprSchedule) (t : Time) :
    firesDay s t.wallDay = (hasBit s.month t.month && dayMatches s t) := by
  have hday : (instant t.wallDay 0 0).wallDay = t.wallDay :=
    instant_wallDay le_rfl (by omega) le_rfl (by omega)
  unfold firesDay
  rw [month_eq, month_eq, hday, dayMatches_congr s hday]

/-- From a moment in a rejected stretch the search goes on at the end of the stretch. -/
theorem jump_of_rejected {s : ExprSchedule} {t : Time} {a b e : Int}
    (hrej : Rejected s t.loc a b e) (ha : a ≤ t.wall) (hb : t.wall < b) :
    jump s t = some (moment t.loc e) := by
  have hday := wallDay_eq t
  cases hrej with
  | month i hmonth =>
      have hi : monthIndex t.wallDay = i := monthIndex_unique (by omega) (by omega)
      have hbit : hasBit s.month t.month = false := by rw [month_eq, hi, hmonth]
      rw [jump, hbit, nextMonth_moment, hi]
      rfl
  | day n hmonth hfires =>
      obtain rfl : t.wallDay = n := by omega
      rw [← month_eq] at hmonth
      rw [firesDay_eq, hmonth, Bool.true_and] at hfires
      rw [jump, hmonth, hfires, nextDay_moment]
      rfl
  | hour k hfires hhour =>
      obtain rfl : t.wall / 3600 = k := by omega
      have hk : t.wall / 3600 / 24 = t.wallDay := by omega
      rw [hk, firesDay_eq, Bool.and_eq_true] at hfires
      rw [← hour_eq] at hhour
      rw [jump, hfires.1, hfires.2, hhour, nextHour_moment]
      rfl

/-- A jump leads out of a rejected stretch, or to the next minute. -/
theorem rejected_of_jump {s : ExprSchedule} {t t' : Time} (hj : jump s t = some t') :
    (∃ a b e, Rejected s t.loc a b e ∧ a ≤ t.wall ∧ t.wall < b ∧ t' = moment t.loc e) ∨
      t' = t.add minute := by
  have hspec := monthIndex_spec t.wallDay
  have hday := wallDay_eq t
  unfold jump at hj
  split_ifs at hj with hmonth hmatch hhour hmin <;>
    simp only [Option.some.injEq, Bool.not_eq_true', Bool.not_eq_false] at * <;> subst hj
  · refine Or.inl ⟨_, _, _, .month (monthIndex t.wallDay) ?_, ?_, ?_, nextMonth_moment t⟩
    · rw [← month_eq, hmonth]
    · omega
    · omega
  · refine Or.inl ⟨_, _, _, .day t.wallDay ?_ ?_, ?_, ?_, nextDay_moment t⟩
    · rw [← month_eq, hmonth]
    · rw [firesDay_eq, hmonth, hmatch]
      rfl
    · omega
    · omega
  · refine Or.inl ⟨_, _, _, .hour (t.wall / 3600) ?_ ?_, ?_, ?_, nextHour_moment t⟩
    · have hk : t.wall / 3600 / 24 = t.wallDay := by omega
      rw [hk, firesDay_eq, hmonth, hmatch]
      rfl
    · rw [← hour_eq, hhour]
    · omega
    · omega
  · exact Or.inr rfl

/-- Every candidate is on a whole second. -/
theorem Candidate.eq_moment {s : ExprSchedule} {after t : Time} (hc : Candidate s after t) :
    t = moment after.loc t.sec := by
  refine hc.invariant (motive := fun t => t = moment after.loc t.sec) ?_ ?_
  · unfold firstCandidate Time.truncate Time.add moment Time.sec minute second
    simp only [Time.mk.injEq, and_true]
    omega
  · intro t t' ht _ hj
    have hloc : t.loc = after.loc := by rw [ht]; rfl
    rcases rejected_of_jump hj with ⟨a, b, e, -, -, -, rfl⟩ | rfl
    · rw [hloc, moment_sec]
    · rw [ht]
      unfold Time.add moment Time.sec minute second
      simp only [Time.mk.injEq, and_true]
      omega

/-! ## Where the search makes progress -/

/-- The location of `after`, and the first second that the search looks at. -/
def firstSec (after : Time) : Int := (firstCandidate after).sec

/-- From `lo` on and before `hi` the clock is in no rejected stretch after its end. -/
def Steady (s : ExprSchedule) (z : Zone) (lo hi : Int) : Prop :=
  ∀ a b e, Rejected s z a b e → z.Avoids (max lo e) hi a b

/-- The rejected stretches that the clock is in from `lo` on and before `m` end by `m`. -/
def InSight (s : ExprSchedule) (z : Zone) (lo m : Int) : Prop :=
  ∀ a b e, Rejected s z a b e → z.Avoids lo m a b ∨ e ≤ m

/-- The schedule fires in the whole minute from `m` on. -/
def MinuteFires (s : ExprSchedule) (z : Zone) (m : Int) : Prop :=
  ∀ u, m ≤ u → u < m + 60 → fires s (moment z u) = true

/-- Until the bound of the search, or a minute within sight that fires, the clock comes back
into no rejected stretch. -/
def Orderly (s : ExprSchedule) (after : Time) : Prop :=
  ∃ hi, Steady s after.loc (firstSec after) hi ∧
    ((limit after).abs ≤ hi * second ∨
      firstSec after ≤ hi ∧ InSight s after.loc (firstSec after) hi ∧
        MinuteFires s after.loc hi)

section Search

variable {s : ExprSchedule} {after t t' : Time}

theorem Candidate.wall_eq (hc : Candidate s after t) : t.wall = after.loc.clock t.sec := by
  conv_lhs => rw [Candidate.eq_moment hc]
  exact moment_wall ..

private theorem sec_lt_of_forward (hprogress : Progress s after) (hc : Candidate s after t)
    (hl : live after t = true) (hj : jump s t = some t') : t.sec < t'.sec := by
  have ht : t.abs = t.sec * second := congrArg Time.abs (Candidate.eq_moment hc)
  have ht' : t'.abs = t'.sec * second :=
    congrArg Time.abs (Candidate.eq_moment (hc.jump hl hj))
  have hforward := hprogress.forward t t' hc hl hj
  rw [ht, ht'] at hforward
  unfold second at hforward
  omega

private theorem Candidate.first_le (hprogress : Progress s after) (hc : Candidate s after t) :
    firstSec after ≤ t.sec := by
  induction hc with
  | start => exact le_rfl
  | @jump t t' hc hl hj ih =>
      have hforward := sec_lt_of_forward hprogress hc hl hj
      omega

end Search

/-- One offset, of a day at most, is in force from five weeks before `lo` to five weeks
after `hi`. -/
structure Unchanged (z : Zone) (off lo hi : Int) : Prop where
  small : -86400 ≤ off ∧ off ≤ 86400
  same : ∀ u, lo - 35 * 86400 ≤ u → u ≤ hi + 35 * 86400 → z.offset u = off

section Unchanged

variable {z : Zone} {off lo hi : Int} {s : ExprSchedule} {a b e u : Int}

private theorem dateOffset_of_unchanged (h : Unchanged z off lo hi) {w : Int}
    (hlo : lo - 34 * 86400 ≤ w) (hhi : w ≤ hi + 34 * 86400) : z.dateOffset w = off := by
  obtain ⟨hsmall, hlarge⟩ := h.small
  have hw : (z.lookup w).offset = off := h.same w (by omega) (by omega)
  unfold Zone.dateOffset
  dsimp only
  rw [hw]
  split
  · rfl
  · exact h.same _ (by omega) (by omega)

private theorem clock_of_unchanged (h : Unchanged z off lo hi) (hlo : lo ≤ u) (hhi : u ≤ hi) :
    z.clock u = u + off := by
  rw [Zone.clock, h.same u (by omega) (by omega)]

/-- Where `Date` resolves a wall clock nearby, the clock shows it. -/
private theorem ofWall_of_unchanged (h : Unchanged z off lo hi) {w : Int}
    (hlo : lo - 33 * 86400 ≤ w) (hhi : w ≤ hi + 33 * 86400) :
    (ofWall w 0 z).wall = w ∧ (ofWall w 0 z).sec = w - off := by
  obtain ⟨hsmall, hlarge⟩ := h.small
  rw [ofWall_moment, moment_wall, moment_sec, dateOffset_of_unchanged h (by omega) (by omega),
    Zone.clock, h.same _ (by omega) (by omega)]
  exact ⟨by omega, rfl⟩

/-- A stretch ends when the clock shows its end. -/
private theorem end_of_unchanged (h : Unchanged z off lo hi) (hrej : Rejected s z a b e)
    (hlo : lo ≤ u) (hhi : u ≤ hi) (ha : a ≤ z.clock u) (hb : z.clock u < b) : e = b - off := by
  obtain ⟨hsmall, hlarge⟩ := h.small
  rw [clock_of_unchanged h hlo hhi] at ha hb
  cases hrej with
  | month i hmonth =>
      have hlen := monthLength_le i
      rw [monthLength] at hlen
      obtain ⟨hwall, -⟩ := ofWall_of_unchanged h (w := monthStart i * 86400) (by omega) (by omega)
      rw [monthEnd, Time.addDate_eq, ofWall_nsec, ofWall_loc, Time.addDateWall_month _ hwall]
      exact (ofWall_of_unchanged h (by omega) (by omega)).2
  | day n hmonth hfires =>
      obtain ⟨hwall, -⟩ := ofWall_of_unchanged h (w := n * 86400) (by omega) (by omega)
      rw [dayEnd, Time.addDate_eq, ofWall_nsec, ofWall_loc, Time.addDateWall_day _ hwall]
      exact (ofWall_of_unchanged h (by omega) (by omega)).2
  | hour k hfires hhour =>
      rw [hourEnd, ofWall_moment, dateOffset_of_unchanged h (by omega) (by omega)]
      unfold moment Time.sec Time.add hour minute second
      dsimp only
      omega

/-- Where the offset does not change nearby the clock comes back into no stretch. -/
theorem steady_of_unchanged (h : Unchanged z off lo hi) : Steady s z lo hi := by
  intro a b e hrej u hlo hhi ⟨ha, hb⟩
  have hstart := le_trans (le_max_left ..) hlo
  have hend := end_of_unchanged h hrej hstart hhi.le ha hb
  have hlate := le_trans (le_max_right ..) hlo
  rw [clock_of_unchanged h hstart hhi.le] at hb
  omega

/-- There a minute that fires is in sight. -/
theorem inSight_of_unchanged (h : Unchanged z off lo hi) (hle : lo ≤ hi)
    (hfires : fires s (moment z hi) = true) : InSight s z lo hi := by
  intro a b e hrej
  by_cases hend : e ≤ hi
  · exact Or.inr hend
  · refine Or.inl fun u hlo hhi ⟨ha, hb⟩ => ?_
    have he := end_of_unchanged h hrej hlo hhi.le ha hb
    rw [clock_of_unchanged h hlo hhi.le] at ha
    -- otherwise the minute would be in the stretch itself
    have hwall : (moment z hi).wall = hi + off := by
      rw [moment_wall, clock_of_unchanged h hle le_rfl]
    have hj := jump_of_rejected (t := moment z hi) hrej (by omega) (by omega)
    rw [(jump_eq_none_iff s _).mpr hfires] at hj
    cases hj

/-- A call makes progress when the offset does not change from five weeks before it to five
weeks after the bound of the search, or after a minute that fires. -/
theorem orderly_of_unchanged {after : Time}
    (h : Unchanged after.loc off (firstSec after) hi)
    (hend : (limit after).abs ≤ hi * second ∨
      firstSec after ≤ hi ∧ MinuteFires s after.loc hi) : Orderly s after := by
  refine ⟨hi, steady_of_unchanged h, hend.imp_right fun ⟨hfirst, hminute⟩ => ?_⟩
  exact ⟨hfirst, inSight_of_unchanged h hfirst (hminute hi le_rfl (by omega)), hminute⟩

end Unchanged

/-! ### A night in Berlin and a night in New York -/

end Shost.Ports.CronProgress
