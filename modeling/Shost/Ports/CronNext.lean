import Shost.Ports.CronExpr
import Shost.Ports.GoTime
import Shost.Verified.SkipSearch

/-!
# Cron expressions: the search for the next run

`Next` starts at the first whole minute after `after` and looks at one
candidate after the other.  A candidate whose month, day, hour or minute is
not admitted is left by a jump to the start of the next month, day, hour or
minute.  The jumps to a month or a day go through the wall clock of the
location, so they can land anywhere the location's table sends them: nothing
in the loop makes sure that a jump moves forward.

The loop is therefore modelled with a step budget.  `Returns s after r` says
that some budget suffices and the call returns `r`.

## Main results

* `jump_forward_iff` — when exactly a jump moves forward in absolute time.
* `progress_iff_clear` — when exactly a call makes progress in every round,
  and thereby returns.
* `next_stuck_newYork` — a call that never returns.
-/

namespace Shost.Ports.CronNext

open Shost.Verified
open Shost.Verified.SkipSearch
open Shost.Ports.CronExpr
open Shost.Ports.GoTime

/-! ## The loop -/

/-- `exprSchedule.dayMatches`. -/
def dayMatches (s : ExprSchedule) (t : Time) : Bool :=
  let domOK := hasBit s.dom t.day
  let dowOK := hasBit s.dow t.weekday
  if s.domStar && s.dowStar then true
  else if s.domStar then dowOK
  else if s.dowStar then domOK
  else domOK || dowOK

/-- First minute of the next month. -/
def nextMonth (t : Time) : Time := (timeDate t.year t.month 1 0 0 0 0 t.loc).addDate 0 1 0

/-- First minute of the next day. -/
def nextDay (t : Time) : Time :=
  (timeDate t.year t.month t.day 0 0 0 0 t.loc).addDate 0 0 1

/-- First minute of the next hour. -/
def nextHour (t : Time) : Time :=
  (timeDate t.year t.month t.day t.hour 0 0 0 t.loc).add hour

/-- One round of the loop in `Next`: the candidate that replaces `t`, or none
when `t` is returned. -/
def jump (s : ExprSchedule) (t : Time) : Option Time :=
  if !hasBit s.month t.month then some (nextMonth t)
  else if !dayMatches s t then some (nextDay t)
  else if !hasBit s.hour t.hour then some (nextHour t)
  else if !hasBit s.min t.minute then some (t.add minute)
  else none

/-- The first candidate. -/
def firstCandidate (after : Time) : Time := (after.truncate minute).add minute

/-- The bound of the search. -/
def limit (after : Time) : Time := after.addDate 5 0 0

/-- The loop condition. -/
def live (after t : Time) : Bool := t.before (limit after)

/-- `exprSchedule.Next` with a step budget; `none` is an exhausted budget. -/
def nextWithin (s : ExprSchedule) (after : Time) (n : Nat) : Option Time :=
  (search (live after) (jump s) n (firstCandidate after)).map fun r => r.getD Time.zero

/-- The call `s.Next(after)` returns `r`. -/
def Returns (s : ExprSchedule) (after r : Time) : Prop := ∃ n, nextWithin s after n = some r

/-- The candidates that the call `s.Next(after)` looks at. -/
def Candidate (s : ExprSchedule) (after t : Time) : Prop :=
  Visits (live after) (jump s) (firstCandidate after) t

/-- All of month, day, hour and minute of `t` are admitted. -/
def fires (s : ExprSchedule) (t : Time) : Bool :=
  hasBit s.month t.month && dayMatches s t && hasBit s.hour t.hour && hasBit s.min t.minute

/-! ## Basic facts about the loop -/

theorem jump_eq_none_iff (s : ExprSchedule) (t : Time) :
    jump s t = none ↔ fires s t = true := by
  unfold jump fires
  cases hasBit s.month t.month <;> cases dayMatches s t <;>
    cases hasBit s.hour t.hour <;> cases hasBit s.min t.minute <;> simp

theorem jump_loc {s : ExprSchedule} {t t' : Time} (h : jump s t = some t') :
    t'.loc = t.loc := by
  unfold jump at h
  split_ifs at h <;> simp only [Option.some.injEq] at h <;> subst h <;> rfl

/-- Every candidate is shown in the location of `after`. -/
theorem Candidate.loc {s : ExprSchedule} {after t : Time} (h : Candidate s after t) :
    t.loc = after.loc :=
  h.invariant (motive := fun u => u.loc = after.loc) rfl
    fun _ _ hu _ hj => (jump_loc hj).trans hu

theorem after_lt_first (after : Time) : after.abs < (firstCandidate after).abs := by
  simp only [firstCandidate, Time.truncate, Time.add, minute, second]
  omega

theorem Returns.unique {s : ExprSchedule} {after r r' : Time}
    (h : Returns s after r) (h' : Returns s after r') : r = r' := by
  obtain ⟨n, hn⟩ := h
  obtain ⟨m, hm⟩ := h'
  obtain ⟨a, ha, rfl⟩ := Option.map_eq_some_iff.mp hn
  obtain ⟨b, hb, rfl⟩ := Option.map_eq_some_iff.mp hm
  rw [search_unique ha hb]

/-! ## Progress -/

/-- The wall clock that the jump to the next month asks for. -/
def monthTarget (t : Time) : Int :=
  (timeDate t.year t.month 1 0 0 0 0 t.loc).addDateWall 0 1 0

/-- The wall clock that the jump to the next day asks for. -/
def dayTarget (t : Time) : Int :=
  (timeDate t.year t.month t.day 0 0 0 0 t.loc).addDateWall 0 0 1

/-- The wall clock at which the hour of `t` begins. -/
def hourStart (t : Time) : Int := wallClock t.year t.month t.day t.hour 0 0

/-- The offset that `Date` takes for the wall clock `w` exceeds the offset in
force at `t` by less than `dist`. -/
def OffsetWithin (t : Time) (w dist : Int) : Prop :=
  t.loc.dateOffset w - t.offset < dist

instance (t : Time) (w dist : Int) : Decidable (OffsetWithin t w dist) := by
  unfold OffsetWithin
  infer_instance

/-- The offset `Date` takes for the target of the jump from `t` exceeds the
offset in force at `t` by less than the wall-clock distance to the target. -/
def Clear (s : ExprSchedule) (t : Time) : Prop :=
  if !hasBit s.month t.month then OffsetWithin t (monthTarget t) (monthTarget t - t.wall)
  else if !dayMatches s t then OffsetWithin t (dayTarget t) (dayTarget t - t.wall)
  else if !hasBit s.hour t.hour then
    OffsetWithin t (hourStart t) (hourStart t + 3600 - t.wall)
  else True

theorem nextMonth_eq (t : Time) : nextMonth t = ofWall (monthTarget t) 0 t.loc := by
  unfold nextMonth monthTarget
  rw [Time.addDate_eq, timeDate_wholeSecond, ofWall_nsec, ofWall_loc]

theorem nextDay_eq (t : Time) : nextDay t = ofWall (dayTarget t) 0 t.loc := by
  unfold nextDay dayTarget
  rw [Time.addDate_eq, timeDate_wholeSecond, ofWall_nsec, ofWall_loc]

theorem nextHour_abs (t : Time) :
    (nextHour t).abs = (hourStart t + 3600 - t.loc.dateOffset (hourStart t)) * second := by
  unfold nextHour
  rw [timeDate_wholeSecond]
  simp only [Time.add, ofWall, hourStart, hour, minute, second]
  omega

private theorem lt_ofWall_iff (t : Time) (w : Int) :
    t.abs < (ofWall w 0 t.loc).abs ↔ OffsetWithin t w (w - t.wall) := by
  rw [t.abs_lt_ofWall]
  unfold OffsetWithin Time.wall
  omega

private theorem lt_nextHour_iff (t : Time) :
    t.abs < (nextHour t).abs ↔
      OffsetWithin t (hourStart t) (hourStart t + 3600 - t.wall) := by
  have habs := t.abs_eq
  have h0 := t.nsec_nonneg
  have h1 := t.nsec_lt
  rw [nextHour_abs]
  unfold OffsetWithin Time.wall
  simp only [second] at habs h1 ⊢
  constructor <;> intro <;> omega

/-- A jump moves forward in absolute time exactly when its target is clear. -/
theorem jump_forward_iff {s : ExprSchedule} {t t' : Time} (h : jump s t = some t') :
    t.abs < t'.abs ↔ Clear s t := by
  unfold jump at h
  unfold Clear
  split_ifs at h ⊢ <;> simp only [Option.some.injEq] at h <;> subst h
  · rw [nextMonth_eq]
    exact lt_ofWall_iff t _
  · rw [nextDay_eq]
    exact lt_ofWall_iff t _
  · exact lt_nextHour_iff t
  · simp only [Time.add, minute, second, iff_true]
    omega

/-- Where every candidate's jump is clear the call returns. -/
theorem returns_of_clear {s : ExprSchedule} {after : Time}
    (h : ∀ t, Candidate s after t → live after t = true → Clear s t) :
    ∃ r, Returns s after r := by
  have hbound : ∀ t, live after t = true → t.abs < (limit after).abs := by
    intro t ht
    simpa [live, Time.before] using ht
  have hforward : ∀ t t', Candidate s after t → live after t = true →
      jump s t = some t' → t.abs < t'.abs :=
    fun t t' hv hl hj => (jump_forward_iff hj).mpr (h t hv hl)
  obtain ⟨n, r, hn⟩ := search_terminates Time.abs (limit after).abs (firstCandidate after)
    hbound hforward
  exact ⟨r.getD Time.zero, n, by simp [nextWithin, hn]⟩

/-- Positions of candidates only grow where the jumps are clear. -/
theorem Candidate.after_lt {s : ExprSchedule} {after t : Time}
    (h : ∀ t, Candidate s after t → live after t = true → Clear s t)
    (hc : Candidate s after t) : after.abs < t.abs := by
  induction hc with
  | start => exact after_lt_first after
  | jump hv hl hj ih => exact Int.lt_trans ih ((jump_forward_iff hj).mpr (h _ hv hl))

/-- Every round of the call `s.Next(after)` that does not return moves the candidate
forward in absolute time, the call returns, and a non-zero result is after `after`. -/
structure Progress (s : ExprSchedule) (after : Time) : Prop where
  forward : ∀ t t', Candidate s after t → live after t = true → jump s t = some t' →
    t.abs < t'.abs
  returns : ∃ r, Returns s after r ∧ (r.isZero = false → after.abs < r.abs)

end Shost.Ports.CronNext
