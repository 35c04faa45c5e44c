import Shost.Ports.CronDays
import Shost.Ports.CronInstants
import Shost.Ports.CronWindow

/-!
# Services at the minutes of a cron expression

`At` with a schedule that `Expr` has made from a text, on a machine whose local time has a
constant offset of whole minutes: the text, the search and the loop of the service taken
together.  The search is given the number of steps that it needs there, so that the
schedule is a function.

## Main results

* `next_of_constant` — the schedule returns what the search of `Next` does.
* `due_iff` — the minutes at which the sets of a schedule fire are those that the text
  names.
* `serves_expr_of_run` — the service runs its job for these minutes.
-/

namespace Shost.Ports.CronService

open Shost.Verified Shost.Verified.Gregorian Shost.Verified.SkipSearch Trace
open Shost.Ports.GoTime Shost.Ports.CronExpr Shost.Ports.CronDenote Shost.Ports.CronDays
open Shost.Ports.CronNext Shost.Ports.CronScan Shost.Ports.CronWindow

/-! ## The schedule as a function -/

/-- More minutes than there are before the bound of the search. -/
def searchMinutes : Nat := 2197 * 1440

/-- `exprSchedule.Next`, for locations with a constant offset of whole minutes. -/
def exprNext (s : ExprSchedule) : Schedule :=
  fun after => (nextWithin s after (searchMinutes + 1)).getD Time.zero

section Search

variable {s : ExprSchedule} {after : Time} {off : Int}

/-- The search gives up within six years. -/
theorem limit_le (hz : after.loc.Constant off) :
    (limit after).abs ≤ after.abs + searchMinutes * minute := by
  have habs := after.abs_eq
  have hwall := wall_eq hz rfl
  have hfields := after.wallClock_fields
  have hdate := after.wallClock_date
  have hyear := (after_year after).1
  have hsix : yearStart (after.year + 5 + 1) ≤ yearStart after.year + 366 * 6 := by
    rw [add_assoc]
    exact yearStart_add_le after.year 6
  have hday := dayNumber_lt_yearStart after.date 5
  have hlimit : (limit after).abs =
      (after.addDateWall 5 0 0 - off) * GoTime.second + after.nsec := by
    unfold limit
    rw [Time.addDate_eq, ofWall_abs hz]
  rw [hlimit, habs]
  simp only [Time.addDateWall, wallClock, Time.year, Time.month, Time.day, Int.add_zero,
    Time.wallDay] at *
  simp only [searchMinutes, GoTime.minute, GoTime.second]
  omega

/-- In such a location the steps are enough. -/
theorem next_of_constant (hz : after.loc.Constant off) (hoff : off % 60 = 0) :
    Returns s after (exprNext s after) := by
  have hforward : ∀ t t', Candidate s after t → live after t = true → jump s t = some t' →
      t.abs + minute ≤ t'.abs := by
    intro t t' hc hl hj
    have hlt := (jump_forward_iff hj).mpr (clear_of_constant hz s hc.loc)
    have hwhole := Candidate.whole hz hoff hc
    have hwhole' := Candidate.whole hz hoff (hc.jump hl hj)
    simp only [GoTime.minute, GoTime.second] at hwhole hwhole' ⊢
    omega
  have hbound : ∀ t, live after t = true → t.abs < (limit after).abs := by
    intro t ht
    simpa [live, Time.before] using ht
  have hfirst := after_lt_first after
  have hlimit := limit_le hz
  obtain ⟨r, hr⟩ := search_within Time.abs (limit after).abs minute (firstCandidate after)
    hbound hforward (n := searchMinutes) (by omega)
  refine ⟨searchMinutes + 1, ?_⟩
  rw [exprNext, nextWithin, hr]
  rfl

end Search

/-! ## The minutes that a text names -/

/-- The field of this number names a value. -/
def FieldNames (spec : String) (i : Nat) (v : Int) : Prop :=
  ∃ k field, kinds[i]? = some k ∧ (specFields spec)[i]? = some field ∧ ToAdmit k field v

/-- The text names the minute: a day field that is written `*` leaves the decision to the
other one, and of two that are not one is enough. -/
structure Due (spec : String) (t : Time) : Prop where
  minute : FieldNames spec 0 t.minute
  hour : FieldNames spec 1 t.hour
  month : FieldNames spec 3 t.month
  day : StarAt spec 4 → FieldNames spec 2 t.day
  weekday : StarAt spec 2 → FieldNames spec 4 t.weekday
  either : FieldNames spec 2 t.day ∨ FieldNames spec 4 t.weekday

/-- The instants at whole minutes that the text names, in local time. -/
def dueInstants (spec : String) (loc : Zone) : Set Int :=
  {f | f % minute = 0 ∧ Due spec ⟨f, loc⟩}

section Text

variable {spec : String} {s : ExprSchedule}

/-- The sets of a schedule admit what the fields name. -/
private theorem hasBit_iff_names (hexpr : expr spec = .ok s) (hdenoted : Denoted spec s) {i : Nat}
    {set : BitVec 64} (hset : (sets s)[i]? = some set) {v : Int} (h0 : 0 ≤ v) (h64 : v < 64) :
    hasBit set v = true ↔ FieldNames spec i v := by
  obtain ⟨f0, f1, f2, f3, f4, hp⟩ := CronGrammar.expr_iff.mp hexpr
  have hfields : specFields spec = [f0, f1, f2, f3, f4] := hp.fields_eq
  have hlt : i < 5 := by
    have hi := (List.getElem?_eq_some_iff.mp hset).1
    simpa [sets] using hi
  obtain ⟨k, hk⟩ : ∃ k, kinds[i]? = some k :=
    ⟨_, List.getElem?_eq_getElem (by simpa [kinds] using hlt)⟩
  obtain ⟨field, hfield⟩ : ∃ field, (specFields spec)[i]? = some field := by
    rw [hfields]
    exact ⟨_, List.getElem?_eq_getElem (by simpa using hlt)⟩
  rw [hdenoted i k field set hk hfield hset v h0 h64]
  refine ⟨fun hadmit => ⟨k, field, hk, hfield, hadmit⟩, ?_⟩
  rintro ⟨k', field', hk', hfield', hadmit⟩
  obtain rfl := Option.some.inj (hk.symm.trans hk')
  obtain rfl := Option.some.inj (hfield.symm.trans hfield')
  exact hadmit

/-- The day rule, by the text. -/
private theorem dayMatches_iff (hexpr : expr spec = .ok s) (hdenoted : Denoted spec s) (t : Time) :
    dayMatches s t = true ↔ (StarAt spec 4 → FieldNames spec 2 t.day) ∧
      (StarAt spec 2 → FieldNames spec 4 t.weekday) ∧
      (FieldNames spec 2 t.day ∨ FieldNames spec 4 t.weekday) := by
  have hday0 := t.day_pos
  have hday31 := t.day_le
  obtain ⟨hweek0, hweek6⟩ := weekday_bounds t
  have hday : hasBit s.dom t.day = true ↔ FieldNames spec 2 t.day :=
    hasBit_iff_names hexpr hdenoted rfl (by omega) (by omega)
  have hweekday : hasBit s.dow t.weekday = true ↔ FieldNames spec 4 t.weekday :=
    hasBit_iff_names hexpr hdenoted rfl hweek0 (by omega)
  obtain ⟨hdomStar, hdowStar, hdays, hweekdays⟩ := stars_of_expr hexpr
  have hall : s.domStar = true → hasBit s.dom t.day = true :=
    fun hstar => hdays hstar _ hday0 hday31
  have hall' : s.dowStar = true → hasBit s.dow t.weekday = true :=
    fun hstar => hweekdays hstar _ hweek0 hweek6
  rw [← hdomStar, ← hdowStar, ← hday, ← hweekday]
  cases hd : s.domStar <;> cases hw : s.dowStar <;> simp_all [dayMatches]

/-- The schedule of a text fires at the minutes that it names, if no step of it is so large
that a counter wraps. -/
theorem due_iff (hexpr : expr spec = .ok s) (hfit : EachField spec StepsFit) (t : Time) :
    fires s t = true ↔ Due spec t := by
  have hdenoted : Denoted spec s := denoted_of_stepsFit hexpr hfit
  have hmin : hasBit s.min t.minute = true ↔ FieldNames spec 0 t.minute :=
    hasBit_iff_names hexpr hdenoted rfl t.minute_nonneg (by have := t.minute_lt; omega)
  have hhour : hasBit s.hour t.hour = true ↔ FieldNames spec 1 t.hour :=
    hasBit_iff_names hexpr hdenoted rfl t.hour_nonneg (by have := t.hour_lt; omega)
  have hmonth : hasBit s.month t.month = true ↔ FieldNames spec 3 t.month :=
    hasBit_iff_names hexpr hdenoted rfl (by have := t.month_pos; omega)
      (by have := t.month_le; omega)
  have hdays := dayMatches_iff hexpr hdenoted t
  simp only [fires, Bool.and_eq_true, hmin, hhour, hmonth, hdays]
  constructor
  · rintro ⟨⟨⟨hm, hd, hw, heither⟩, hh⟩, hmi⟩
    exact ⟨hmi, hh, hm, hd, hw, heither⟩
  · rintro ⟨hmi, hh, hm, hd, hw, heither⟩
    exact ⟨⟨⟨hm, hd, hw, heither⟩, hh⟩, hmi⟩

end Text

/-! ## One location -/

/-- A schedule that is asked in one location only. -/
def inLocation (loc : Zone) (sched : Schedule) : Schedule :=
  fun t => if t.loc = loc then sched t else Time.zero

section Location

variable {spec : String} {s : ExprSchedule} {loc : Zone} {off : Int}
  (hexpr : expr spec = .ok s) (hfit : EachField spec StepsFit) (hz : loc.Constant off)
  (hoff : off % 60 = 0)

include hz hoff

/-- What the schedule returns is the least minute of its window. -/
private theorem least_of_next {t : Time} (hloc : t.loc = loc)
    (hzero : (exprNext s t).isZero = false) : Least s t (exprNext s t) := by
  subst hloc
  obtain ⟨r, hr, hleast | ⟨rfl, -⟩⟩ := next_scan (s := s) hz hoff
  · rwa [(next_of_constant hz hoff).unique hr]
  · rw [(next_of_constant hz hoff).unique hr] at hzero
    cases hzero

theorem inLocation_reach : WithinReach (inLocation loc (exprNext s)) := by
  intro t hzero
  unfold inLocation at hzero ⊢
  split at hzero
  · rename_i hloc
    rw [if_pos hloc]
    have hbounded := (least_of_next hz hoff hloc hzero).1.bounded
    have hzt : t.loc.Constant off := hloc ▸ hz
    have hlimit := limit_le hzt
    simp only [searchMinutes, GoTime.minute, GoTime.second] at hlimit
    simp only [maxDuration]
    omega
  · cases hzero

include hexpr hfit

theorem inLocation_least :
    NextIsLeast (inLocation loc (exprNext s)) (dueInstants spec loc) := by
  intro t hzero
  unfold inLocation at hzero ⊢
  split at hzero
  · rename_i hloc
    rw [if_pos hloc]
    obtain ⟨hwindow, hmin⟩ := least_of_next hz hoff hloc hzero
    have hat : (⟨(exprNext s t).abs, loc⟩ : Time) = exprNext s t := by
      rw [← hloc, ← hwindow.loc]
    refine ⟨⟨⟨hwindow.whole, ?_⟩, hwindow.later⟩, ?_⟩
    · rw [hat]
      exact (due_iff hexpr hfit _).mp hwindow.fires
    · rintro f ⟨⟨hwhole, hdue⟩, hlater⟩
      by_contra hlt
      have hbounded : f < (limit t).abs := (not_le.mp hlt).trans hwindow.bounded
      exact hlt (hmin ⟨f, loc⟩
        ⟨hloc.symm, hwhole, hlater, hbounded, (due_iff hexpr hfit _).mpr hdue⟩)
  · cases hzero

end Location

/-! ## Runs -/

/-- The options leave the timing alone. -/
private theorem foldl_timing (opts : List Opt) (timing : Timing) :
    ∀ svc : Service, opts.foldl Opt.apply { svc with timing := timing } =
      { opts.foldl Opt.apply svc with timing := timing } := by
  induction opts with
  | nil => exact fun _ => rfl
  | cons o rest ih =>
      intro svc
      have happly : o.apply { svc with timing := timing } =
          { o.apply svc with timing := timing } := by cases o <;> rfl
      rw [List.foldl_cons, happly, ih]
      rfl

private theorem at_eq (name : String) (hname : name ≠ "") (sched sched' : Schedule)
    (opts : List Opt) :
    at' name hname sched' opts = { at' name hname sched opts with timing := .at sched' } :=
  foldl_timing opts (.at sched') (.new name hname (.at sched))

private theorem at_timing (name : String) (hname : name ≠ "") (sched : Schedule)
    (opts : List Opt) : (at' name hname sched opts).timing = .at sched := by
  rw [at_eq name hname sched sched opts]

/-- A service is not told from one whose schedule agrees with its own where it is asked. -/
private theorem step_congr {svc : Service} {sched sched' : Schedule} {s : State} {a : Action}
    (htiming : svc.timing = .at sched) (hsame : sched s.now = sched' s.now)
    (hg : guard svc s a = true) :
    guard { svc with timing := .at sched' } s a = true ∧
      effect { svc with timing := .at sched' } s a = effect svc s a := by
  cases a with
  | readClock t =>
      obtain ⟨-, rfl⟩ := (of_decide_eq_true hg : s.pc = .readClock ∧ s.now = t)
      refine ⟨hg, ?_⟩
      simp only [effect, Service.next, htiming, hsame]
      rfl
  | setup =>
      refine ⟨hg, ?_⟩
      simp only [effect, htiming]
  | _ => exact ⟨hg, rfl⟩

variable {name : String} {hname : name ≠ ""} {sched sched' : Schedule} {opts : List Opt}
  {now : Time} {τ : List Action} {s : State}

/-- The clock stays in its location, so that a schedule is asked there only. -/
theorem run_congr (hsame : ∀ t, t.loc = now.loc → sched t = sched' t)
    (hr : Run (at' name hname sched opts) now τ s) :
    Run (at' name hname sched' opts) now τ s ∧ s.now.loc = now.loc := by
  refine hr.invariant (fun τ s => Run (at' name hname sched' opts) now τ s ∧
    s.now.loc = now.loc) ⟨.nil, rfl⟩ ?_
  rintro τ s a - ⟨hr', hloc⟩ - hg
  have hstep := step_congr (at_timing name hname sched opts) (hsame s.now hloc) hg
  rw [← at_eq name hname sched sched' opts] at hstep
  obtain ⟨hg', heffect⟩ := hstep
  have hsnoc := hr'.snoc (a := a) trivial hg'
  have hsystem : (system (at' name hname sched' opts)).effect s a =
      (system (at' name hname sched opts)).effect s a := heffect
  rw [hsystem] at hsnoc
  refine ⟨hsnoc, ?_⟩
  rw [← hloc]
  cases hown : a.own with
  | true => exact congrArg Time.loc (now_own hown)
  | false =>
      cases a with
      | wait d | cancel e | tick t => rfl
      | _ => cases hown

/-! ## The calls of the job -/

/-- A service of `At` calls its job in the immediate run, before any other call, and in
those of its loop. -/
def CalledAt (svc : Service) (calls : Nat) : PC → Prop
  | .entry => calls = 0
  | .waitTick => False
  | .enterRun c | .jitter c _ | .timeout c | .call c _ =>
      c ≠ .tick ∧ (c = .immediate → svc.immediate = true ∧ calls = 0)
  | .job c _ | .report c _ | .handler c _ | .runEnds c _ => c ≠ .tick
  | _ => True

private theorem calledAt_step {svc : Service} (htiming : svc.timing = .at sched) {t : Time}
    {a : Action} {pc pc' : PC} (hstep : PCStep svc t a pc pc') {calls : Nat}
    (hcalled : CalledAt svc calls pc) :
    CalledAt svc (calls + [a].countP Action.callsJob) pc' := by
  cases hstep with
  | immediate himm => exact ⟨nofun, fun _ => ⟨himm, hcalled⟩⟩
  | newTicker hevery =>
      rw [htiming] at hevery
      cases hevery
  | takeTick => exact hcalled.elim
  | takeTimer => exact ⟨nofun, nofun⟩
  | takeCtx e hwaits => trivial
  | giveUp e | callJob => exact hcalled.1
  | @goesOn c =>
      cases c with
      | tick => exact hcalled rfl
      | immediate | instant b => trivial
  | begin | newTimer | takeFirst | parks | fires | untilNext | reset | stops => trivial
  | _ => exact hcalled

/-- Every call of the job is for an instant that the loop has come to, but that of the
immediate run, before which there is none. -/
private theorem calls_of_run (hreach : WithinReach sched)
    (hr : Run (at' name hname sched opts) now τ s) :
    Guarded (fun pre a => ∀ c deadline, a = .callJob c deadline →
      (∃ b ∈ served pre, c = .instant b) ∨
        c = .immediate ∧ (at' name hname sched opts).immediate = true ∧
          pre.countP Action.callsJob = 0) τ := by
  have htiming := at_timing name hname sched opts
  have hcalled : ∀ τ s, Run (at' name hname sched opts) now τ s →
      CalledAt (at' name hname sched opts) (τ.countP Action.callsJob) s.pc := by
    intro τ s hr
    refine hr.invariant (fun (τ : List Action) (s : State) =>
      CalledAt (at' name hname sched opts) (τ.countP Action.callsJob) s.pc) rfl ?_
    intro τ s a _ ih _ hg
    rw [List.countP_append]
    exact calledAt_step htiming (pcStep_of_guard hg) ih
  refine hr.guarded ?_
  rintro τ s a hr - hg c deadline rfl
  have hpc : s.pc = .call c deadline := of_decide_eq_true hg
  have hat := hcalled τ s hr
  rw [hpc] at hat
  cases c with
  | immediate => exact Or.inr ⟨rfl, hat.2 rfl⟩
  | tick => exact absurd rfl hat.1
  | instant b =>
      have hnext : (at' name hname sched opts).next = sched := by rw [Service.next, htiming]
      have hserving := (paced_of_run (hnext.symm ▸ hreach) hr).at hpc
      exact Or.inl ⟨b, List.mem_of_getLast? hserving, rfl⟩

/-- What a service does that was registered for the minutes of a text. -/
structure ServesText (svc : Service) (spec : String) (loc : Zone) (τ : List Action)
    (s : State) : Prop extends ServesInstants svc (dueInstants spec loc) τ s where
  /-- each call of the job is for a minute that the text names, but that of the immediate
  run, which comes before all others -/
  calls : Guarded (fun pre a => ∀ c deadline, a = .callJob c deadline →
    (∃ b ∈ served pre, c = .instant b ∧ b.abs ∈ dueInstants spec loc) ∨
      c = .immediate ∧ svc.immediate = true ∧ pre.countP Action.callsJob = 0) τ

/-- The service runs its job for minutes that its text names, in ascending order and with
no two runs at a time; a minute that it skips had passed when the clock was read behind
the run before. -/
theorem serves_expr_of_run {spec : String} {sets : ExprSchedule} {off : Int}
    (hexpr : expr spec = .ok sets) (hfit : EachField spec StepsFit)
    (hz : now.loc.Constant off) (hoff : off % 60 = 0)
    (hr : Run (at' name hname (exprNext sets) opts) now τ s) :
    ServesText (at' name hname (exprNext sets) opts) spec now.loc τ s := by
  have hnext (sched : Schedule) : (at' name hname sched opts).next = sched := by
    rw [Service.next, at_timing]
  have hsame : ∀ t, t.loc = now.loc → exprNext sets t = inLocation now.loc (exprNext sets) t :=
    fun t ht => (if_pos ht).symm
  have hleast : NextIsLeast (at' name hname (inLocation now.loc (exprNext sets)) opts).next
      (dueInstants spec now.loc) := by
    rw [hnext]
    exact inLocation_least hexpr hfit hz hoff
  have hreach : WithinReach (inLocation now.loc (exprNext sets)) := inLocation_reach hz hoff
  have hr' := (run_congr hsame hr).1
  have hreach' : WithinReach
      (at' name hname (inLocation now.loc (exprNext sets)) opts).next := by
    rw [hnext]
    exact hreach
  exact
    { fire := fun _ hb => fire_of_served hleast hreach' hr' hb
      increasing := served_increasing hleast hreach' hr'
      jobs_sublist := (List.sublist_append_left _ _).trans (jobs_of_run hr).1
      jobs_eq := (jobs_of_run hr).2
      no_overlap := no_overlap_of_run hr
      gaps := gaps_of_run hleast hreach' hr'
      parks := parks_of_run hr
      calls := by
        intro pre a post hτ c deadline ha
        refine (calls_of_run hreach hr' pre a post hτ c deadline ha).imp ?_ ?_
        · rintro ⟨b, hb, rfl⟩
          refine ⟨b, hb, rfl, fire_of_served hleast hreach' hr' ?_⟩
          rw [hτ, served, List.filterMap_append]
          exact List.mem_append_left _ hb
        · rintro ⟨hc, himm, hfirst⟩
          rw [at_eq name hname (exprNext sets)] at himm
          exact ⟨hc, himm, hfirst⟩ }

/-- The job is called at once, and for the first minute. -/
def firstMinuteRun : List Action :=
  [.begin, .enterRun .immediate 0, .setTimeout .immediate, .callJob .immediate none,
    .jobEnds .immediate none 0 (.returned none), .runEnds .immediate none 0,
    .setup, .takeFirst 0, .readClock Time.zero, .untilNext (atSecond 60),
    .reset (atSecond 60) minute, .wait minute, .takeTimer (atSecond 60) minute,
    .enterRun (.instant (atSecond 60)) 0, .setTimeout (.instant (atSecond 60)),
    .callJob (.instant (atSecond 60)) none]

def starService : Service :=
  at' "star" (by decide) (exprNext CronScan.everyMinute) [.runImmediately]

theorem serves_expr_firstMinuteRun :
    ServesText starService "* * * * *" Zone.utc firstMinuteRun
      ((system starService).after (.init Time.zero) firstMinuteRun) := by
  have hr : Run starService Time.zero firstMinuteRun _ := Lts.Admits.run (by decide)
  have hexpr : expr "* * * * *" = .ok CronScan.everyMinute := rfl
  exact serves_expr_of_run hexpr (stepsFit_of_plain (by decide)) Zone.utc_constant (by decide) hr

end Shost.Ports.CronService
