import Mathlib.Order.Bounds.Basic
import Shost.Ports.CronCancel

/-!
# The instants of a schedule

The loop of `At` reads the clock, asks the schedule for the next instant, and sets its
timer by `time.Until`, which reads the clock again.  Behind a run it starts anew, so the
instants that have passed by then are skipped.

## Main results

* `instants_not_served` — an instant can be served twice, when it is farther away than a
  `time.Duration` reaches, and one can be skipped that has not passed during a run.
* `servesInstants_of_run` — the instants served are firing instants in strictly ascending
  order, without overlap, and those skipped had passed when the clock was read.
-/

namespace Shost.Ports.CronService

open Shost.Verified Shost.Ports.Hosting Shost.Ports.GoTime Trace

/-! ## Schedules -/

/-- `Next` returns the least firing instant after its argument, or the zero time. -/
def NextIsLeast (next : Schedule) (fires : Set Int) : Prop :=
  ∀ t, (next t).isZero = false → IsLeast {f | f ∈ fires ∧ t.abs < f} (next t).abs

/-- The next instant is never farther away than a `time.Duration` reaches. -/
def WithinReach (next : Schedule) : Prop :=
  ∀ t, (next t).isZero = false → (next t).abs - t.abs ≤ maxDuration

/-! ## What a run serves -/

/-- The instants for which the loop has begun a run, in order. -/
def served (τ : List Action) : List Time :=
  τ.filterMap fun
    | .takeTimer next _ => some next
    | _ => none

/-- The instants for which the job has been called, in order. -/
def jobs (τ : List Action) : List Time :=
  τ.filterMap fun
    | .callJob (.instant next) _ => some next
    | _ => none

/-- The instant of a run whose job is still to be called. -/
def PC.ahead : PC → List Time
  | .enterRun (.instant next) | .jitter (.instant next) _ | .timeout (.instant next)
  | .call (.instant next) _ => [next]
  | _ => []

/-- The number of calls of the job that have ended. -/
def ended (τ : List Action) : Nat :=
  τ.countP fun
    | .jobEnds _ _ _ _ => true
    | _ => false

/-- Behind a run for an instant the clock has been read, not before another one. -/
def ReadBehind (τ : List Action) (a : Time) (f : Int) : Prop :=
  ∃ before err time after r, τ = before ++ .runEnds (.instant a) err time :: after ∧
    .readClock r ∈ after ∧ f ≤ r.abs

/-- The service serves the firing instants of its schedule.  A run calls its job unless
the context ends during its jitter delay. -/
structure ServesInstants (svc : Service) (fires : Set Int) (τ : List Action) (s : State) :
    Prop where
  fire : ∀ b ∈ served τ, b.abs ∈ fires
  increasing : (served τ).Pairwise fun a b => a.abs < b.abs
  jobs_sublist : (jobs τ).Sublist (served τ)
  jobs_eq : s.ctx = none → jobs τ ++ s.pc.ahead = served τ
  no_overlap : Guarded (fun pre a => a.callsJob = true → pre.countP Action.callsJob = ended pre) τ
  gaps : Guarded (fun pre x => ∀ b due, x = .takeTimer b due → ∀ a ∈ (served pre).getLast?,
    ∀ f ∈ fires, a.abs < f → f < b.abs → ReadBehind pre a f) τ
  parks : Guarded (fun pre a => a.callsJob = true →
    ∀ r, .readClock r ∈ pre → (svc.next r).isZero = false) τ

variable {svc : Service} {ok : State → Action → Prop} {now : Time} {τ : List Action} {s : State}

theorem served_snoc (τ : List Action) (a : Action) :
    served (τ ++ [a]) = served τ ++ served [a] := List.filterMap_append

theorem jobs_snoc (τ : List Action) (a : Action) : jobs (τ ++ [a]) = jobs τ ++ jobs [a] :=
  List.filterMap_append

/-! ## Runs and calls -/

/-- The calls of the job in progress. -/
def PC.inJob : PC → Nat
  | .job _ _ => 1
  | _ => 0

theorem calls_step {a : Action} {pc pc' : PC} (hstep : PCStep svc now a pc pc') :
    [a].countP Action.callsJob + pc.inJob = ended [a] + pc'.inJob := by
  cases hstep with
  | takeCtx e hwaits =>
      cases pc with
      | waitTimer | parked | waitTick => rfl
      | _ => cases hwaits
  | @goesOn c => cases c <;> rfl
  | _ => rfl

/-- Calls of the job and their ends alternate. -/
theorem calls_eq_ended (hr : RunIf svc ok now τ s) :
    τ.countP Action.callsJob = ended τ + s.pc.inJob := by
  refine hr.invariant (fun (τ : List Action) (s : State) =>
    τ.countP Action.callsJob = ended τ + s.pc.inJob) rfl ?_
  intro τ s a _ ih _ hg
  have hstep := calls_step (pcStep_of_guard hg)
  have hends : ended (τ ++ [a]) = ended τ + ended [a] := List.countP_append
  rw [List.countP_append, ih, hends]
  simp only [system]
  omega

/-- The place of a run in its cause. -/
theorem jobs_step {a : Action} {pc pc' : PC} (hstep : PCStep svc now a pc pc') :
    jobs [a] ++ pc'.ahead = pc.ahead ++ served [a] ∨ ∃ c due e, a = .giveUp c due e := by
  cases hstep with
  | @giveUp c due e => exact Or.inr ⟨c, due, e, rfl⟩
  | wait | cancel | tick => exact Or.inl (List.append_nil _).symm
  | takeCtx e hwaits =>
      cases pc with
      | waitTimer | parked | waitTick => exact Or.inl rfl
      | _ => cases hwaits
  | @delays c | @noDelay c | @takeDelay c | @setTimeout c | @callJob c | @goesOn c =>
      cases c <;> exact Or.inl rfl
  | _ => exact Or.inl rfl

/-- Every job called belongs to a run that the loop has begun, and without a cancellation
every run calls its job. -/
theorem jobs_of_run (hr : RunIf svc ok now τ s) :
    (jobs τ ++ s.pc.ahead).Sublist (served τ) ∧
      (s.ctx = none → jobs τ ++ s.pc.ahead = served τ) := by
  refine hr.invariant (fun (τ : List Action) (s : State) =>
    (jobs τ ++ s.pc.ahead).Sublist (served τ) ∧
      (s.ctx = none → jobs τ ++ s.pc.ahead = served τ)) ⟨.slnil, fun _ => rfl⟩ ?_
  intro τ s a _ ih _ hg
  rw [jobs_snoc, served_snoc]
  rcases jobs_step (pcStep_of_guard hg) with hstep | ⟨c, due, e, rfl⟩
  · have hstep : jobs [a] ++ ((system svc).effect s a).pc.ahead = s.pc.ahead ++ served [a] := hstep
    rw [List.append_assoc, hstep, ← List.append_assoc]
    refine ⟨ih.1.append_right _, fun hnone => ?_⟩
    have hbefore : s.ctx = none := by
      by_contra hdone
      exact ctx_step a hdone hnone
    rw [ih.2 hbefore]
  · have hpc : s.pc = .jitter c due ∧ s.ctx = some e := of_decide_eq_true hg
    refine ⟨?_, fun hnone => ?_⟩
    · show (jobs τ ++ [] ++ []).Sublist (served τ ++ [])
      rw [List.append_nil, List.append_nil, List.append_nil]
      exact (List.sublist_append_left _ _).trans ih.1
    · have hdone : s.ctx = none := hnone
      rw [hpc.2] at hdone
      cases hdone

/-! ## The loop -/

/-- The last run for an instant has ended. -/
def Completed (τ : List Action) : Prop :=
  ∀ a ∈ (served τ).getLast?, ∃ before err time after,
    τ = before ++ .runEnds (.instant a) err time :: after

/-- The instant that the loop waits for is the next one behind a reading of the clock,
which comes behind everything served so far. -/
def Chosen (svc : Service) (τ : List Action) (now : Time) (next : Time) : Prop :=
  ∃ r, .readClock r ∈ τ ∧ svc.next r = next ∧ next.isZero = false ∧ r.abs ≤ now.abs ∧
    (∀ b ∈ served τ, b.abs ≤ r.abs) ∧ ∀ a ∈ (served τ).getLast?, ReadBehind τ a r.abs

/-- The last instant served is that of the run in progress. -/
def Serving (τ : List Action) : Cause → Prop
  | .instant b => (served τ).getLast? = some b
  | _ => served τ = []

/-- What has been served when `Start` is at a place. -/
def PacedAt (svc : Service) (τ : List Action) (now : Time) : PC → Prop
  | .entry | .setup | .firstTimer _ | .waitTick => served τ = []
  | .readClock => Completed τ
  | .untilNext next => Chosen svc τ now next
  | .reset next d => Chosen svc τ now next ∧ next.abs - now.abs ≤ d
  | .waitTimer next due => Chosen svc τ now next ∧ next.abs ≤ due
  | .enterRun c | .jitter c _ | .timeout c | .call c _ | .job c _ | .report c _ | .handler c _
  | .runEnds c _ => Serving τ c
  | .parked | .returned _ => True

/-- The invariant of the loop: nothing is served before its time. -/
structure Paced (svc : Service) (τ : List Action) (s : State) : Prop where
  past : ∀ b ∈ served τ, b.abs ≤ s.now.abs
  place : PacedAt svc τ s.now s.pc

theorem ReadBehind.keep {a : Time} {f : Int} (hread : ReadBehind τ a f) (x : Action) :
    ReadBehind (τ ++ [x]) a f := by
  obtain ⟨before, err, time, after, r, rfl, hmem, hle⟩ := hread
  exact ⟨before, err, time, after ++ [x], r, by simp, List.mem_append_left _ hmem, hle⟩

section Keep

variable {a : Action} (hserved : served [a] = [])

include hserved

theorem served_keep : served (τ ++ [a]) = served τ := by
  rw [served_snoc, hserved, List.append_nil]

theorem Completed.keep (hdone : Completed τ) : Completed (τ ++ [a]) := by
  intro b hb
  rw [served_keep hserved] at hb
  obtain ⟨before, err, time, after, rfl⟩ := hdone b hb
  exact ⟨before, err, time, after ++ [a], by simp⟩

theorem Chosen.keep {t t' next : Time} (hchosen : Chosen svc τ t next) (hle : t.abs ≤ t'.abs) :
    Chosen svc (τ ++ [a]) t' next := by
  obtain ⟨r, hmem, hnext, hzero, hr, hpast, hbehind⟩ := hchosen
  refine ⟨r, List.mem_append_left _ hmem, hnext, hzero, hr.trans hle, ?_, ?_⟩
  · rw [served_keep hserved]
    exact hpast
  · rw [served_keep hserved]
    exact fun b hb => (hbehind b hb).keep a

theorem Serving.keep {c : Cause} (hserving : Serving τ c) : Serving (τ ++ [a]) c := by
  cases c <;> simpa [Serving, served_keep hserved] using hserving

end Keep

/-- The timer is not set for a time before the instant. -/
theorem le_timeUntil {next t r : Time} (hreach : next.abs - r.abs ≤ maxDuration)
    (hle : r.abs ≤ t.abs) : next.abs - t.abs ≤ timeUntil next t := by
  have hmax : next.abs - t.abs ≤ maxDuration := le_trans (by omega) hreach
  rw [timeUntil, min_eq_left hmax]
  exact le_max_right _ _

/-- Steps that leave `Start` where it is keep the invariant. -/
theorem Paced.keep {s' : State} {a : Action} (hs : Paced svc τ s) (hserved : served [a] = [])
    (hpc : s'.pc = s.pc) (hle : s.now.abs ≤ s'.now.abs) : Paced svc (τ ++ [a]) s' := by
  obtain ⟨hpast, hs⟩ := hs
  refine ⟨fun b hb => (hpast b (by rwa [served_keep hserved] at hb)).trans hle, ?_⟩
  rw [hpc]
  cases hplace : s.pc with
  | entry | setup | firstTimer due | waitTick =>
      rw [hplace] at hs
      exact (served_keep hserved).trans hs
  | readClock =>
      rw [hplace] at hs
      exact Completed.keep hserved hs
  | untilNext next =>
      rw [hplace] at hs
      exact Chosen.keep hserved hs hle
  | reset next d =>
      rw [hplace] at hs
      refine ⟨Chosen.keep hserved hs.1 hle, le_trans ?_ hs.2⟩
      omega
  | waitTimer next due =>
      rw [hplace] at hs
      exact ⟨Chosen.keep hserved hs.1 hle, hs.2⟩
  | parked | returned r => trivial
  | _ =>
      rw [hplace] at hs
      exact Serving.keep hserved hs

/-- What is known of a place. -/
theorem Paced.at {pc : PC} (hs : Paced svc τ s) (hpc : s.pc = pc) : PacedAt svc τ s.now pc :=
  hpc ▸ hs.place

/-- The reading of the clock is what the next instant is behind. -/
theorem chosen_of_completed (hpast : ∀ b ∈ served τ, b.abs ≤ s.now.abs) (hdone : Completed τ)
    (hzero : (svc.next s.now).isZero = false) :
    Chosen svc (τ ++ [.readClock s.now]) s.now (svc.next s.now) := by
  have hserved : served [.readClock s.now] = [] := rfl
  refine ⟨s.now, by simp, rfl, hzero, le_rfl, ?_, ?_⟩
  · rw [served_keep hserved]
    exact hpast
  · rw [served_keep hserved]
    intro a ha
    obtain ⟨before, err, time, after, hτ⟩ := hdone a ha
    exact ⟨before, err, time, after ++ [.readClock s.now], s.now, by rw [hτ]; simp, by simp, le_rfl⟩

/-- Nothing is served before its time: the timer is not set for a time before the
instant. -/
theorem past_step {a : Action} (hg : guard svc s a = true) (hs : Paced svc τ s) :
    ∀ b ∈ served (τ ++ [a]), b.abs ≤ (effect svc s a).now.abs := by
  intro b hb
  rw [served_snoc] at hb
  rcases List.mem_append.mp hb with hb | hb
  · exact (hs.past b hb).trans (now_le hg)
  · cases a with
    | takeTimer next due =>
        have hpc : s.pc = .waitTimer next due ∧ due ≤ s.now.abs := of_decide_eq_true hg
        obtain ⟨-, hdue⟩ : Chosen svc τ s.now next ∧ next.abs ≤ due := hs.at hpc.1
        obtain rfl : b = next := List.mem_singleton.mp hb
        exact hdue.trans hpc.2
    | _ => cases hb

/-- A step of `Start` leads to a place at which what has been served is as it should be. -/
theorem place_step (hreach : WithinReach svc.next) {a : Action} {pc pc' : PC}
    (hstep : PCStep svc s.now a pc pc') (hown : a.own = true)
    (hpast : ∀ b ∈ served τ, b.abs ≤ s.now.abs) (hplace : PacedAt svc τ s.now pc) :
    PacedAt svc (τ ++ [a]) s.now pc' := by
  cases hstep with
  | wait | cancel | tick => cases hown
  | immediate | begin | newTicker | newTimer | takeTick => exact (served_keep rfl).trans hplace
  | takeFirst =>
      have hnone : served τ = [] := hplace
      intro b hb
      rw [served_keep rfl, hnone] at hb
      cases hb
  | fires hzero => exact chosen_of_completed hpast hplace hzero
  | untilNext =>
      refine ⟨Chosen.keep rfl hplace le_rfl, ?_⟩
      obtain ⟨r, -, rfl, hzero, hr, -⟩ := hplace
      exact le_timeUntil (hreach r hzero) hr
  | @reset next d =>
      obtain ⟨hchosen, hd⟩ : Chosen svc τ s.now next ∧ next.abs - s.now.abs ≤ d := hplace
      refine ⟨Chosen.keep rfl hchosen le_rfl, ?_⟩
      omega
  | @takeTimer next due =>
      show (served (τ ++ [.takeTimer next due])).getLast? = some next
      have hserved : served (τ ++ [.takeTimer next due]) = served τ ++ [next] := served_snoc _ _
      rw [hserved, List.getLast?_append, List.getLast?_singleton, Option.some_or]
  | parks | takeCtx | stops => trivial
  | @goesOn c r =>
      cases c with
      | immediate | tick => exact (served_keep rfl).trans hplace
      | instant b =>
          have hserving : (served τ).getLast? = some b := hplace
          intro a ha
          rw [served_keep rfl, hserving] at ha
          obtain rfl : b = a := by simpa using ha
          exact ⟨τ, r, s.now.abs, [], rfl⟩
  | _ => exact Serving.keep rfl hplace

/-- The invariant of the loop is kept. -/
theorem paced_step (hreach : WithinReach svc.next) {a : Action} (hg : guard svc s a = true)
    (hs : Paced svc τ s) : Paced svc (τ ++ [a]) (effect svc s a) := by
  cases hown : a.own with
  | true =>
      refine ⟨past_step hg hs, ?_⟩
      rw [now_own hown]
      exact place_step hreach (pcStep_of_guard hg) hown hs.past hs.place
  | false =>
      cases a with
      | wait d | cancel e | tick t => exact hs.keep rfl rfl (now_le hg)
      | _ => cases hown

theorem paced_of_run (hreach : WithinReach svc.next) (hr : RunIf svc ok now τ s) :
    Paced svc τ s := by
  refine hr.invariant (fun (τ : List Action) (s : State) => Paced svc τ s) ⟨nofun, rfl⟩ ?_
  exact fun τ s a _ ih _ hg => paced_step hreach hg ih

/-! ## The instants -/

section Instants

variable {fires : Set Int} (hleast : NextIsLeast svc.next fires) (hreach : WithinReach svc.next)

include hleast hreach

/-- When the timer is taken, its instant is the least one behind a reading of the clock,
and all that has been served is not. -/
theorem least_of_taken (hr : RunIf svc ok now τ s) {b : Time} {due : Int}
    (hg : guard svc s (.takeTimer b due) = true) :
    ∃ r : Time, IsLeast {f | f ∈ fires ∧ r.abs < f} b.abs ∧ (∀ a ∈ served τ, a.abs ≤ r.abs) ∧
      ∀ a ∈ (served τ).getLast?, ReadBehind τ a r.abs := by
  have hpc : s.pc = .waitTimer b due ∧ due ≤ s.now.abs := of_decide_eq_true hg
  obtain ⟨⟨r, -, rfl, hzero, -, hpast, hbehind⟩, -⟩ := (paced_of_run hreach hr).at hpc.1
  exact ⟨r, hleast r hzero, hpast, hbehind⟩

theorem fire_of_served (hr : RunIf svc ok now τ s) {b : Time} (hb : b ∈ served τ) :
    b.abs ∈ fires := by
  obtain ⟨a, hmem, hserves⟩ := List.mem_filterMap.mp hb
  cases a with
  | takeTimer next due =>
      obtain rfl : next = b := by simpa using hserves
      obtain ⟨pre, post, s₁, rfl, hr₁, -, hg⟩ := hr.of_mem hmem
      obtain ⟨r, hmin, -, -⟩ := least_of_taken hleast hreach hr₁ hg
      exact hmin.1.1
  | _ => cases hserves

theorem served_increasing (hr : RunIf svc ok now τ s) :
    (served τ).Pairwise fun a b => a.abs < b.abs := by
  refine hr.invariant (fun (τ : List Action) _ =>
    (served τ).Pairwise fun a b => a.abs < b.abs) .nil ?_
  intro τ s a hr ih _ hg
  rw [served_snoc]
  cases a with
  | takeTimer b due =>
      obtain ⟨r, hmin, hpast, -⟩ := least_of_taken hleast hreach hr hg
      refine List.pairwise_append.mpr ⟨ih, List.pairwise_singleton _ _, ?_⟩
      intro a ha c hc
      obtain rfl : c = b := List.mem_singleton.mp hc
      exact (hpast a ha).trans_lt hmin.1.2
  | _ =>
      rw [show served [_] = [] from rfl, List.append_nil]
      exact ih

/-- An instant that is skipped had passed when the clock was read behind the run. -/
theorem gaps_of_run (hr : RunIf svc ok now τ s) :
    Guarded (fun pre x => ∀ b due, x = .takeTimer b due → ∀ a ∈ (served pre).getLast?,
      ∀ f ∈ fires, a.abs < f → f < b.abs → ReadBehind pre a f) τ := by
  refine hr.guarded ?_
  rintro τ s x hr - hg b due rfl a ha f hf - hfb
  obtain ⟨r, hmin, -, hbehind⟩ := least_of_taken hleast hreach hr hg
  have hfr : f ≤ r.abs := by
    by_contra hlt
    exact absurd (hmin.2 ⟨hf, not_le.mp hlt⟩) (not_le.mpr hfb)
  obtain ⟨before, err, time, after, r', hτ, hmem, hle⟩ := hbehind a ha
  exact ⟨before, err, time, after, r', hτ, hmem, hfr.trans hle⟩

end Instants

/-- `Start` waits for the end of its context, and nothing else, or has returned. -/
def PC.parks (pc : PC) : Prop := pc = .parked ∨ ∃ r, pc = .returned r

theorem parks_step {a : Action} {pc pc' : PC} (hstep : PCStep svc now a pc pc')
    (hpc : pc.parks) : pc'.parks := by
  cases hstep with
  | wait | cancel | tick => exact hpc
  | takeCtx e hwaits => exact Or.inr ⟨_, rfl⟩
  | _ => rcases hpc with hpc | ⟨r, hpc⟩ <;> cases hpc

/-- Behind a zero time `Start` parks. -/
theorem parks_of_zero (hr : RunIf svc ok now τ s) {r : Time} (hmem : .readClock r ∈ τ)
    (hzero : (svc.next r).isZero = true) : s.pc.parks := by
  obtain ⟨pre, post, rfl⟩ := List.append_of_mem hmem
  obtain ⟨s₁, -, -, -, hr'⟩ := hr.split
  refine hr'.invariant (fun _ (s : State) => s.pc.parks) ?_ ?_
  · exact Or.inl (by simp [system, effect, hzero])
  · exact fun τ s a _ ih _ hg => parks_step (pcStep_of_guard hg) ih

/-- A call of the job begins when all others have ended. -/
theorem no_overlap_of_run (hr : RunIf svc ok now τ s) :
    Guarded (fun pre a => a.callsJob = true → pre.countP Action.callsJob = ended pre) τ := by
  refine hr.guarded ?_
  intro τ s a hr _ hg hcall
  cases a with
  | callJob c deadline =>
      have hpc : s.pc = .call c deadline := of_decide_eq_true hg
      rw [calls_eq_ended hr, hpc]
      rfl
  | _ => cases hcall

/-- Behind a zero time no job is called. -/
theorem parks_of_run (hr : RunIf svc ok now τ s) :
    Guarded (fun pre a => a.callsJob = true →
      ∀ r, .readClock r ∈ pre → (svc.next r).isZero = false) τ := by
  refine hr.guarded ?_
  intro τ s a hr _ hg hcall r hmem
  cases a with
  | callJob c deadline =>
      have hpc : s.pc = .call c deadline := of_decide_eq_true hg
      cases hzero : (svc.next r).isZero with
      | false => rfl
      | true =>
          rcases parks_of_zero hr hmem hzero with hparked | ⟨res, hreturned⟩
          · rw [hparked] at hpc
            cases hpc
          · rw [hreturned] at hpc
            cases hpc
  | _ => cases hcall

/-- The instants for which the loop begins runs are firing instants in strictly ascending
order; no two runs overlap; an instant that is skipped had passed when the clock was read
behind the run before; and behind a zero time there is no run. -/
theorem servesInstants_of_run {fires : Set Int} (hleast : NextIsLeast svc.next fires)
    (hreach : WithinReach svc.next) (hr : Run svc now τ s) : ServesInstants svc fires τ s where
  fire := fun _ hb => fire_of_served hleast hreach hr hb
  increasing := served_increasing hleast hreach hr
  jobs_sublist := (List.sublist_append_left _ _).trans (jobs_of_run hr).1
  jobs_eq := (jobs_of_run hr).2
  no_overlap := no_overlap_of_run hr
  gaps := gaps_of_run hleast hreach hr
  parks := parks_of_run hr

/-! ### Instants served twice, and skipped -/

/-- A skipped instant had passed when the run before was completed. -/
def PassedInRun (fires : Set Int) (τ : List Action) : Prop :=
  Guarded (fun pre x => ∀ b due, x = .takeTimer b due → ∀ a ∈ (served pre).getLast?,
    ∀ f ∈ fires, a.abs < f → f < b.abs →
      ∃ before err time after, pre = before ++ .runEnds (.instant a) err time :: after ∧
        f ≤ time) τ

/-- An instant that is farther away than a `time.Duration` reaches. -/
def far : Time := ⟨2 ^ 64, Zone.utc⟩

/-- The schedule that fires then and never else. -/
def farSchedule : Schedule := fun t => if t.abs < far.abs then far else Time.zero

theorem farSchedule_least : NextIsLeast farSchedule {far.abs} := by
  intro t hzero
  unfold farSchedule at hzero ⊢
  split at hzero
  · rename_i hlt
    rw [if_pos hlt]
    exact ⟨⟨rfl, hlt⟩, fun f hf => hf.1.ge⟩
  · cases hzero

def farService : Service := at' "far" (by decide) farSchedule []

/-- The timer goes off early, and again. -/
def farRun : List Action :=
  [.begin, .setup, .takeFirst 0, .readClock Time.zero, .untilNext far, .reset far maxDuration,
    .wait maxDuration, .takeTimer far maxDuration, .enterRun (.instant far) 0,
    .setTimeout (.instant far), .callJob (.instant far) none,
    .jobEnds (.instant far) none maxDuration (.returned none),
    .runEnds (.instant far) none maxDuration, .readClock ⟨maxDuration, Zone.utc⟩, .untilNext far,
    .reset far maxDuration, .wait maxDuration, .takeTimer far (2 * maxDuration),
    .enterRun (.instant far) 0, .setTimeout (.instant far), .callJob (.instant far) none]

/-- The schedule that fires every minute. -/
def everyMinute : Schedule := fun t => (t.truncate minute).add minute

theorem everyMinute_least : NextIsLeast everyMinute {f | f % minute = 0} := by
  intro t _
  simp only [everyMinute, Time.truncate, Time.add, minute, second]
  refine ⟨⟨?_, by omega⟩, fun f hf => ?_⟩
  · show (t.abs - t.abs % (60 * 1000000000) + 60 * 1000000000) % (60 * 1000000000) = 0
    omega
  · have hmultiple : f % (60 * 1000000000) = 0 := hf.1
    have hlater : t.abs < f := hf.2
    omega

theorem everyMinute_reach : WithinReach everyMinute := by
  intro t _
  simp only [everyMinute, Time.truncate, Time.add, minute, second, maxDuration]
  omega

def minuteService : Service := at' "minute" (by decide) everyMinute []

/-- The moment after a number of seconds. -/
def atSecond (n : Int) : Time := ⟨n * second, Zone.utc⟩

/-- The run for the first minute ends in its last second; two seconds later the clock is
read. -/
def minuteRun : List Action :=
  [.begin, .setup, .takeFirst 0, .readClock Time.zero, .untilNext (atSecond 60),
    .reset (atSecond 60) minute, .wait minute, .takeTimer (atSecond 60) minute,
    .enterRun (.instant (atSecond 60)) 0, .setTimeout (.instant (atSecond 60)),
    .callJob (.instant (atSecond 60)) none, .wait (59 * second),
    .jobEnds (.instant (atSecond 60)) none (119 * second) (.returned none),
    .runEnds (.instant (atSecond 60)) none (119 * second), .wait (2 * second),
    .readClock (atSecond 121), .untilNext (atSecond 180), .reset (atSecond 180) (59 * second),
    .wait (59 * second), .takeTimer (atSecond 180) (180 * second)]

/-- An instant can be served twice, and one can be skipped that has passed neither before
nor during a run. -/
theorem instants_not_served :
    (¬ ∀ (svc : Service) (fires : Set Int) (now : Time) (τ : List Action) (s : State),
      NextIsLeast svc.next fires → Run svc now τ s →
        (jobs τ).Pairwise fun a b => a.abs < b.abs) ∧
    ¬ ∀ (svc : Service) (fires : Set Int) (now : Time) (τ : List Action) (s : State),
      NextIsLeast svc.next fires → Run svc now τ s → PassedInRun fires τ := by
  constructor
  · intro hall
    have hr : Run farService Time.zero farRun _ := Lts.Admits.run (by decide)
    have hjobs := hall farService {far.abs} Time.zero farRun _ farSchedule_least hr
    exact absurd hjobs (by decide)
  · intro hall
    have hr : Run minuteService Time.zero minuteRun _ := Lts.Admits.run (by decide)
    obtain ⟨before, err, time, after, hpre, hle⟩ := hall minuteService {f | f % minute = 0}
      Time.zero minuteRun _ everyMinute_least hr (minuteRun.take 19)
      (.takeTimer (atSecond 180) (180 * second)) [] rfl _ _ rfl (atSecond 60) (by decide)
      (120 * second) (by decide) (by decide) (by decide)
    have hmem : .runEnds (.instant (atSecond 60)) err time ∈ minuteRun.take 19 := by
      rw [hpre]
      simp
    obtain ⟨-, rfl⟩ : err = none ∧ time = 119 * second := by
      simpa [minuteRun] using hmem
    exact absurd hle (by decide)

theorem servesInstants_minuteRun :
    ServesInstants minuteService {f | f % minute = 0} minuteRun
      ((system minuteService).after (.init Time.zero) minuteRun) := by
  have hr : Run minuteService Time.zero minuteRun _ := Lts.Admits.run (by decide)
  exact servesInstants_of_run everyMinute_least everyMinute_reach hr

end Shost.Ports.CronService
