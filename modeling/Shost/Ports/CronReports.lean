import Shost.Ports.CronCancel

/-!
# Failed runs of a cron service

A run is documented to have failed when the job returns an error, panics, or exceeds the
timeout of the run.  The deferred function of `run` looks at the error of the job and at
nothing else, so a job that returns nil behind its deadline passes for a success.

## Main results

* `overrun_not_reported` — a run in which the handler never hears of an overrun.
* `failuresReported_iff` — every failed run is reported once, in order, and ends the
  service with `StopOnError` and goes back to the loop without, exactly when no job
  returns nil behind its deadline.
-/

namespace Shost.Ports.CronService

open Shost.Verified Shost.Ports.Hosting Shost.Ports.GoTime Trace

/-! ## Failed runs -/

/-- The end of a call of the job: the deadline of its context, the time, and how it
ends. -/
structure JobEnd where
  deadline : Option Int
  time : Int
  outcome : Outcome

/-- The deadline has passed. -/
def JobEnd.overran (e : JobEnd) : Bool := e.deadline.any fun d => decide (d ≤ e.time)

/-- The run counts as failed. -/
def JobEnd.failed (e : JobEnd) : Bool := decide (e.outcome ≠ .returned none) || e.overran

/-- The error that a failed run is to be reported with: its own, or one that is
`context.DeadlineExceeded`. -/
def Service.Reports (svc : Service) (e : JobEnd) (err : Error) : Prop :=
  match e.outcome with
  | .returned none => err.deadlineExceeded = true
  | o => svc.jobError o = some err

/-- The calls of the job that have ended, in order. -/
def jobEnds (τ : List Action) : List JobEnd :=
  τ.filterMap fun
    | .jobEnds _ deadline time o => some ⟨deadline, time, o⟩
    | _ => none

/-- The errors that the handler has been called with, in order. -/
def handled (τ : List Action) : List Error :=
  τ.filterMap fun
    | .callHandler _ err => some err
    | _ => none

/-- The error that the handler is about to be called with. -/
def PC.toReport : PC → List Error
  | .report _ err => [err]
  | _ => []

/-- `Start` is on the way to return an error, or has returned it. -/
def PC.endsWith (err : Error) : PC → Bool
  | .report _ e | .handler _ e => decide (e = err)
  | .runEnds _ r | .returned r => decide (r = some err)
  | _ => false

/-- A run that has failed is on the way back to its caller. -/
def PC.goesBack (c : Cause) (err : Error) : PC → Bool
  | .report c' e | .handler c' e => decide (c' = c ∧ e = err)
  | .runEnds c' r => decide (c' = c ∧ r = some err)
  | _ => false

/-- Behind the end of a job `run` returns its error after at most two more steps, which
are always possible, and the caller is where it goes on. -/
def GoesOn (svc : Service) (c : Cause) (err : Error) (post : List Action) (s : State) : Prop :=
  (s.pc.goesBack c err = true ∧ ownSteps post ≤ 2 ∧ ∃ a, a.own = true ∧ guard svc s a = true) ∨
    ∃ mid time rest s₁, post = mid ++ .runEnds c (some err) time :: rest ∧ ownSteps mid ≤ 2 ∧
      s₁.pc = c.goesOn ∧ (system svc).Runs s₁ rest s

/-- Failed runs are reported once each and in order; without `StopOnError` the loop goes on
behind a failed run, and only the end of the context ends `Start`; with it nothing runs
behind a failed run, and `Start` returns its error after at most three more steps. -/
structure FailuresReported (svc : Service) (τ : List Action) (s : State) : Prop where
  reported : List.Forall₂ svc.Reports ((jobEnds τ).filter JobEnd.failed)
    (handled τ ++ s.pc.toReport)
  continues : svc.stopOnError = false → ∀ pre c deadline time o post,
    τ = pre ++ .jobEnds c deadline time o :: post → JobEnd.failed ⟨deadline, time, o⟩ = true →
      ∃ err, svc.Reports ⟨deadline, time, o⟩ err ∧ GoesOn svc c err post s
  canceled : svc.stopOnError = false → ∀ r, s.pc = .returned r →
    ∃ e, .cancel e ∈ τ ∧ r = some e.error
  stops : svc.stopOnError = true → ∀ pre c deadline time o post,
    τ = pre ++ .jobEnds c deadline time o :: post → JobEnd.failed ⟨deadline, time, o⟩ = true →
      (∀ a ∈ post, a.callsJob = false) ∧ ∃ err, svc.Reports ⟨deadline, time, o⟩ err ∧
        s.pc.endsWith err = true ∧ ownSteps post ≤ 3 ∧
          (s.pc = .returned (some err) ∨ ∃ a, a.own = true ∧ guard svc s a = true)

variable {svc : Service} {ok : State → Action → Prop} {now : Time} {τ : List Action} {s : State}

theorem jobEnds_snoc (τ : List Action) (a : Action) :
    jobEnds (τ ++ [a]) = jobEnds τ ++ jobEnds [a] := List.filterMap_append

theorem handled_snoc (τ : List Action) (a : Action) :
    handled (τ ++ [a]) = handled τ ++ handled [a] := List.filterMap_append

/-! ## What the handler is called with -/

/-- The steps by which a report comes about and is made. -/
def Action.reports : Action → Bool
  | .jobEnds _ _ _ _ | .callHandler _ _ => true
  | _ => false

/-- Other steps have nothing to do with reports. -/
theorem toReport_other {a : Action} {pc pc' : PC} (hstep : PCStep svc now a pc pc')
    (hother : a.reports = false) :
    pc'.toReport = pc.toReport ∧ jobEnds [a] = [] ∧ handled [a] = [] := by
  cases hstep with
  | succeeds | reports | fails | callHandler => cases hother
  | takeCtx e hwaits =>
      cases pc with
      | waitTimer | parked | waitTick => exact ⟨rfl, rfl, rfl⟩
      | _ => cases hwaits
  | @goesOn c => cases c <;> exact ⟨rfl, rfl, rfl⟩
  | _ => exact ⟨rfl, rfl, rfl⟩

/-- With a handler, the errors of the jobs are what it is called with. -/
theorem handled_of_run (hon : svc.onError = true) (hr : RunIf svc ok now τ s) :
    (jobEnds τ).filterMap (fun e => svc.jobError e.outcome) = handled τ ++ s.pc.toReport := by
  refine hr.invariant (fun (τ : List Action) (s : State) =>
    (jobEnds τ).filterMap (fun e => svc.jobError e.outcome) = handled τ ++ s.pc.toReport) rfl ?_
  intro τ s a _ ih _ hg
  rw [jobEnds_snoc, handled_snoc, List.filterMap_append, ih]
  cases hreports : a.reports with
  | false =>
      obtain ⟨hsame, hends, hcalls⟩ := toReport_other (pcStep_of_guard hg) hreports
      rw [hends, hcalls]
      simp [system, hsame]
  | true =>
      cases a with
      | jobEnds c deadline time o =>
          have hpc : s.pc = .job c deadline ∧ s.now.abs = time := of_decide_eq_true hg
          cases herr : svc.jobError o <;>
            simp [system, effect, jobEnds, handled, herr, Service.afterJob, hon, hpc.1, PC.toReport]
      | callHandler c err =>
          have hpc : s.pc = .report c err := of_decide_eq_true hg
          simp [system, effect, jobEnds, handled, hpc, PC.toReport]
      | _ => cases hreports

/-- `Start` returns by the end of the context or by an error that stops it. -/
theorem returned_step {a : Action} {pc pc' : PC} (hstep : PCStep svc now a pc pc') {r : Result}
    (hpc : pc' = .returned r) :
    pc = .returned r ∨ (∃ e, a = .takeCtx e ∧ r = some e.error) ∨ svc.stopOnError = true := by
  cases hstep with
  | wait | cancel | tick => exact Or.inl hpc
  | takeCtx e hwaits =>
      obtain rfl : some e.error = r := PC.returned.inj hpc
      exact Or.inr (Or.inl ⟨e, rfl, rfl⟩)
  | stops hstop => exact Or.inr (Or.inr hstop)
  | @goesOn c => cases c <;> cases hpc
  | _ => cases hpc

/-- `Start` returns by the end of the context when no error stops it. -/
theorem canceled_of_returned (hgo : svc.stopOnError = false) (hr : RunIf svc ok now τ s)
    {r : Result} (hpc : s.pc = .returned r) : ∃ e, .cancel e ∈ τ ∧ r = some e.error := by
  refine hr.invariant (fun (τ : List Action) (s : State) => ∀ r, s.pc = .returned r →
    ∃ e, .cancel e ∈ τ ∧ r = some e.error) ?_ ?_ r hpc
  · intro r hpc
    cases hpc
  · intro τ s a hr ih _ hg r hpc
    rcases returned_step (pcStep_of_guard hg) hpc with hbefore | ⟨e, rfl, rfl⟩ | hstop
    · obtain ⟨e, hmem, heq⟩ := ih r hbefore
      exact ⟨e, List.mem_append_left _ hmem, heq⟩
    · have hctx : s.pc.awaitsCtx = true ∧ s.ctx = some e := of_decide_eq_true hg
      exact ⟨e, List.mem_append_left _ ((ctx_eq_some_iff hr e).mp hctx.2), rfl⟩
    · rw [hgo] at hstop
      cases hstop

/-! ## The end behind an error -/

/-- What is left of the way to the return of an error. -/
def PC.toReturn : PC → Nat
  | .report _ _ => 3
  | .handler _ _ => 2
  | .runEnds _ _ => 1
  | _ => 0

/-- With `StopOnError` there is no way but to the return, and no job on it. -/
theorem endsWith_step (hstop : svc.stopOnError = true) {err : Error} {a : Action} {pc pc' : PC}
    (hstep : PCStep svc now a pc pc') (hends : pc.endsWith err = true) :
    pc'.endsWith err = true ∧ a.callsJob = false ∧
      pc'.toReturn + [a].countP Action.own ≤ pc.toReturn := by
  cases hstep with
  | wait | cancel | tick => exact ⟨hends, rfl, le_rfl⟩
  | callHandler => exact ⟨hends, rfl, le_rfl⟩
  | @handlerReturns c e =>
      obtain rfl : e = err := of_decide_eq_true hends
      exact ⟨decide_eq_true rfl, rfl, le_rfl⟩
  | @stops c e =>
      obtain rfl : e = err := Option.some.inj (of_decide_eq_true hends)
      exact ⟨decide_eq_true rfl, rfl, le_rfl⟩
  | @goesOn c r hgo =>
      obtain rfl : r = some err := of_decide_eq_true hends
      rcases hgo with hnone | hgo
      · cases hnone
      · rw [hstop] at hgo
        cases hgo
  | takeCtx e hwaits =>
      cases pc with
      | waitTimer | parked | waitTick => cases hends
      | _ => cases hwaits
  | _ => cases hends

theorem endsWith_of_run (hstop : svc.stopOnError = true) {err : Error} {s₀ : State}
    (hends : s₀.pc.endsWith err = true) (hr : (system svc).Run ok s₀ τ s) :
    s.pc.endsWith err = true ∧ (∀ a ∈ τ, a.callsJob = false) ∧
      s.pc.toReturn + ownSteps τ ≤ s₀.pc.toReturn := by
  refine hr.invariant (fun (τ : List Action) (s : State) => s.pc.endsWith err = true ∧
    (∀ a ∈ τ, a.callsJob = false) ∧ s.pc.toReturn + ownSteps τ ≤ s₀.pc.toReturn)
    ⟨hends, fun _ ha => absurd ha List.not_mem_nil, by simp [ownSteps]⟩ ?_
  intro τ s a _ ih _ hg
  obtain ⟨hends', hcalls, hless⟩ := endsWith_step hstop (pcStep_of_guard hg) ih.1
  refine ⟨hends', fun b hb => ?_, ?_⟩
  · rcases List.mem_append.mp hb with hb | hb
    · exact ih.2.1 b hb
    · rw [List.mem_singleton.mp hb]
      exact hcalls
  · have hsum := ih.2.2
    rw [ownSteps, List.countP_append, ← ownSteps]
    simp only [system]
    omega

/-- On the way to the return a step is always possible. -/
theorem can_return {err : Error} (hends : s.pc.endsWith err = true) :
    s.pc = .returned (some err) ∨ ∃ a, a.own = true ∧ guard svc s a = true := by
  cases hpc : s.pc with
  | report c e => exact Or.inr ⟨.callHandler c e, rfl, by simp [guard, hpc]⟩
  | handler c e => exact Or.inr ⟨.handlerReturns c e, rfl, by simp [guard, hpc]⟩
  | runEnds c r => exact Or.inr ⟨.runEnds c r s.now.abs, rfl, by simp [guard, hpc]⟩
  | returned r =>
      rw [hpc] at hends
      obtain rfl : r = some err := of_decide_eq_true hends
      exact Or.inl rfl
  | _ =>
      rw [hpc] at hends
      cases hends

/-- With `StopOnError` an error of the job ends the service. -/
theorem stops_of_run (hon : svc.onError = true) (hstop : svc.stopOnError = true) {c : Cause}
    {deadline : Option Int} {time : Int} {o : Outcome} {pre post : List Action} {err : Error}
    (herr : svc.jobError o = some err)
    (hr : RunIf svc ok now (pre ++ .jobEnds c deadline time o :: post) s) :
    (∀ a ∈ post, a.callsJob = false) ∧ s.pc.endsWith err = true ∧ ownSteps post ≤ 3 := by
  obtain ⟨s₁, -, -, -, hr'⟩ := hr.split
  have hpc : (effect svc s₁ (.jobEnds c deadline time o)).pc = .report c err := by
    simp [effect, herr, Service.afterJob, hon]
  have hends : (effect svc s₁ (.jobEnds c deadline time o)).pc.endsWith err = true := by
    rw [hpc]
    exact decide_eq_true rfl
  obtain ⟨hends', hcalls, hless⟩ := endsWith_of_run hstop hends hr'
  have hfrom : (effect svc s₁ (.jobEnds c deadline time o)).pc.toReturn = 3 := by
    rw [hpc]
    rfl
  exact ⟨hcalls, hends', by omega⟩

/-! ## The way back to the loop -/

/-- A run that has failed does its next step, or ends. -/
theorem goesBack_step (hgo : svc.stopOnError = false) {c : Cause} {err : Error} {a : Action}
    {pc pc' : PC} (hstep : PCStep svc now a pc pc') (hback : pc.goesBack c err = true) :
    (pc'.goesBack c err = true ∧ pc'.toReturn + [a].countP Action.own ≤ pc.toReturn) ∨
      (∃ time, a = .runEnds c (some err) time) ∧ pc' = c.goesOn := by
  cases hstep with
  | wait | cancel | tick => exact Or.inl ⟨hback, le_rfl⟩
  | @callHandler c' e =>
      obtain ⟨rfl, rfl⟩ : c' = c ∧ e = err := of_decide_eq_true hback
      exact Or.inl ⟨decide_eq_true ⟨rfl, rfl⟩, le_rfl⟩
  | @handlerReturns c' e =>
      obtain ⟨rfl, rfl⟩ : c' = c ∧ e = err := of_decide_eq_true hback
      exact Or.inl ⟨decide_eq_true ⟨rfl, rfl⟩, le_rfl⟩
  | stops hstop =>
      rw [hgo] at hstop
      cases hstop
  | @goesOn c' r =>
      obtain ⟨rfl, rfl⟩ : c' = c ∧ r = some err := of_decide_eq_true hback
      exact Or.inr ⟨⟨_, rfl⟩, rfl⟩
  | takeCtx e hwaits =>
      cases pc with
      | waitTimer | parked | waitTick => cases hback
      | _ => cases hwaits
  | _ => cases hback

/-- On the way back a step is always possible. -/
theorem can_goBack (svc : Service) {c : Cause} {err : Error}
    (hback : s.pc.goesBack c err = true) :
    0 < s.pc.toReturn ∧ ∃ a, a.own = true ∧ guard svc s a = true := by
  cases hpc : s.pc with
  | report c' e => exact ⟨Nat.zero_lt_succ _, .callHandler c' e, rfl, by simp [guard, hpc]⟩
  | handler c' e => exact ⟨Nat.zero_lt_succ _, .handlerReturns c' e, rfl, by simp [guard, hpc]⟩
  | runEnds c' r => exact ⟨Nat.zero_lt_succ _, .runEnds c' r s.now.abs, rfl, by simp [guard, hpc]⟩
  | _ =>
      rw [hpc] at hback
      cases hback

/-- Without `StopOnError` an error of the job leads back to the loop. -/
theorem goesOn_of_run (hon : svc.onError = true) (hgo : svc.stopOnError = false) {c : Cause}
    {deadline : Option Int} {time : Int} {o : Outcome} {pre post : List Action} {err : Error}
    (herr : svc.jobError o = some err)
    (hr : Run svc now (pre ++ .jobEnds c deadline time o :: post) s) : GoesOn svc c err post s := by
  obtain ⟨s₁, -, -, -, hr'⟩ := hr.split
  have hpc : (effect svc s₁ (.jobEnds c deadline time o)).pc = .report c err := by
    simp [effect, herr, Service.afterJob, hon]
  have hinv : (s.pc.goesBack c err = true ∧ s.pc.toReturn + ownSteps post ≤ 3) ∨
      ∃ mid time rest s₁, post = mid ++ .runEnds c (some err) time :: rest ∧ ownSteps mid ≤ 2 ∧
        s₁.pc = c.goesOn ∧ (system svc).Runs s₁ rest s := by
    refine hr'.invariant (fun (post : List Action) (s : State) =>
      (s.pc.goesBack c err = true ∧ s.pc.toReturn + ownSteps post ≤ 3) ∨
        ∃ mid time rest s₁, post = mid ++ .runEnds c (some err) time :: rest ∧
          ownSteps mid ≤ 2 ∧ s₁.pc = c.goesOn ∧ (system svc).Runs s₁ rest s) (Or.inl ?_) ?_
    · simp only [system, hpc]
      exact ⟨decide_eq_true ⟨rfl, rfl⟩, le_rfl⟩
    · intro post s a _ ih _ hg
      rcases ih with ⟨hback, hless⟩ | ⟨mid, time, rest, s₁, rfl, hmid, hs₁, hr₁⟩
      · rcases goesBack_step hgo (pcStep_of_guard hg) hback with
          ⟨hback', hless'⟩ | ⟨⟨time, rfl⟩, hloop⟩
        · refine Or.inl ⟨hback', ?_⟩
          rw [ownSteps, List.countP_append, ← ownSteps]
          simp only [system]
          omega
        · have hleft := (can_goBack svc hback).1
          exact Or.inr ⟨post, time, [], _, rfl, by omega, hloop, .nil⟩
      · exact Or.inr ⟨mid, time, rest ++ [a], s₁, by simp, hmid, hs₁, hr₁.snoc trivial hg⟩
  rcases hinv with ⟨hback, hless⟩ | hloop
  · obtain ⟨hleft, hcan⟩ := can_goBack svc hback
    exact Or.inl ⟨hback, by omega, hcan⟩
  · exact Or.inr hloop

/-! ## Failures and errors -/

/-- An error of the job makes the run a failed one. -/
theorem failed_of_jobError (e : JobEnd) (herr : (svc.jobError e.outcome).isSome = true) :
    e.failed = true := by
  obtain ⟨deadline, time, o⟩ := e
  cases o with
  | panicked value stack => rfl
  | returned r =>
      cases r with
      | none => cases herr
      | some err => rfl

theorem reports_of_jobError {e : JobEnd} {err : Error} (herr : svc.jobError e.outcome = some err) :
    svc.Reports e err := by
  obtain ⟨deadline, time, o⟩ := e
  cases o with
  | panicked value stack => exact herr
  | returned r =>
      cases r with
      | none => cases herr
      | some err' => exact herr

/-- A failed run has an error unless the job returned nil behind its deadline. -/
theorem isSome_jobError_iff (e : JobEnd) (hfailed : e.failed = true) :
    (svc.jobError e.outcome).isSome = true ↔ (e.outcome = .returned none → e.overran = false) := by
  obtain ⟨deadline, time, o⟩ := e
  cases o with
  | panicked value stack => simp [Service.jobError, recovered]
  | returned r =>
      cases r with
      | some err => simp [Service.jobError, recovered]
      | none =>
          have hover : JobEnd.overran ⟨deadline, time, .returned none⟩ = true := by
            simpa [JobEnd.failed] using hfailed
          simp [Service.jobError, recovered, hover]

/-- Every failed run is reported once, in order, and ends the service with `StopOnError`
and goes back to the loop without, if and only if no job returns nil behind its deadline. -/
theorem failuresReported_iff (hon : svc.onError = true) (hr : Run svc now τ s) :
    FailuresReported svc τ s ↔
      ∀ e ∈ jobEnds τ, e.outcome = .returned none → e.overran = false := by
  have hhandled := handled_of_run hon hr
  constructor
  · intro hreported e he hnil
    cases hover : e.overran with
    | false => rfl
    | true =>
        have hfailed : e.failed = true := by simp [JobEnd.failed, hover]
        have hlength := hreported.reported.length_eq
        rw [← hhandled] at hlength
        have hsome := isSome_of_length_eq _ (fun e _ => failed_of_jobError e) hlength e he hfailed
        rw [← hover]
        exact (isSome_jobError_iff e hfailed).mp hsome hnil
  · intro hnone
    have hagree : ∀ e ∈ jobEnds τ, e.failed = (svc.jobError e.outcome).isSome := by
      intro e he
      cases hfailed : e.failed with
      | true => exact ((isSome_jobError_iff e hfailed).mpr (hnone e he)).symm
      | false =>
          cases hsome : (svc.jobError e.outcome).isSome with
          | false => rfl
          | true =>
              rw [failed_of_jobError e hsome] at hfailed
              cases hfailed
    have herror : ∀ pre c deadline time o post, τ = pre ++ .jobEnds c deadline time o :: post →
        JobEnd.failed ⟨deadline, time, o⟩ = true → ∃ err, svc.jobError o = some err := by
      intro pre c deadline time o post hτ hfailed
      have hmem : (⟨deadline, time, o⟩ : JobEnd) ∈ jobEnds τ := by
        rw [hτ]
        simp [jobEnds]
      exact Option.isSome_iff_exists.mp ((hagree _ hmem).symm.trans hfailed)
    refine ⟨?_, ?_, fun hgo r hpc => canceled_of_returned hgo hr hpc, ?_⟩
    · rw [← hhandled]
      exact forall₂_filter _ hagree fun e _ err herr => reports_of_jobError herr
    · intro hgo pre c deadline time o post hτ hfailed
      obtain ⟨err, herr⟩ := herror pre c deadline time o post hτ hfailed
      rw [hτ] at hr
      exact ⟨err, reports_of_jobError herr, goesOn_of_run hon hgo herr hr⟩
    · intro hstop pre c deadline time o post hτ hfailed
      obtain ⟨err, herr⟩ := herror pre c deadline time o post hτ hfailed
      rw [hτ] at hr
      obtain ⟨hcalls, hends, hless⟩ := stops_of_run hon hstop herr hr
      exact ⟨hcalls, err, reports_of_jobError herr, hends, hless, can_return hends⟩

/-- A service that runs its job at once and then every hour, for twenty milliseconds at
most, and has an error handler. -/
def timedService : Service :=
  every "slow" (by decide) GoTime.hour (by decide)
    [.runImmediately, .withRunTimeout 20000000 (by decide), .withErrorHandler true]

/-- The job takes thirty milliseconds and returns nil. -/
def overrun : List Action :=
  [.begin, .enterRun .immediate 0, .setTimeout .immediate, .callJob .immediate (some 20000000),
    .wait 30000000, .jobEnds .immediate (some 20000000) 30000000 (.returned none)]

/-- A run that exceeds its timeout can pass unreported. -/
theorem overrun_not_reported : ¬ ∀ (svc : Service) (now : Time) (τ : List Action) (s : State),
    svc.onError = true → Run svc now τ s → FailuresReported svc τ s := by
  intro hall
  have hr : Run timedService Time.zero overrun _ := Lts.Admits.run (by decide)
  have hreported := (hall timedService Time.zero overrun _ rfl hr).reported.length_eq
  exact absurd hreported (by decide)

/-- The job takes thirty milliseconds and returns the error of its context. -/
def honestOverrun : List Action :=
  [.begin, .enterRun .immediate 0, .setTimeout .immediate, .callJob .immediate (some 20000000),
    .wait 30000000,
    .jobEnds .immediate (some 20000000) 30000000 (.returned (some CtxErr.deadlineExceeded.error)),
    .callHandler .immediate CtxErr.deadlineExceeded.error,
    .handlerReturns .immediate CtxErr.deadlineExceeded.error]

theorem failuresReported_honestOverrun :
    FailuresReported timedService honestOverrun
      ((system timedService).after (.init Time.zero) honestOverrun) := by
  have hr : Run timedService Time.zero honestOverrun _ := Lts.Admits.run (by decide)
  refine (failuresReported_iff rfl hr).mpr ?_
  intro e he hnil
  obtain rfl : e = ⟨some 20000000, 30000000, .returned (some CtxErr.deadlineExceeded.error)⟩ := by
    simpa [jobEnds, honestOverrun] using he
  cases hnil

end Shost.Ports.CronService
