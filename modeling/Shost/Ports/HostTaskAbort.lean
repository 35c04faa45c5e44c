import Shost.Ports.HostErrors

/-!
# Shutdown during the startup tasks

A shutdown trigger during the startup tasks is to be a clean abort: no later task
and no service is started, and `RunContext` returns nil.  The loop of
`runStartupTasks` looks at `taskCtx` only before a task, not after the last one;
`Shutdown` reaches `taskCtx` by way of a goroutine; and of the two errors a task
may report for its context, only `context.Canceled` counts as an abort.

## Main results

* `services_after_shutdown` — a run that launches a service although `Shutdown`
  was called during the only task.
* `clean_abort` — the abort is clean in every run in which the loop head misses
  no trigger and no task reports an exceeded deadline: nothing is started, the host
  goroutine returns after at most nine more steps and is stuck at none of them, and
  what it returns is nil.
-/

namespace Shost.Ports.Hosting

open Shost.Verified

variable {h : Host} {ok : State h → Action → Prop} {τ : List Action} {s : State h}

/-- The context is done, or `Shutdown` is called. -/
def Action.shutsDown : Action → Bool
  | .env (.cancelCtx _) | .env .shutdown => true
  | _ => false

/-- A task is called, a service is launched, or its `Start` is called. -/
def Action.startsWork : Action → Bool
  | .host (.task (.call _)) | .host (.run (.launch _)) | .sup _ .start => true
  | _ => false

/-- How a task has ended, when the action is the end of a task. -/
def Action.taskOutcome : Action → Option Outcome
  | .host (.task (.result _ o _)) => some o
  | _ => none

def Action.ofHost : Action → Bool
  | .host _ => true
  | _ => false

/-- The task phase is not over. -/
def HostPC.beforeServices : HostPC → Bool
  | .entry | .taskHead _ | .inTask _ => true
  | _ => false

/-- A step of the host goroutine, of a call it makes, or of the goroutine that
cancels `taskCtx`. -/
def Action.advances : Action → Bool
  | .host _ | .call .host _ | .watch _ => true
  | _ => false

/-- The host comes to its end and starts nothing on the way; `post` is what has
happened since the trigger. -/
structure Ending (h : Host) (post : List Action) (s : State h) : Prop where
  nothing_started : ∀ a ∈ post, a.startsWork = false
  /-- the host goroutine has few steps to make -/
  few_steps : (hostActs post).length ≤ 9
  /-- as long as `RunContext` has not returned it can go on, also without a start -/
  not_stuck : s.pc ≠ .returned →
    ∃ a, a.advances = true ∧ a.startsWork = false ∧ (system h).guard s a = true
  returns_nil : s.pc = .returned → ∀ showDuration,
    joinErrors (s.errs.map (HostError.toError h showDuration)) = none

/-- After a trigger in the task phase no later task and no service is started, and
`RunContext` comes to return nil. -/
def CleanAbort (h : Host) (τ : List Action) (s : State h) : Prop :=
  ∀ pre trig post, τ = pre ++ trig :: post → trig.shutsDown = true → h.tasks ≠ [] →
    ((system h).after (State.init h) pre).pc.beforeServices = true → Ending h post s

/-- A task that returns when a trigger has occurred returns nil or the error of
the context it was given. -/
def Reacts (s : State h) (a : Action) : Prop :=
  ∀ o ∈ a.taskOutcome, s.triggered = true →
    o = .returned none ∨ o = .returned (s.taskCtx.map CtxErr.error)

instance (s : State h) (a : Action) : Decidable (Reacts s a) :=
  inferInstanceAs (Decidable (∀ o ∈ a.taskOutcome, _ → _))

/-- The loop head misses no trigger: when one has occurred and a task is left,
`taskCtx` is done already; when no task is left, there are no services. -/
def State.headSees (s : State h) : Bool :=
  match s.pc with
  | .taskHead k =>
      !s.triggered || bif decide (k < h.tasks.length) then s.taskCtx.isSome
        else h.services.isEmpty
  | _ => true

/-- The loop head misses no trigger, and no task that returns after a trigger
reports an exceeded deadline. -/
def Prompt (s : State h) (a : Action) : Prop :=
  (a.ofHost = true → s.headSees = true) ∧
    ∀ o ∈ a.taskOutcome, s.triggered = true →
      o ≠ .returned (some CtxErr.deadlineExceeded.error)

instance (s : State h) (a : Action) : Decidable (Prompt s a) :=
  inferInstanceAs (Decidable ((_ → _) ∧ ∀ o ∈ a.taskOutcome, _ → _))

/-! ## The state after a trigger -/

theorem triggered_step (s : State h) (a : Action)
    (htrig : s.triggered = true ∨ a.shutsDown = true) :
    ((system h).effect s a).triggered = true := by
  cases a with
  | env a => cases a <;> simp_all [system, envEffect, State.triggered, Action.shutsDown]
  | watch e => simpa [system, State.triggered, Action.shutsDown] using htrig
  | call who a =>
      cases who <;> cases a <;>
        simpa [system, callEffect, State.setCaller, State.triggered, Action.shutsDown] using htrig
  | host a =>
      have hsame := surroundings_hostEffect s a
      simpa [system, State.triggered, hsame, Action.shutsDown] using htrig
  | sup i a =>
      cases a <;> simpa [system, supEffect, State.triggered, Action.shutsDown] using htrig
  | stopper i a =>
      cases a <;> simpa [system, stopperEffect, State.triggered, Action.shutsDown] using htrig

/-- No error is reported before the task phase is over. -/
theorem errs_beforeServices (hr : RunIf h ok τ s) (hpc : s.pc.beforeServices = true) :
    s.errs = [] := by
  refine placed_invariant (fun _ v => v.pc.beforeServices = true → v.errs = []) ?_ ?_ hr hpc
  · exact fun _ => rfl
  · intro η v v' a hp ih hstep hpc
    cases hstep with
    | task hstep =>
        cases hstep with
        | call v | done v => exact ih rfl
        | _ => cases hpc
    | run hstep =>
        cases hstep with
        | tasks v => exact ih rfl
        | _ => cases hpc
    | stop hstep => cases hstep <;> cases hpc

/-- The host goroutine is in the task phase or has nothing to launch, has not
launched anything, and has nothing to report. -/
structure LoopVars.Aborting (h : Host) (v : LoopVars) : Prop where
  errs_nil : v.errs = []
  launched_zero : v.launched = 0
  aborted : v.pc.beforeServices = false → v.startupAborted = true ∨ h.services = []

private theorem aborting_task (s : State h) (a : TaskAct) (hq : s.loop.Aborting h)
    (hg : taskGuard s a = true) (htrig : s.triggered = true)
    (hreacts : Reacts s (.host (.task a))) (hprompt : Prompt s (.host (.task a))) :
    (taskEffect s a).loop.Aborting h ∧ Action.startsWork (.host (.task a)) = false := by
  have hsees := hprompt.1 rfl
  cases a with
  | canceled k => exact ⟨⟨hq.errs_nil, hq.launched_zero, fun _ => Or.inl rfl⟩, rfl⟩
  | call k =>
      simp only [taskGuard, decide_eq_true_eq] at hg
      simp [State.headSees, hg, htrig] at hsees
  | allDone k =>
      simp only [taskGuard, decide_eq_true_eq] at hg
      simp only [State.headSees, hg.1, htrig, hg.2] at hsees
      exact ⟨⟨hq.errs_nil, hq.launched_zero, fun _ => Or.inr (by simpa using hsees)⟩, rfl⟩
  | result k o ctxDone =>
      simp only [taskGuard, decide_eq_true_eq] at hg
      refine ⟨?_, rfl⟩
      have hnil : o = .returned none → (taskEffect s (.result k o ctxDone)).loop.Aborting h := by
        rintro rfl
        exact ⟨hq.errs_nil, hq.launched_zero, fun hpc => by cases hpc⟩
      rcases hreacts o rfl htrig with hreturn | hreturn
      · exact hnil hreturn
      · cases hctx : s.taskCtx with
        | none => exact hnil (by rw [hreturn, hctx]; rfl)
        | some e =>
            cases e with
            | deadlineExceeded =>
                exact absurd (by rw [hreturn, hctx]; rfl) (hprompt.2 o rfl htrig)
            | canceled =>
                obtain rfl : true = ctxDone := by simpa [hctx] using hg.2
                rw [hreturn, hctx]
                exact ⟨hq.errs_nil, hq.launched_zero, fun _ => Or.inl rfl⟩

/-- Behind the task phase it is enough that a step reports nothing and launches
nothing. -/
private theorem LoopVars.Aborting.keep {v v' : LoopVars} (hq : v.Aborting h)
    (hpc : v.pc.beforeServices = false) (herrs : v'.errs = v.errs)
    (hlaunched : v'.launched = v.launched)
    (haborted : v.startupAborted = true → v'.startupAborted = true) : v'.Aborting h where
  errs_nil := herrs.trans hq.errs_nil
  launched_zero := hlaunched.trans hq.launched_zero
  aborted := fun _ => (hq.aborted hpc).imp haborted id

/-- Nothing is left to launch. -/
private theorem LoopVars.Aborting.no_service {v : LoopVars} (hq : v.Aborting h)
    (hpc : v.pc.beforeServices = false) (haborted : v.startupAborted = false) :
    h.services = [] := by
  rcases hq.aborted hpc with habort | hnil
  · rw [haborted] at habort
    cases habort
  · exact hnil

/-- The steps of `RunContext`, of which only those with services receive an exit. -/
private theorem aborting_run {a : RunAct} {v v' : LoopVars} (hstep : RunStep h a v v')
    (hp : Placed h v) (hq : v.Aborting h) (htasks : h.tasks ≠ [])
    (hexits : ∀ exit, a = .takeExit exit → h.services ≠ []) :
    v'.Aborting h ∧ Action.startsWork (.host (.run a)) = false := by
  cases hstep with
  | tasks v => exact ⟨⟨hq.errs_nil, hq.launched_zero, nofun⟩, rfl⟩
  | noTasks v hnone => exact absurd hnone htasks
  | launch v hk =>
      rw [hq.no_service rfl rfl] at hk
      cases hk
  | readier v | noReadier v | ready v | startTimeout v | readyCtx v | readyShutdown v
  | readyExit v =>
      have hk := hp.2.1
      rw [hq.no_service rfl hp.2.2.1] at hk
      cases hk
  | mainExit v exit => exact absurd (hq.no_service rfl hp.2.1) (hexits exit rfl)
  | _ => exact ⟨hq.keep rfl rfl rfl id, rfl⟩

private theorem aborting_stop {a : StopAct} {v v' : LoopVars} (hstep : StopStep a v v')
    (hp : Placed h v) (hq : v.Aborting h) : v'.Aborting h := by
  cases hstep with
  | enter v | leave v => exact hq.keep rfl rfl rfl id
  | cancel v | issue v | takeStop v | takeDone v | abandonStop v | abandonDone v =>
      have hzero : v.launched = 0 := hq.launched_zero
      have hlt : _ < v.launched := hp.1
      rw [hzero] at hlt
      cases hlt

/-! ## The steps that are left -/

/-- How many steps the host goroutine has yet to make, at most, when there is
nothing to launch and nothing to stop. -/
def HostPC.stepsLeft : HostPC → Nat
  | .entry | .inTask _ => 9
  | .taskHead _ => 8
  | .launchHead _ => 7
  | .mainSelect => 6
  | .stopping => 5
  | .stopAll => 4
  | .stopNext 0 => 3
  | .join => 2
  | .ret => 1
  | _ => 0

theorem HostPC.stepsLeft_le (pc : HostPC) : pc.stepsLeft ≤ 9 := by
  unfold HostPC.stepsLeft
  split <;> decide

/-- The host goroutine is at none of the places behind a launch. -/
private theorem LoopVars.Aborting.stepsLeft_pos {v : LoopVars} (hq : v.Aborting h)
    (hp : Placed h v) (hret : v.pc ≠ .returned) : 0 < v.pc.stepsLeft := by
  have hzero := hq.launched_zero
  have haborted := hq.aborted
  unfold Placed at hp
  cases hpc : v.pc with
  | readierCheck k | waitReady k =>
      rw [hpc] at hp
      omega
  | issueStop i began | waitStop i began | waitDone i began svcErr =>
      rw [hpc] at hp
      omega
  | stopNext n =>
      rw [hpc] at hp
      obtain rfl : n = 0 := by omega
      decide
  | returned => exact absurd hpc hret
  | _ => exact Nat.succ_pos _

private theorem stepsLeft_task {a : TaskAct} {v v' : LoopVars} (hstep : TaskStep h a v v')
    (ha : Action.startsWork (.host (.task a)) = false) :
    v'.pc.stepsLeft < v.pc.stepsLeft := by
  cases hstep with
  | call v => cases ha
  | done v => exact (by decide : 8 < 9)
  | aborted v | failed v => exact (by decide : 7 < 9)
  | canceled v | allDone v => exact (by decide : 7 < 8)

private theorem stepsLeft_run {a : RunAct} {v v' : LoopVars} (hstep : RunStep h a v v')
    (hpos : 0 < v.pc.stepsLeft) (htasks : h.tasks ≠ [])
    (ha : Action.startsWork (.host (.run a)) = false) :
    v'.pc.stepsLeft < v.pc.stepsLeft := by
  cases hstep with
  | noTasks v hnone => exact absurd hnone htasks
  | launch v => cases ha
  | readier v | noReadier v | ready v | startTimeout v | readyCtx v | readyShutdown v
  | readyExit v => cases hpos
  | _ => simp [HostPC.stepsLeft]

private theorem stepsLeft_stop {a : StopAct} {v v' : LoopVars} (hstep : StopStep a v v')
    (hpos : 0 < v.pc.stepsLeft) (hzero : v.launched = 0) :
    v'.pc.stepsLeft < v.pc.stepsLeft := by
  cases hstep with
  | enter v =>
      have hnone : v.launched = 0 := hzero
      show (HostPC.stopNext v.launched).stepsLeft < 4
      rw [hnone]
      decide
  | leave v => exact (by decide : 2 < 3)
  | _ => cases hpos

/-- A step of the host goroutine that starts nothing comes nearer to the end. -/
private theorem stepsLeft_host {a : HostAct} {v v' : LoopVars} (hstep : HostStep h a v v')
    (hp : Placed h v) (hq : v.Aborting h) (htasks : h.tasks ≠ [])
    (ha : Action.startsWork (.host a) = false) : v'.pc.stepsLeft < v.pc.stepsLeft := by
  have hpos : 0 < v.pc.stepsLeft := hq.stepsLeft_pos hp hstep.not_returned
  cases hstep with
  | task hstep => exact stepsLeft_task hstep ha
  | run hstep => exact stepsLeft_run hstep hpos htasks ha
  | stop hstep => exact stepsLeft_stop hstep hpos hq.launched_zero

/-- The host goroutine itself can go on, or the cancellation of `taskCtx` is on its
way. -/
private theorem host_or_watch (hp : Placed h s.loop) (hq : s.loop.Aborting h)
    (hret : s.pc ≠ .returned) (htrig : s.triggered = true) :
    (∃ b, hostCan s b = true ∧ Action.startsWork (.host b) = false) ∨
      ∃ e, watchGuard s e = true := by
  have hpos : 0 < s.pc.stepsLeft := hq.stepsLeft_pos hp hret
  cases hpc : s.pc with
  | entry => exact Or.inl ⟨.run .enter, by simp [hostCan, runGuard, hpc], rfl⟩
  | taskHead k =>
      by_cases hk : k < h.tasks.length
      · cases hctx : s.taskCtx with
        | some e =>
            exact Or.inl ⟨.task (.canceled k), by simp [hostCan, taskGuard, hpc, hk, hctx], rfl⟩
        | none =>
            right
            cases hdone : s.ctx with
            | some e => exact ⟨e, by simp [watchGuard, hpc, HostPC.inTasks, hctx, hdone]⟩
            | none =>
                have hshut : s.shutdownCh = true := by simpa [State.triggered, hdone] using htrig
                exact ⟨.canceled, by simp [watchGuard, hpc, HostPC.inTasks, hctx, hshut]⟩
      · exact Or.inl ⟨.task (.allDone k), by simpa [hostCan, taskGuard, hpc] using hk, rfl⟩
  | inTask k =>
      exact Or.inl ⟨.task (.result k (.returned none) s.taskCtx.isSome),
        by simp [hostCan, taskGuard, hpc], rfl⟩
  | launchHead k =>
      left
      cases haborted : s.startupAborted with
      | true => exact ⟨.run (.abortLaunch k), by simp [hostCan, runGuard, hpc, haborted], rfl⟩
      | false =>
          have hnil := hq.no_service (by simp [hpc, HostPC.beforeServices]) haborted
          exact ⟨.run (.started k), by simp [hostCan, runGuard, hpc, haborted, hnil], rfl⟩
  | mainSelect =>
      left
      rcases Bool.or_eq_true_iff.mp htrig with hctx | hshut
      · exact ⟨.run .takeCtx, by simp [hostCan, runGuard, hpc, HostPC.selects, hctx], rfl⟩
      · exact ⟨.run .takeShutdown, by simp [hostCan, runGuard, hpc, HostPC.selects, hshut], rfl⟩
  | stopping => exact Or.inl ⟨.run .beginStopping, by simp [hostCan, runGuard, hpc], rfl⟩
  | stopAll => exact Or.inl ⟨.stop .enter, by simp [hostCan, stopGuard, hpc], rfl⟩
  | stopNext n =>
      cases n with
      | zero => exact Or.inl ⟨.stop .leave, by simp [hostCan, stopGuard, hpc], rfl⟩
      | succ n => simp [hpc, HostPC.stepsLeft] at hpos
  | join => exact Or.inl ⟨.run .join, by simp [hostCan, runGuard, hpc], rfl⟩
  | ret => exact Or.inl ⟨.run .ret, by simp [hostCan, runGuard, hpc], rfl⟩
  | _ => simp [hpc, HostPC.stepsLeft] at hpos

/-- As long as `RunContext` has not returned it can go on: a call in progress can
end, the next call can begin, and without calls there is a step. -/
private theorem not_stuck (hp : Placed h s.loop) (hq : s.loop.Aborting h)
    (hret : s.pc ≠ .returned) (htrig : s.triggered = true) :
    ∃ a, a.advances = true ∧ a.startsWork = false ∧ (system h).guard s a = true := by
  cases hcur : s.caller.current with
  | some c =>
      refine ⟨.call .host (.ends c false), rfl, rfl, ?_⟩
      simp [system, callGuard, State.callerOf, hcur]
  | none =>
      cases hqueue : s.caller.queue with
      | cons c rest =>
          refine ⟨.call .host (.begins c), rfl, rfl, ?_⟩
          simp [system, callGuard, State.callerOf, hcur, hqueue]
      | nil =>
          rcases host_or_watch hp hq hret htrig with ⟨b, hcan, hb⟩ | ⟨e, hwatch⟩
          · refine ⟨.host b, rfl, hb, ?_⟩
            simp [system, hostGuard, Caller.idle, hcur, hqueue, hcan]
          · exact ⟨.watch e, rfl, rfl, hwatch⟩

/-! ## The run after a trigger -/

/-- A step of the host goroutine keeps the host aborting and starts nothing. -/
private theorem aborting_host (s : State h) (a : HostAct) (hp : Placed h s.loop)
    (hq : s.loop.Aborting h) (hg : hostCan s a = true) (htasks : h.tasks ≠ [])
    (htrig : s.triggered = true) (hreacts : Reacts s (.host a)) (hprompt : Prompt s (.host a)) :
    (hostEffect s a).loop.Aborting h ∧ Action.startsWork (.host a) = false := by
  cases a with
  | task a => exact aborting_task s a hq hg htrig hreacts hprompt
  | run a =>
      refine aborting_run (runStep_of_guard hg) hp hq htasks ?_
      rintro exit rfl hnone
      have hnext := (of_decide_eq_true hg : s.pc.selects = true ∧ s.exits.next = some exit).2
      obtain ⟨rest, hbuf⟩ := (Chan.next_eq_some_iff _ _).mp hnext
      have hfits := s.exits.fits
      rw [hbuf, hnone] at hfits
      cases hfits
  | stop a => exact ⟨aborting_stop (stopStep_of_guard hg) hp hq, rfl⟩

/-- A supervisor that calls `Start` belongs to a launched service. -/
private theorem startsWork_other (hr : RunIf h ok τ s) (hzero : s.launched = 0) {a : Action}
    (ha : ∀ b, a ≠ .host b) (hg : (system h).guard s a = true) : a.startsWork = false := by
  cases a with
  | host b => exact absurd rfl (ha b)
  | sup i a =>
      have hborn : i < s.launched := launched_of_born hr (born_of_supGuard hg)
      rw [hzero] at hborn
      cases hborn
  | _ => rfl

/-- What holds after a trigger in the task phase; `post` is what has happened since. -/
private structure AfterTrigger (h : Host) (post : List Action) (s : State h) : Prop where
  triggered : s.triggered = true
  aborting : s.loop.Aborting h
  silent : ∀ a ∈ post, a.startsWork = false
  bounded : (hostActs post).length + s.pc.stepsLeft ≤ 9

private theorem afterTrigger_of_run {s₁ : State h} {pre : List Action}
    (hr₁ : RunIf h (fun s a => Reacts s a ∧ Prompt s a) pre s₁) (htrig : s₁.triggered = true)
    (hq : s₁.loop.Aborting h) (htasks : h.tasks ≠ [])
    (hr : (system h).Run (fun s a => Reacts s a ∧ Prompt s a) s₁ τ s) :
    AfterTrigger h τ s := by
  refine hr.invariant (AfterTrigger h)
    ⟨htrig, hq, by simp, by simpa [hostActs] using s₁.pc.stepsLeft_le⟩ ?_
  rintro τ s a hr ih ⟨hreacts, hprompt⟩ hg
  have hwhole := hr₁.trans hr
  have hstep : ((system h).effect s a).loop.Aborting h ∧ a.startsWork = false ∧
      (hostActs [a]).length + ((system h).effect s a).pc.stepsLeft ≤ s.pc.stepsLeft := by
    by_cases ha : ∃ b, a = .host b
    · obtain ⟨b, rfl⟩ := ha
      have hp := placed_of_run hwhole
      have hcan := hostCan_of_guard hg
      obtain ⟨hkeep, hquiet⟩ :=
        aborting_host s b hp ih.aborting hcan htasks ih.triggered hreacts hprompt
      have hless := stepsLeft_host (hostStep_of_can hcan) hp ih.aborting htasks hquiet
      rw [hostActs_host, List.length_singleton, Nat.add_comm]
      exact ⟨hkeep, hquiet, hless⟩
    · have hother : ∀ b, a ≠ .host b := fun b hb => ha ⟨b, hb⟩
      have hsame := loop_other s a hother
      have hpc : ((system h).effect s a).pc = s.pc := congrArg LoopVars.pc hsame.1
      rw [hsame.1, hsame.2, hpc]
      exact ⟨ih.aborting, startsWork_other hwhole ih.aborting.launched_zero hother hg, by simp⟩
  obtain ⟨hkeep, hquiet, hless⟩ := hstep
  refine ⟨triggered_step s a (Or.inl ih.triggered), hkeep, fun b hb => ?_, ?_⟩
  · rcases List.mem_append.mp hb with hold | hnew
    · exact ih.silent b hold
    · rw [List.mem_singleton.mp hnew]
      exact hquiet
  · have hbound := ih.bounded
    rw [hostActs_append, List.length_append]
    omega

/-- In a run in which the loop head misses no trigger and no task reports an
exceeded deadline, a shutdown during the startup tasks is a clean abort. -/
theorem clean_abort (hr : RunIf h (fun s a => Reacts s a ∧ Prompt s a) τ s) :
    CleanAbort h τ s := by
  intro pre trig post hτ hshut htasks hpc
  subst hτ
  obtain ⟨s₁, hr₁, hok, hg, hr₂⟩ := hr.split
  rw [hr₁.after_eq] at hpc
  have hother : ∀ b, trig ≠ .host b := by
    rintro b rfl
    cases hshut
  have hlaunched : s₁.launched = 0 := by
    have hp := placed_of_run hr₁
    cases hs : s₁.pc <;> simp_all [Placed, HostPC.beforeServices]
  have hq : ((system h).effect s₁ trig).loop.Aborting h := by
    rw [(loop_other s₁ trig hother).1]
    refine ⟨errs_beforeServices hr₁ hpc, hlaunched, fun hout => ?_⟩
    rw [State.loop, hpc] at hout
    cases hout
  have hr := hr₁.snoc hok hg
  have hafter := afterTrigger_of_run hr (triggered_step s₁ trig (Or.inr hshut)) hq htasks hr₂
  have hplaced := placed_of_run (hr.trans hr₂)
  refine
    { nothing_started := hafter.silent
      few_steps := (Nat.le_add_right _ _).trans hafter.bounded
      not_stuck := fun hret => not_stuck hplaced hafter.aborting hret hafter.triggered
      returns_nil := fun _ showDuration => ?_ }
  have herrs : s.errs = [] := hafter.aborting.errs_nil
  rw [herrs]
  rfl

/-- A host with one startup task and one service. -/
def taskHost : Host := { soloHost with tasks := [⟨"migrate"⟩] }

/-- `Shutdown` is called during the only task, which then returns nil. -/
def lastTaskRun : List Action :=
  [.host (.run .enter), .host (.task (.call 0)), .env .shutdown, .watch .canceled,
    .host (.task (.result 0 (.returned none) true)), .host (.task (.allDone 1)),
    .host (.run (.launch 0)), .sup 0 .start]

/-- A service can be started after a shutdown during the tasks. -/
theorem services_after_shutdown : ¬ ∀ (h : Host) (τ : List Action) (s : State h),
    RunIf h Reacts τ s → CleanAbort h τ s := by
  intro hall
  have hr : RunIf taskHost Reacts lastTaskRun _ := Lts.Admits.run (by decide)
  have hclean := hall taskHost lastTaskRun _ hr (lastTaskRun.take 2) (.env .shutdown)
    (lastTaskRun.drop 3) rfl rfl (by decide) (by decide)
  exact absurd (hclean.nothing_started (.host (.run (.launch 0))) (by decide)) (by decide)

/-- `Shutdown` is called during the only task, which returns the error of its
context. -/
def canceledTaskRun : List Action :=
  [.host (.run .enter), .host (.task (.call 0)), .env .shutdown, .watch .canceled,
    .host (.task (.result 0 (.returned (some CtxErr.canceled.error)) true)),
    .host (.run (.abortLaunch 0)), .host (.run .beginStopping), .host (.stop .enter),
    .host (.stop .leave), .host (.run .join), .host (.run .ret)]

theorem clean_abort_canceledTaskRun :
    CleanAbort taskHost canceledTaskRun
      ((system taskHost).after (State.init taskHost) canceledTaskRun) :=
  clean_abort (Lts.Admits.run (by decide))

end Shost.Ports.Hosting
