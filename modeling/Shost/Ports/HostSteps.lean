import Shost.Ports.HostLoop

/-!
# What a step of the host goroutine does to its loop

The host goroutine alone changes the variables of its loop.  The relations of this
file say what each of its steps does to them, one constructor for each branch of the
source; a step that is possible is such a step.  What holds of the loop in every run
is proved by cases on them.

## Main results

* `hostStep_of_can` — a step that is possible does what the relation says.
-/

namespace Shost.Ports.Hosting

open Shost.Verified

/-- The variables of the host loop that only its own steps change. -/
structure LoopVars where
  pc : HostPC
  errs : List HostError
  causeIndex : Option Nat
  launched : Nat
  startupAborted : Bool
  stoppingCh : Bool

variable {h : Host} {s : State h}

@[simp] def State.loop (s : State h) : LoopVars :=
  ⟨s.pc, s.errs, s.causeIndex, s.launched, s.startupAborted, s.stoppingCh⟩

/-! ## `runStartupTasks` -/

/-- Steps of `runStartupTasks`. -/
inductive TaskStep (h : Host) : TaskAct → LoopVars → LoopVars → Prop
  | canceled (v : LoopVars) {k : Nat} :
      TaskStep h (.canceled k) { v with pc := .taskHead k }
        { v with startupAborted := true, pc := .launchHead 0 }
  | call (v : LoopVars) {k : Nat} (hk : k < h.tasks.length) :
      TaskStep h (.call k) { v with pc := .taskHead k } { v with pc := .inTask k }
  | done (v : LoopVars) {k : Nat} {o : Outcome} {ctxDone : Bool} (ho : safeTask o = none) :
      TaskStep h (.result k o ctxDone) { v with pc := .inTask k } { v with pc := .taskHead (k + 1) }
  /-- the task returns because its context is done -/
  | aborted (v : LoopVars) {k : Nat} {o : Outcome} {ctxDone : Bool} {err : Error}
      (ho : safeTask o = some err) (hclean : err.canceled = true ∧ ctxDone = true) :
      TaskStep h (.result k o ctxDone) { v with pc := .inTask k }
        { v with startupAborted := true, pc := .launchHead 0 }
  | failed (v : LoopVars) {k : Nat} {o : Outcome} {ctxDone : Bool} {err : Error}
      (ho : safeTask o = some err) (hclean : ¬(err.canceled = true ∧ ctxDone = true)) :
      TaskStep h (.result k o ctxDone) { v with pc := .inTask k }
        { v with errs := v.errs ++ [.taskFailed k err], startupAborted := true,
                 pc := .launchHead 0 }
  | allDone (v : LoopVars) {k : Nat} (hk : h.tasks.length ≤ k) :
      TaskStep h (.allDone k) { v with pc := .taskHead k } { v with pc := .launchHead 0 }

theorem taskStep_of_guard {a : TaskAct} (hg : taskGuard s a = true) :
    TaskStep h a s.loop (taskEffect s a).loop := by
  cases a with
  | canceled k =>
      have hpc := (of_decide_eq_true hg : s.pc = .taskHead k ∧ _).1
      simpa [taskEffect, hpc] using TaskStep.canceled (h := h) s.loop
  | call k =>
      obtain ⟨hpc, hk, -⟩ : s.pc = .taskHead k ∧ _ ∧ _ := of_decide_eq_true hg
      simpa [taskEffect, hpc] using TaskStep.call s.loop hk
  | result k o ctxDone =>
      have hpc := (of_decide_eq_true hg : s.pc = .inTask k ∧ _).1
      cases ho : safeTask o with
      | none => simpa [taskEffect, hpc, ho] using TaskStep.done (h := h) s.loop ho
      | some err =>
          by_cases hclean : err.canceled = true ∧ ctxDone = true
          · simpa [taskEffect, hpc, ho, hclean] using TaskStep.aborted (h := h) s.loop ho hclean
          · simpa [taskEffect, hpc, ho, hclean] using TaskStep.failed (h := h) s.loop ho hclean
  | allDone k =>
      obtain ⟨hpc, hk⟩ : s.pc = .taskHead k ∧ _ := of_decide_eq_true hg
      simpa [taskEffect, hpc] using TaskStep.allDone s.loop (not_lt.mp hk)

/-! ## `RunContext` -/

/-- Steps of `RunContext`.  Out of the readiness select the startup is aborted. -/
inductive RunStep (h : Host) : RunAct → LoopVars → LoopVars → Prop
  | tasks (v : LoopVars) (htasks : h.tasks ≠ []) :
      RunStep h .enter { v with pc := .entry } { v with pc := .taskHead 0 }
  | noTasks (v : LoopVars) (htasks : h.tasks = []) :
      RunStep h .enter { v with pc := .entry } { v with pc := .launchHead 0 }
  | launch (v : LoopVars) {k : Nat} (hk : k < h.services.length) :
      RunStep h (.launch k) { v with startupAborted := false, pc := .launchHead k }
        { v with launched := v.launched + 1, startupAborted := false, pc := .readierCheck k }
  | readier (v : LoopVars) {k : Nat} (hk : h.readier k = true) :
      RunStep h (.lookReadier k) { v with pc := .readierCheck k } { v with pc := .waitReady k }
  | noReadier (v : LoopVars) {k : Nat} (hk : h.readier k = false) :
      RunStep h (.lookReadier k) { v with pc := .readierCheck k }
        { v with pc := .launchHead (k + 1) }
  | ready (v : LoopVars) {k : Nat} :
      RunStep h (.ready k) { v with pc := .waitReady k } { v with pc := .launchHead (k + 1) }
  | startTimeout (v : LoopVars) {k : Nat} :
      RunStep h (.startTimeout k) { v with pc := .waitReady k }
        { v with errs := v.errs ++ [.notReady k], startupAborted := true, pc := .stopping }
  | readyCtx (v : LoopVars) {k : Nat} :
      RunStep h .takeCtx { v with pc := .waitReady k }
        { v with startupAborted := true, pc := .stopping }
  | mainCtx (v : LoopVars) :
      RunStep h .takeCtx { v with pc := .mainSelect } { v with pc := .stopping }
  | readyShutdown (v : LoopVars) {k : Nat} :
      RunStep h .takeShutdown { v with pc := .waitReady k }
        { v with startupAborted := true, pc := .stopping }
  | mainShutdown (v : LoopVars) :
      RunStep h .takeShutdown { v with pc := .mainSelect } { v with pc := .stopping }
  | readyExit (v : LoopVars) {k : Nat} (exit : ServiceExit) :
      RunStep h (.takeExit exit) { v with pc := .waitReady k }
        { v with errs := v.errs ++ [exitError exit], causeIndex := some exit.index,
                 startupAborted := true, pc := .stopping }
  | mainExit (v : LoopVars) (exit : ServiceExit) :
      RunStep h (.takeExit exit) { v with pc := .mainSelect }
        { v with errs := v.errs ++ [exitError exit], causeIndex := some exit.index,
                 pc := .stopping }
  | abortLaunch (v : LoopVars) {k : Nat} :
      RunStep h (.abortLaunch k) { v with startupAborted := true, pc := .launchHead k }
        { v with startupAborted := true, pc := .stopping }
  | started (v : LoopVars) {k : Nat} (hk : h.services.length ≤ k) :
      RunStep h (.started k) { v with startupAborted := false, pc := .launchHead k }
        { v with startupAborted := false, pc := .mainSelect }
  | beginStopping (v : LoopVars) :
      RunStep h .beginStopping { v with pc := .stopping }
        { v with stoppingCh := true, pc := .stopAll }
  | join (v : LoopVars) : RunStep h .join { v with pc := .join } { v with pc := .ret }
  | ret (v : LoopVars) : RunStep h .ret { v with pc := .ret } { v with pc := .returned }

theorem runStep_of_guard {a : RunAct} (hg : runGuard s a = true) :
    RunStep h a s.loop (runEffect s a).loop := by
  cases a with
  | enter =>
      have hpc : s.pc = .entry := of_decide_eq_true hg
      by_cases htasks : h.tasks = []
      · simpa [runEffect, htasks, hpc] using RunStep.noTasks s.loop htasks
      · simpa [runEffect, htasks, hpc] using RunStep.tasks s.loop htasks
  | launch k =>
      obtain ⟨hpc, hk, haborted⟩ : s.pc = .launchHead k ∧ _ ∧ _ := of_decide_eq_true hg
      simpa [runEffect, hpc, haborted] using RunStep.launch s.loop hk
  | lookReadier k =>
      have hpc : s.pc = .readierCheck k := of_decide_eq_true hg
      cases hk : h.readier k with
      | true => simpa [runEffect, hpc, hk] using RunStep.readier s.loop hk
      | false => simpa [runEffect, hpc, hk] using RunStep.noReadier s.loop hk
  | ready k =>
      have hpc := (of_decide_eq_true hg : s.pc = .waitReady k ∧ _).1
      simpa [runEffect, hpc] using RunStep.ready (h := h) s.loop
  | startTimeout k =>
      have hpc := (of_decide_eq_true hg : s.pc = .waitReady k ∧ _).1
      simpa [runEffect, hpc] using RunStep.startTimeout (h := h) s.loop
  | takeCtx =>
      have hsel := (of_decide_eq_true hg : s.pc.selects = true ∧ _).1
      rcases HostPC.selects_iff.mp hsel with ⟨k, hpc⟩ | hpc
      · simpa [runEffect, hpc] using RunStep.readyCtx (h := h) s.loop
      · simpa [runEffect, hpc] using RunStep.mainCtx (h := h) s.loop
  | takeShutdown =>
      have hsel := (of_decide_eq_true hg : s.pc.selects = true ∧ _).1
      rcases HostPC.selects_iff.mp hsel with ⟨k, hpc⟩ | hpc
      · simpa [runEffect, hpc] using RunStep.readyShutdown (h := h) s.loop
      · simpa [runEffect, hpc] using RunStep.mainShutdown (h := h) s.loop
  | takeExit exit =>
      have hsel := (of_decide_eq_true hg : s.pc.selects = true ∧ _).1
      rcases HostPC.selects_iff.mp hsel with ⟨k, hpc⟩ | hpc
      · simpa [runEffect, hpc] using RunStep.readyExit (h := h) s.loop exit
      · simpa [runEffect, hpc] using RunStep.mainExit (h := h) s.loop exit
  | abortLaunch k =>
      obtain ⟨hpc, haborted⟩ : s.pc = .launchHead k ∧ _ := of_decide_eq_true hg
      simpa [runEffect, hpc, haborted] using RunStep.abortLaunch (h := h) s.loop
  | started k =>
      obtain ⟨hpc, hk, haborted⟩ : s.pc = .launchHead k ∧ _ ∧ _ := of_decide_eq_true hg
      simpa [runEffect, hpc, haborted] using RunStep.started s.loop (not_lt.mp hk)
  | beginStopping =>
      have hpc : s.pc = .stopping := of_decide_eq_true hg
      simpa [runEffect, hpc] using RunStep.beginStopping (h := h) s.loop
  | join =>
      have hpc : s.pc = .join := of_decide_eq_true hg
      simpa [runEffect, hpc] using RunStep.join (h := h) s.loop
  | ret =>
      have hpc : s.pc = .ret := of_decide_eq_true hg
      simpa [runEffect, hpc] using RunStep.ret (h := h) s.loop

/-! ## `stopAll` -/

/-- Steps of `stopAll`.  A service is abandoned at either of the two selects. -/
inductive StopStep : StopAct → LoopVars → LoopVars → Prop
  | enter (v : LoopVars) :
      StopStep .enter { v with pc := .stopAll } { v with pc := .stopNext v.launched }
  | cancel (v : LoopVars) {i : Nat} (began : Int) :
      StopStep (.cancel i) { v with pc := .stopNext (i + 1) } { v with pc := .issueStop i began }
  | issue (v : LoopVars) {i : Nat} {began : Int} :
      StopStep (.issue i began) { v with pc := .issueStop i began }
        { v with pc := .waitStop i began }
  | takeStop (v : LoopVars) {i : Nat} {began : Int} (r : Result) :
      StopStep (.takeStop i began r) { v with pc := .waitStop i began }
        { v with errs := v.errs ++ (r.map (HostError.stopping i)).toList,
                 pc := .waitDone i began r }
  | takeDone (v : LoopVars) {i : Nat} {began : Int} {svcErr : Result} (r : Result) :
      StopStep (.takeDone i began svcErr r) { v with pc := .waitDone i began svcErr }
        { v with
          errs := v.errs ++
            ((shutdownFailure v.causeIndex i r).map (HostError.failedDuringShutdown i)).toList
          pc := .stopNext i }
  | abandonStop (v : LoopVars) {i : Nat} {began : Int} :
      StopStep (.abandon i began) { v with pc := .waitStop i began }
        { v with errs := v.errs ++ [.didNotStop i], pc := .stopNext i }
  | abandonDone (v : LoopVars) {i : Nat} {began : Int} (svcErr : Result) :
      StopStep (.abandon i began) { v with pc := .waitDone i began svcErr }
        { v with errs := v.errs ++ [.didNotStop i], pc := .stopNext i }
  | leave (v : LoopVars) : StopStep .leave { v with pc := .stopNext 0 } { v with pc := .join }

theorem stopStep_of_guard {a : StopAct} (hg : stopGuard s a = true) :
    StopStep a s.loop (stopEffect s a).loop := by
  cases a with
  | enter =>
      have hpc : s.pc = .stopAll := of_decide_eq_true hg
      simpa [stopEffect, hpc] using StopStep.enter s.loop
  | cancel i =>
      have hpc : s.pc = .stopNext (i + 1) := of_decide_eq_true hg
      simpa [stopEffect, hpc] using StopStep.cancel s.loop s.now
  | issue i began =>
      have hpc : s.pc = .issueStop i began := of_decide_eq_true hg
      simpa [stopEffect, hpc] using StopStep.issue s.loop
  | takeStop i began r =>
      have hpc := (of_decide_eq_true hg : s.pc = .waitStop i began ∧ _).1
      cases r with
      | none => simpa [stopEffect, hpc] using StopStep.takeStop s.loop none
      | some err => simpa [stopEffect, hpc] using StopStep.takeStop s.loop (some err)
  | takeDone i began svcErr r =>
      have hpc := (of_decide_eq_true hg : s.pc = .waitDone i began svcErr ∧ _).1
      cases hfail : shutdownFailure s.causeIndex i r with
      | none => simpa [stopEffect, hpc, hfail] using StopStep.takeDone (i := i) s.loop r
      | some err => simpa [stopEffect, hpc, hfail] using StopStep.takeDone (i := i) s.loop r
  | abandon i began =>
      have hwait := (of_decide_eq_true hg : s.pc.awaits = some (i, began) ∧ _).1
      rcases HostPC.awaits_iff.mp hwait with hpc | ⟨svcErr, hpc⟩
      · simpa [stopEffect, hpc] using StopStep.abandonStop s.loop
      · simpa [stopEffect, hpc] using StopStep.abandonDone s.loop svcErr
  | leave =>
      have hpc : s.pc = .stopNext 0 := of_decide_eq_true hg
      simpa [stopEffect, hpc] using StopStep.leave s.loop

/-! ## All steps of the host goroutine -/

/-- Steps of the host goroutine. -/
inductive HostStep (h : Host) : HostAct → LoopVars → LoopVars → Prop
  | task {a : TaskAct} {v v' : LoopVars} : TaskStep h a v v' → HostStep h (.task a) v v'
  | run {a : RunAct} {v v' : LoopVars} : RunStep h a v v' → HostStep h (.run a) v v'
  | stop {a : StopAct} {v v' : LoopVars} : StopStep a v v' → HostStep h (.stop a) v v'

theorem hostStep_of_can {a : HostAct} (hg : hostCan s a = true) :
    HostStep h a s.loop (hostEffect s a).loop := by
  cases a with
  | task a => exact .task (taskStep_of_guard hg)
  | run a => exact .run (runStep_of_guard hg)
  | stop a => exact .stop (stopStep_of_guard hg)

end Shost.Ports.Hosting
