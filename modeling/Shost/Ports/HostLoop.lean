import Shost.Ports.HostState

/-!
# The host goroutine

The steps of `runStartupTasks`, `RunContext` and `stopAll`.  A step is an
action with a guard and an effect; an action carries the outcome of the choice
it stands for, that is which case of a `select` is taken, the value received,
or what a call returned.

Hooks and observer callbacks are called by the host goroutine itself.  A step
that makes such calls puts them into the goroutine's queue, and no step of this
file is possible before the queue is empty and the last call has returned.
-/

namespace Shost.Ports.Hosting

open Shost.Verified

/-- Steps of `runStartupTasks`. -/
inductive TaskAct where
  /-- the loop head finds `taskCtx` done -/
  | canceled (k : Nat)
  | call (k : Nat)
  /-- the call ends; `ctxDone` is the value of `taskCtx.Err() != nil` -/
  | result (k : Nat) (o : Outcome) (ctxDone : Bool)
  | allDone (k : Nat)
  deriving DecidableEq

/-- Steps of `RunContext`. -/
inductive RunAct where
  | enter
  | launch (k : Nat)
  | lookReadier (k : Nat)
  | ready (k : Nat)
  | startTimeout (k : Nat)
  | takeCtx
  | takeShutdown
  | takeExit (exit : ServiceExit)
  | abortLaunch (k : Nat)
  | started (k : Nat)
  | beginStopping
  | join
  | ret
  deriving DecidableEq

/-- Steps of `stopAll`. -/
inductive StopAct where
  | enter
  | cancel (i : Nat)
  | issue (i : Nat) (began : Int)
  | takeStop (i : Nat) (began : Int) (r : Result)
  | takeDone (i : Nat) (began : Int) (svcErr r : Result)
  | abandon (i : Nat) (began : Int)
  | leave
  deriving DecidableEq

/-- Steps of the host goroutine. -/
inductive HostAct where
  | task (a : TaskAct)
  | run (a : RunAct)
  | stop (a : StopAct)
  deriving DecidableEq

/-- The place is one of the two selects that `ctx`, `shutdownCh` and `exits`
take part in. -/
def HostPC.selects : HostPC → Bool
  | .waitReady _ | .mainSelect => true
  | _ => false

theorem HostPC.selects_iff {pc : HostPC} :
    pc.selects = true ↔ (∃ k, pc = .waitReady k) ∨ pc = .mainSelect := by
  cases pc <;> simp [HostPC.selects]

/-- The service and the time in scope at the two selects of `stopAll`. -/
def HostPC.awaits : HostPC → Option (Nat × Int)
  | .waitStop i began | .waitDone i began _ => some (i, began)
  | _ => none

theorem HostPC.awaits_iff {pc : HostPC} {i : Nat} {began : Int} :
    pc.awaits = some (i, began) ↔
      pc = .waitStop i began ∨ ∃ svcErr, pc = .waitDone i began svcErr := by
  cases pc <;> simp [HostPC.awaits]

/-- The place is inside `runStartupTasks`. -/
def HostPC.inTasks : HostPC → Bool
  | .taskHead _ | .inTask _ => true
  | _ => false

/-- The error that `stopAll` reports for the result of `Start`, if any: not
for the service whose exit was reported as the cause, and not for a service
that stopped because its context was canceled. -/
def shutdownFailure (causeIndex : Option Nat) (i : Nat) : Result → Result
  | none => none
  | some err => if causeIndex ≠ some i ∧ err.canceled = false then some err else none

variable {h : Host}

/-! ## `runStartupTasks` -/

def taskGuard (s : State h) : TaskAct → Bool
  | .canceled k => decide (s.pc = .taskHead k ∧ k < h.tasks.length ∧ s.taskCtx.isSome)
  | .call k => decide (s.pc = .taskHead k ∧ k < h.tasks.length ∧ s.taskCtx = none)
  | .result k _ ctxDone => decide (s.pc = .inTask k ∧ s.taskCtx.isSome = ctxDone)
  | .allDone k => decide (s.pc = .taskHead k ∧ ¬ k < h.tasks.length)

/-- `return true, nil`: a clean abort. -/
@[simp] def abortStartup (s : State h) : State h :=
  { s with startupAborted := true, pc := .launchHead 0 }

def taskEffect (s : State h) : TaskAct → State h
  | .canceled _ => abortStartup s
  | .call k => s.goto (.inTask k)
  | .result k o ctxDone =>
      match safeTask o with
      | none => s.goto (.taskHead (k + 1))
      | some taskErr =>
          if taskErr.canceled ∧ ctxDone then abortStartup s
          else abortStartup (s.addErr (.taskFailed k taskErr))
  | .allDone _ => s.goto (.launchHead 0)

/-! ## `RunContext` -/

def runGuard (s : State h) : RunAct → Bool
  | .enter => decide (s.pc = .entry)
  | .launch k =>
      decide (s.pc = .launchHead k ∧ k < h.services.length ∧ s.startupAborted = false)
  | .lookReadier k => decide (s.pc = .readierCheck k)
  | .ready k => decide (s.pc = .waitReady k ∧ (s.svc k).ready)
  | .startTimeout k => decide (s.pc = .waitReady k ∧ ∃ due ∈ s.startDue, due ≤ s.now)
  | .takeCtx => decide (s.pc.selects ∧ s.ctx.isSome)
  | .takeShutdown => decide (s.pc.selects ∧ s.shutdownCh)
  | .takeExit exit => decide (s.pc.selects ∧ s.exits.next = some exit)
  | .abortLaunch k => decide (s.pc = .launchHead k ∧ s.startupAborted)
  | .started k =>
      decide (s.pc = .launchHead k ∧ ¬ k < h.services.length ∧ s.startupAborted = false)
  | .beginStopping => decide (s.pc = .stopping)
  | .join => decide (s.pc = .join)
  | .ret => decide (s.pc = .ret)

/-- Leave one of the two selects for the shutdown path; out of the readiness
select this aborts the startup. -/
@[simp] def leaveSelect (s : State h) : State h :=
  { s with
    startupAborted := s.startupAborted || decide (s.pc ≠ .mainSelect)
    pc := .stopping }

/-- `go h.supervise(...)`, with the variables that `supervise` sets up. -/
def spawn (k : Nat) (v : Svc) : Svc :=
  { v with sup := .head, delay := (h.restart k).elim 0 RestartPolicy.initialDelay }

def runEffect (s : State h) : RunAct → State h
  | .enter =>
      { s with
        startDue := if h.startTimeout > 0 then some (s.now + h.startTimeout) else none
        taskCtx := s.ctx
        pc := if h.tasks ≠ [] then .taskHead 0 else .launchHead 0 }
  | .launch k =>
      { s.modSvc k (spawn (h := h) k) with
        launched := s.launched + 1
        pc := .readierCheck k } |>.issue (h.observe (.serviceStarted k))
  | .lookReadier k => s.goto (if h.readier k then .waitReady k else .launchHead (k + 1))
  | .ready k => s.goto (.launchHead (k + 1)) |>.issue (h.observe (.serviceReady k))
  | .startTimeout k => leaveSelect (s.addErr (.notReady k))
  | .takeCtx => leaveSelect s
  | .takeShutdown => leaveSelect s
  | .takeExit exit =>
      leaveSelect
        { s.addErr (exitError exit) with
          exits := s.exits.drop
          causeIndex := some exit.index } |>.issue
        (h.observe (.serviceFailed exit.index exit.err))
  | .abortLaunch _ => s.goto .stopping
  | .started _ =>
      s.goto .mainSelect |>.issue (h.runHooks .onStarted ++ h.observe .hostStarted)
  | .beginStopping =>
      { s with stoppingCh := true, pc := .stopAll } |>.issue (h.runHooks .onStopping)
  | .join => s.goto .ret |>.issue (h.observe (.hostStopped s.errs))
  | .ret => s.goto .returned

/-! ## `stopAll` -/

def stopGuard (s : State h) : StopAct → Bool
  | .enter => decide (s.pc = .stopAll)
  | .cancel i => decide (s.pc = .stopNext (i + 1))
  | .issue i began => decide (s.pc = .issueStop i began)
  | .takeStop i began r =>
      decide (s.pc = .waitStop i began ∧ (s.svc i).stopRes.next = some r)
  | .takeDone i began svcErr r =>
      decide (s.pc = .waitDone i began svcErr ∧ (s.svc i).done.next = some r)
  | .abandon i began => decide (s.pc.awaits = some (i, began) ∧ s.stopDue ≤ s.now)
  | .leave => decide (s.pc = .stopNext 0)

/-- The end of the loop body for service `i`: `ServiceStopped` is called. -/
@[simp] def finishService (s : State h) (i : Nat) (began : Int) (err : Result) : State h :=
  s.goto (.stopNext i) |>.issue (h.observe (.serviceStopped i began err))

def stopEffect (s : State h) : StopAct → State h
  | .enter => { s with stopDue := s.now + h.shutdownTimeout, pc := .stopNext s.launched }
  | .cancel i =>
      s.modSvc i (fun v => { v with ctxDone := true }) |>.goto (.issueStop i s.now)
  | .issue i began =>
      s.modSvc i (fun v => { v with stop := .spawned }) |>.goto (.waitStop i began)
  | .takeStop i began r =>
      let s := s.modSvc i fun v => { v with stopRes := v.stopRes.drop }
      match r with
      | none => s.goto (.waitDone i began none)
      | some err => s.addErr (.stopping i err) |>.goto (.waitDone i began (some err))
  | .takeDone i began svcErr r =>
      let s := s.modSvc i fun v => { v with done := v.done.drop }
      match shutdownFailure s.causeIndex i r with
      | none => finishService s i began svcErr
      | some err =>
          finishService (s.addErr (.failedDuringShutdown i err)) i began
            (some (svcErr.getD err))
  | .abandon i began =>
      finishService (s.addErr (.didNotStop i)) i began (some (didNotStopError h i))
  | .leave => s.goto .join |>.issue (h.runHooks .onStopped)

/-! ## All steps of the host goroutine -/

/-- The step itself is possible, not regarding calls in progress. -/
def hostCan (s : State h) : HostAct → Bool
  | .task a => taskGuard s a
  | .run a => runGuard s a
  | .stop a => stopGuard s a

/-- Every step waits for the calls that the steps before it have made. -/
def hostGuard (s : State h) (a : HostAct) : Bool := s.caller.idle && hostCan s a

def hostEffect (s : State h) : HostAct → State h
  | .task a => taskEffect s a
  | .run a => runEffect s a
  | .stop a => stopEffect s a

end Shost.Ports.Hosting
