import Shost.Ports.HostTypes
import Shost.Verified.Chan

/-!
# The state of a run

One call of `RunContext` is a host goroutine, a supervisor goroutine for each
launched service, a goroutine for each call of `Stop`, and the caller's code.
The state holds the local variables of these goroutines, with the place in the
source where each stands, and what they share: contexts, channels and the
clock.  Services are named by their position in `services`.
-/

namespace Shost.Ports.Hosting

open Shost.Verified

/-- The place of the host goroutine, with the loop variables in scope there. -/
inductive HostPC where
  /-- before `RunContext` is called -/
  | entry
  /-- head of the loop of `runStartupTasks` -/
  | taskHead (k : Nat)
  /-- inside the call of a task -/
  | inTask (k : Nat)
  /-- head of the launch loop -/
  | launchHead (k : Nat)
  /-- service launched, `Readier` not yet looked for -/
  | readierCheck (k : Nat)
  /-- readiness select -/
  | waitReady (k : Nat)
  /-- select of the running host -/
  | mainSelect
  /-- before `close(h.stoppingCh)` -/
  | stopping
  /-- before the call of `stopAll` -/
  | stopAll
  /-- head of the loop of `stopAll`; `n` services are left -/
  | stopNext (n : Nat)
  /-- context canceled, `Stop` not yet called -/
  | issueStop (i : Nat) (began : Int)
  /-- select on the result of `Stop` -/
  | waitStop (i : Nat) (began : Int)
  /-- select on the result of `Start` -/
  | waitDone (i : Nat) (began : Int) (svcErr : Result)
  /-- before `errors.Join` -/
  | join
  /-- before `return err` -/
  | ret
  | returned
  deriving DecidableEq

/-- The place of a supervisor goroutine. -/
inductive SupPC where
  /-- not launched -/
  | unborn
  /-- head of the loop -/
  | head
  /-- inside `Start` -/
  | running (began : Int)
  /-- `Start` has returned -/
  | exited (began : Int) (err : Result)
  /-- in the `ServiceRestarting` callbacks -/
  | observing
  /-- backoff select -/
  | backoff (due : Int)
  /-- before the send to `done`, with or without a send to `exits` after it -/
  | sendDone (err : Result) (report : Bool)
  /-- before the send to `exits` -/
  | sendExit (err : Result)
  | gone
  deriving DecidableEq

/-- The place of the goroutine that calls `Stop`. -/
inductive StopPC where
  | unborn
  | spawned
  | running
  | finished
  deriving DecidableEq

/-- What belongs to one service: its supervisor with the variables `attempts`
and `delay` and the callbacks it makes, its context, its `Ready` channel, the
channel `done[i]`, and the goroutine that calls `Stop` with its `stopRes`. -/
structure Svc where
  sup : SupPC
  caller : Caller
  attempts : Int
  delay : Duration
  ctxDone : Bool
  ready : Bool
  done : Chan Result 1
  stop : StopPC
  stopRes : Chan Result 1

/-- A service before it is launched. -/
def Svc.init : Svc where
  sup := .unborn
  caller := .none
  attempts := 0
  delay := 0
  ctxDone := false
  ready := false
  done := .empty
  stop := .unborn
  stopRes := .empty

/-- The state of a run of a host. -/
structure State (h : Host) where
  now : Int
  ctx : Option CtxErr
  shutdownCh : Bool
  stoppingCh : Bool
  taskCtx : Option CtxErr
  startDue : Option Int
  stopDue : Int
  pc : HostPC
  caller : Caller
  errs : List HostError
  causeIndex : Option Nat
  launched : Nat
  startupAborted : Bool
  exits : Chan ServiceExit h.services.length
  svc : Nat → Svc

/-- The state before `RunContext` is called. -/
def State.init (h : Host) : State h where
  now := 0
  ctx := none
  shutdownCh := false
  stoppingCh := false
  taskCtx := none
  startDue := none
  stopDue := 0
  pc := .entry
  caller := .none
  errs := []
  causeIndex := none
  launched := 0
  startupAborted := false
  exits := .empty
  svc := fun _ => .init

namespace State

variable {h : Host} (s : State h)

/-- Change what belongs to one service. -/
def modSvc (i : Nat) (f : Svc → Svc) : State h :=
  { s with svc := fun j => if j = i then f (s.svc j) else s.svc j }

/-- The host goroutine is to make these calls before it goes on. -/
@[simp] def issue (cs : List Callout) : State h :=
  { s with caller := { s.caller with queue := s.caller.queue ++ cs } }

/-- The host reports an error. -/
@[simp] def addErr (e : HostError) : State h := { s with errs := s.errs ++ [e] }

/-- The host goroutine goes on to another place. -/
@[simp] def goto (pc : HostPC) : State h := { s with pc := pc }

/-- A supervisor sees its context or `stoppingCh` closed. -/
def supStops (i : Nat) : Bool := (s.svc i).ctxDone || s.stoppingCh

end State

section Fields

variable {h : Host} (s : State h) (i : Nat) (f : Svc → Svc)

@[simp] theorem now_modSvc : (s.modSvc i f).now = s.now := rfl
@[simp] theorem ctx_modSvc : (s.modSvc i f).ctx = s.ctx := rfl
@[simp] theorem shutdownCh_modSvc : (s.modSvc i f).shutdownCh = s.shutdownCh := rfl
@[simp] theorem stoppingCh_modSvc : (s.modSvc i f).stoppingCh = s.stoppingCh := rfl
@[simp] theorem taskCtx_modSvc : (s.modSvc i f).taskCtx = s.taskCtx := rfl
@[simp] theorem startDue_modSvc : (s.modSvc i f).startDue = s.startDue := rfl
@[simp] theorem stopDue_modSvc : (s.modSvc i f).stopDue = s.stopDue := rfl
@[simp] theorem pc_modSvc : (s.modSvc i f).pc = s.pc := rfl
@[simp] theorem caller_modSvc : (s.modSvc i f).caller = s.caller := rfl
@[simp] theorem errs_modSvc : (s.modSvc i f).errs = s.errs := rfl
@[simp] theorem causeIndex_modSvc : (s.modSvc i f).causeIndex = s.causeIndex := rfl
@[simp] theorem launched_modSvc : (s.modSvc i f).launched = s.launched := rfl
@[simp] theorem startupAborted_modSvc : (s.modSvc i f).startupAborted = s.startupAborted := rfl
@[simp] theorem exits_modSvc : (s.modSvc i f).exits = s.exits := rfl

theorem svc_modSvc (j : Nat) :
    (s.modSvc i f).svc j = if j = i then f (s.svc j) else s.svc j := rfl

@[simp] theorem svc_modSvc_same : (s.modSvc i f).svc i = f (s.svc i) := by
  simp [svc_modSvc]

theorem svc_modSvc_of_ne {j : Nat} (hj : j ≠ i) : (s.modSvc i f).svc j = s.svc j := by
  simp [svc_modSvc, hj]

end Fields

end Shost.Ports.Hosting
