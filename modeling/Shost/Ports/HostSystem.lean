import Shost.Ports.HostLoop
import Shost.Ports.HostSupervise
import Shost.Verified.Lts

/-!
# The system of a run

All goroutines of a run and the caller's code that they wait for, as one
guarded transition system.  A run from `State.init h` is any interleaving of
their steps; its history is the list of the actions taken, and every claim
about the order of events is one about this history.
-/

namespace Shost.Ports.Hosting

open Shost.Verified

/-- Steps of the surroundings: time passes, `RunContext`'s context is done,
`Shutdown` is called, a `Ready` channel is closed. -/
inductive EnvAct where
  | tick (d : Duration)
  | cancelCtx (e : CtxErr)
  | shutdown
  | closeReady (i : Nat)
  deriving DecidableEq

/-- A goroutine that makes hook or observer calls. -/
inductive Actor where
  | host
  | sup (i : Nat)
  deriving DecidableEq

/-- A hook or observer call begins or ends.  A panic of the call is recovered. -/
inductive CallAct where
  | begins (c : Callout)
  | ends (c : Callout) (panicked : Bool)
  deriving DecidableEq

/-- The actions of the system.  `watch` is the context package and the
goroutine of `runStartupTasks` passing a shutdown trigger on to `taskCtx`. -/
inductive Action where
  | env (a : EnvAct)
  | watch (e : CtxErr)
  | call (who : Actor) (a : CallAct)
  | host (a : HostAct)
  | sup (i : Nat) (a : SupAct)
  | stopper (i : Nat) (a : StopperAct)
  deriving DecidableEq

variable {h : Host}

/-- A shutdown trigger has occurred. -/
def State.triggered (s : State h) : Bool := s.ctx.isSome || s.shutdownCh

def envGuard (s : State h) : EnvAct → Bool
  | .tick d => decide (0 ≤ d)
  | .cancelCtx _ => decide (s.ctx = none)
  | .shutdown => true
  | .closeReady i => decide (i < h.services.length ∧ (s.svc i).ready = false)

def envEffect (s : State h) : EnvAct → State h
  | .tick d => { s with now := s.now + d }
  | .cancelCtx e => { s with ctx := some e }
  | .shutdown => { s with shutdownCh := true }
  | .closeReady i => s.modSvc i fun v => { v with ready := true }

/-- `taskCtx` is derived from `ctx`, and the goroutine cancels it after
`Shutdown`. -/
def watchGuard (s : State h) (e : CtxErr) : Bool :=
  decide (s.pc.inTasks ∧ s.taskCtx = none ∧
    (s.ctx = some e ∨ s.shutdownCh ∧ e = .canceled))

def State.callerOf (s : State h) : Actor → Caller
  | .host => s.caller
  | .sup i => (s.svc i).caller

def State.setCaller (s : State h) (c : Caller) : Actor → State h
  | .host => { s with caller := c }
  | .sup i => s.modSvc i fun v => { v with caller := c }

def callGuard (s : State h) (who : Actor) : CallAct → Bool
  | .begins c =>
      decide ((s.callerOf who).current = none ∧ (s.callerOf who).queue.head? = some c)
  | .ends c _ => decide ((s.callerOf who).current = some c)

def callEffect (s : State h) (who : Actor) : CallAct → State h
  | .begins _ => s.setCaller (s.callerOf who).begin' who
  | .ends _ _ => s.setCaller (s.callerOf who).finish who

/-- The run of a host as a transition system. -/
def system (h : Host) : Lts (State h) Action where
  guard s
    | .env a => envGuard s a
    | .watch e => watchGuard s e
    | .call who a => callGuard s who a
    | .host a => hostGuard s a
    | .sup i a => supGuard s i a
    | .stopper i a => stopperGuard s i a
  effect s
    | .env a => envEffect s a
    | .watch e => { s with taskCtx := some e }
    | .call who a => callEffect s who a
    | .host a => hostEffect s a
    | .sup i a => supEffect s i a
    | .stopper i a => stopperEffect s i a

/-- A run of the host with its history. -/
abbrev Run (h : Host) (τ : List Action) (s : State h) : Prop :=
  (system h).Runs (State.init h) τ s

/-- A run all steps of which satisfy `ok`. -/
abbrev RunIf (h : Host) (ok : State h → Action → Prop) (τ : List Action) (s : State h) :
    Prop :=
  (system h).Run ok (State.init h) τ s

end Shost.Ports.Hosting
