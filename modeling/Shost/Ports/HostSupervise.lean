import Shost.Ports.HostState
import Shost.Verified.Binary

/-!
# The goroutines of a service

The steps of `supervise`, which calls `Start` and restarts it, and of the
goroutine that `stopAll` spawns to call `Stop`.  A step is an action with a
guard and an effect, as for the host goroutine; the variables in scope at a
place are arguments of the actions possible there.
-/

namespace Shost.Ports.Hosting

open Shost.Verified

/-- Steps of `supervise`. -/
inductive SupAct where
  /-- `began := time.Now()` and the call of `Start` -/
  | start
  | result (began : Int) (o : Outcome)
  /-- what the loop body does once `Start` has returned -/
  | check (began : Int) (err : Result)
  | wait
  | stopWaiting (due : Int)
  | restart (due : Int) (raw : Duration)
  | sendDone (err : Result) (report : Bool)
  | sendExit (err : Result)
  deriving DecidableEq

/-- Steps of the goroutine that calls `Stop`. -/
inductive StopperAct where
  | call
  | result (o : Outcome)
  deriving DecidableEq

/-- `float64(delay) * pol.Factor`: the conversion rounds to 53 bits, and so does the product.
A product too large for the exponents of the type is out of the range of `int64` anyway. -/
def delayProduct (pol : RestartPolicy) (delay : Duration) : ℚ :=
  Binary.nearest 53 (Binary.nearest 53 delay * pol.factor)

/-- `time.Duration(float64(delay) * pol.Factor)`, where a product outside the
range of the type becomes an unspecified value `raw`, then the cap. -/
def nextDelay (pol : RestartPolicy) (delay raw : Duration) : Duration :=
  let product := delayProduct pol delay
  let delay : Duration :=
    if -(2 : ℚ) ^ 63 ≤ product ∧ product < (2 : ℚ) ^ 63 then
      product.num.tdiv product.den
    else raw
  if delay > pol.maxDelay then pol.maxDelay else delay

/-- A value of an `int64`. -/
def inInt64 (x : Int) : Prop := -2 ^ 63 ≤ x ∧ x < 2 ^ 63

instance (x : Int) : Decidable (inInt64 x) := inferInstanceAs (Decidable (_ ∧ _))

variable {h : Host}

/-! ## `supervise` -/

def supGuard (s : State h) (i : Nat) : SupAct → Bool
  | .start => decide ((s.svc i).sup = .head)
  | .result began _ => decide ((s.svc i).sup = .running began)
  | .check began err => decide ((s.svc i).sup = .exited began err)
  | .wait => decide ((s.svc i).sup = .observing ∧ (s.svc i).caller.idle)
  | .stopWaiting due => decide ((s.svc i).sup = .backoff due ∧ s.supStops i)
  | .restart due raw =>
      decide ((s.svc i).sup = .backoff due ∧ due ≤ s.now ∧ inInt64 raw)
  | .sendDone err report =>
      decide ((s.svc i).sup = .sendDone err report ∧ (s.svc i).done.hasRoom)
  | .sendExit err => decide ((s.svc i).sup = .sendExit err ∧ s.exits.hasRoom)

/-- The attempt counter and the delay after a run that has taken `ran`. -/
def resetAttempts (pol : RestartPolicy) (ran : Duration) (v : Svc) : Svc :=
  if ran ≥ pol.resetAfter then { v with attempts := 0, delay := pol.initialDelay } else v

/-- The policy decides between another restart and giving up. -/
def applyPolicy (h : Host) (i : Nat) (pol : RestartPolicy) (err : Result) (v : Svc) : Svc :=
  let attempts := v.attempts + 1
  if pol.maxAttempts > 0 ∧ attempts > pol.maxAttempts then
    { v with attempts := attempts, sup := .sendDone err true }
  else
    { v with
      attempts := attempts
      sup := .observing
      caller := ⟨h.observe (.serviceRestarting i attempts v.delay err), none⟩ }

/-- The loop body from the return of `Start` on: `stops` tells whether the
supervisor sees its context or `stoppingCh` closed. -/
def checkExit (h : Host) (i : Nat) (stops : Bool) (ran : Duration) (err : Result)
    (v : Svc) : Svc :=
  if stops then { v with sup := .sendDone err false }
  else
    match h.restart i with
    | none => { v with sup := .sendDone err true }
    | some pol => applyPolicy h i pol err (resetAttempts pol ran v)

/-- The head of the loop is reached again after a backoff. -/
def restartHead (h : Host) (i : Nat) (raw : Duration) (v : Svc) : Svc :=
  { v with
    sup := .head
    delay := (h.restart i).elim v.delay fun pol => nextDelay pol v.delay raw }

def supEffect (s : State h) (i : Nat) : SupAct → State h
  | .start => s.modSvc i fun v => { v with sup := .running s.now }
  | .result began o => s.modSvc i fun v => { v with sup := .exited began (safeStart o) }
  | .check began err => s.modSvc i (checkExit h i (s.supStops i) (s.now - began) err)
  | .wait => s.modSvc i fun v => { v with sup := .backoff (s.now + v.delay) }
  | .stopWaiting _ => s.modSvc i fun v => { v with sup := .sendDone none false }
  | .restart _ raw => s.modSvc i (restartHead h i raw)
  | .sendDone err report =>
      s.modSvc i fun v =>
        { v with
          done := v.done.send err
          sup := if report then .sendExit err else .gone }
  | .sendExit err =>
      { s.modSvc i fun v => { v with sup := .gone } with exits := s.exits.send ⟨i, err⟩ }

/-! ## The goroutine that calls `Stop` -/

def stopperGuard (s : State h) (i : Nat) : StopperAct → Bool
  | .call => decide ((s.svc i).stop = .spawned)
  | .result _ => decide ((s.svc i).stop = .running ∧ (s.svc i).stopRes.hasRoom)

def stopperEffect (s : State h) (i : Nat) : StopperAct → State h
  | .call => s.modSvc i fun v => { v with stop := .running }
  | .result o =>
      s.modSvc i fun v =>
        { v with stop := .finished, stopRes := v.stopRes.send (safeStop o) }

end Shost.Ports.Hosting
