import Shost.Ports.GoTime
import Shost.Ports.HostTypes
import Shost.Verified.Chan
import Shost.Verified.Lts

/-!
# The cron service

`Start` of a cron service runs a job on the ticks of a ticker (`Every`) or at the
instants of a schedule (`At`).  The system of this file is one call of `Start` with
the clock, the ticker and the context around it.  Time passes between any two steps;
a timer is taken when it is due or later.  What the job and the error handler do is
left to the environment, which chooses when they return and with what.
-/

namespace Shost.Ports.CronService

open Shost.Verified Shost.Ports.Hosting Shost.Ports.GoTime

/-! ## Services and their options -/

/-- `Schedule`: its `Next`. -/
abbrev Schedule := Time → Time

/-- The interval of `Every`, or the schedule of `At`. -/
inductive Timing where
  | every (interval : Duration) (pos : 0 < interval)
  | at (sched : Schedule)

/-- `Service`, with an error handler or without.  The last three fields are what the
constructors and options panic without. -/
structure Service where
  name : String
  timing : Timing
  immediate : Bool
  stopOnError : Bool
  onError : Bool
  jitter : Duration
  runTimeout : Duration
  name_ne : name ≠ ""
  jitter_nonneg : 0 ≤ jitter
  runTimeout_nonneg : 0 ≤ runTimeout

/-- `Option`; the argument of `WithErrorHandler` may be nil. -/
inductive Opt where
  | runImmediately
  | stopOnError
  | withErrorHandler (isSet : Bool)
  | withJitter (d : Duration) (nonneg : 0 ≤ d)
  | withRunTimeout (d : Duration) (pos : 0 < d)

def Opt.apply (svc : Service) : Opt → Service
  | .runImmediately => { svc with immediate := true }
  | .stopOnError => { svc with stopOnError := true }
  | .withErrorHandler isSet => { svc with onError := isSet }
  | .withJitter d nonneg => { svc with jitter := d, jitter_nonneg := nonneg }
  | .withRunTimeout d pos => { svc with runTimeout := d, runTimeout_nonneg := pos.le }

/-- The service before its options. -/
def Service.new (name : String) (hname : name ≠ "") (timing : Timing) : Service where
  name := name
  timing := timing
  immediate := false
  stopOnError := false
  onError := false
  jitter := 0
  runTimeout := 0
  name_ne := hname
  jitter_nonneg := le_rfl
  runTimeout_nonneg := le_rfl

/-- `Every` -/
def every (name : String) (hname : name ≠ "") (interval : Duration) (pos : 0 < interval)
    (opts : List Opt) : Service :=
  opts.foldl Opt.apply (.new name hname (.every interval pos))

/-- `At` -/
def at' (name : String) (hname : name ≠ "") (sched : Schedule) (opts : List Opt) : Service :=
  opts.foldl Opt.apply (.new name hname (.at sched))

/-- `Next` of the schedule. -/
def Service.next (svc : Service) : Schedule :=
  match svc.timing with
  | .every _ _ => fun _ => Time.zero
  | .at sched => sched

/-! ## Clocks and timers -/

/-- The largest `time.Duration`. -/
def maxDuration : Duration := 2 ^ 63 - 1

/-- `time.Until`, which saturates. -/
def timeUntil (t now : Time) : Duration :=
  max (-2 ^ 63) (min (t.abs - now.abs) maxDuration)

/-- `time.Ticker`: when it fires next, and its period. -/
structure Ticker where
  due : Int
  period : Duration
  deriving DecidableEq

/-- `time.NewTicker` -/
def newTicker (now : Time) (period : Duration) : Ticker := ⟨now.abs + period, period⟩

/-- The ticker after it has fired: periods that have passed meanwhile are left out. -/
def Ticker.fired (t : Ticker) (now : Time) : Ticker :=
  { t with due := t.due + t.period * (1 + (now.abs - t.due) / t.period) }

/-! ## `Start` -/

/-- The call of `run` that is in progress: the immediate one, one of the loop of
`Every`, or one of the loop of `At`. -/
inductive Cause where
  | immediate
  | tick
  | instant (next : Time)
  deriving DecidableEq

/-- The place of `Start`. -/
inductive PC where
  | entry
  /-- before the ticker or the timer is created -/
  | setup
  /-- receive from the first timer, which is set to no time at all -/
  | firstTimer (due : Int)
  | readClock
  /-- before `time.Until` -/
  | untilNext (next : Time)
  /-- before `Reset` -/
  | reset (next : Time) (d : Duration)
  /-- select on the context and the timer -/
  | waitTimer (next : Time) (due : Int)
  /-- receive from the context, the schedule never fires again -/
  | parked
  /-- select on the context and the ticker -/
  | waitTick
  /-- at the beginning of `run` -/
  | enterRun (c : Cause)
  /-- select on the context and the jitter delay -/
  | jitter (c : Cause) (due : Int)
  /-- before the context of the run is made -/
  | timeout (c : Cause)
  /-- before the call of the job -/
  | call (c : Cause) (deadline : Option Int)
  | job (c : Cause) (deadline : Option Int)
  /-- before the call of the error handler -/
  | report (c : Cause) (err : Error)
  /-- in the error handler -/
  | handler (c : Cause) (err : Error)
  /-- `run` returns -/
  | runEnds (c : Cause) (err : Result)
  | returned (r : Result)
  deriving DecidableEq

/-- The state of a call of `Start`: the clock, the error of its context once that is
done, the ticker and its channel. -/
structure State where
  now : Time
  ctx : Option CtxErr
  ticker : Option Ticker
  ticks : Chan Int 1
  pc : PC

/-- `Start` is called. -/
def State.init (now : Time) : State where
  now := now
  ctx := none
  ticker := none
  ticks := .empty
  pc := .entry

/-- The actions: the passing of time, the end of the context, the firing of the ticker,
and the steps of `Start`.  The return of the job is given with its deadline and the
time, that of `run` with the time. -/
inductive Action where
  | wait (d : Duration)
  | cancel (e : CtxErr)
  | tick (t : Ticker)
  | begin
  | setup
  | takeFirst (due : Int)
  | readClock (t : Time)
  | untilNext (next : Time)
  | reset (next : Time) (d : Duration)
  | takeTick (time : Int)
  | takeTimer (next : Time) (due : Int)
  | takeCtx (e : CtxErr)
  | enterRun (c : Cause) (delay : Duration)
  | takeDelay (c : Cause) (due : Int)
  | giveUp (c : Cause) (due : Int) (e : CtxErr)
  | setTimeout (c : Cause)
  | callJob (c : Cause) (deadline : Option Int)
  | jobEnds (c : Cause) (deadline : Option Int) (time : Int) (o : Outcome)
  | callHandler (c : Cause) (err : Error)
  | handlerReturns (c : Cause) (err : Error)
  | runEnds (c : Cause) (err : Result) (time : Int)
  deriving DecidableEq

/-- The loops wait for the end of the context here. -/
def PC.awaitsCtx : PC → Bool
  | .waitTimer _ _ | .parked | .waitTick => true
  | _ => false

/-- A call of `run` is in progress. -/
def PC.inRun : PC → Bool
  | .enterRun _ | .jitter _ _ | .timeout _ | .call _ _ | .job _ _ | .report _ _ | .handler _ _
  | .runEnds _ _ => true
  | _ => false

/-- The delays `run` can draw; without jitter it draws none. -/
def Service.draws (svc : Service) (delay : Duration) : Prop :=
  0 ≤ delay ∧ (delay < svc.jitter ∨ svc.jitter = 0 ∧ delay = 0)

instance (svc : Service) (delay : Duration) : Decidable (svc.draws delay) :=
  inferInstanceAs (Decidable (_ ∧ _))

def guard (svc : Service) (s : State) : Action → Bool
  | .wait d => decide (0 ≤ d)
  | .cancel _ => decide (s.ctx = none)
  | .tick t => decide (s.ticker = some t ∧ t.due ≤ s.now.abs)
  | .begin => decide (s.pc = .entry)
  | .setup => decide (s.pc = .setup)
  | .takeFirst due => decide (s.pc = .firstTimer due ∧ due ≤ s.now.abs)
  | .readClock t => decide (s.pc = .readClock ∧ s.now = t)
  | .untilNext next => decide (s.pc = .untilNext next)
  | .reset next d => decide (s.pc = .reset next d)
  | .takeTick time => decide (s.pc = .waitTick ∧ s.ticks.next = some time)
  | .takeTimer next due => decide (s.pc = .waitTimer next due ∧ due ≤ s.now.abs)
  | .takeCtx e => decide (s.pc.awaitsCtx ∧ s.ctx = some e)
  | .enterRun c delay => decide (s.pc = .enterRun c ∧ svc.draws delay)
  | .takeDelay c due => decide (s.pc = .jitter c due ∧ due ≤ s.now.abs)
  | .giveUp c due e => decide (s.pc = .jitter c due ∧ s.ctx = some e)
  | .setTimeout c => decide (s.pc = .timeout c)
  | .callJob c deadline => decide (s.pc = .call c deadline)
  | .jobEnds c deadline time _ => decide (s.pc = .job c deadline ∧ s.now.abs = time)
  | .callHandler c err => decide (s.pc = .report c err)
  | .handlerReturns c err => decide (s.pc = .handler c err)
  | .runEnds c err time => decide (s.pc = .runEnds c err ∧ s.now.abs = time)

/-- The error of a run, after the deferred recovery. -/
def Service.jobError (svc : Service) : Outcome → Result :=
  recovered ("cron: panic in job " ++ svc.name ++ ": ")

/-- The place behind the job: the deferred function reports an error, if there is a
handler. -/
def Service.afterJob (svc : Service) (c : Cause) : Result → PC
  | some err => if svc.onError then .report c err else .runEnds c (some err)
  | none => .runEnds c none

/-- The place at which the caller of `run` goes on. -/
def Cause.goesOn : Cause → PC
  | .immediate => .setup
  | .tick => .waitTick
  | .instant _ => .readClock

/-- `Start` returns, and stops the ticker. -/
def State.ret (s : State) (r : Result) : State := { s with ticker := none, pc := .returned r }

def effect (svc : Service) (s : State) : Action → State
  | .wait d => { s with now := s.now.add d }
  | .cancel e => { s with ctx := some e }
  | .tick t => { s with ticker := some (t.fired s.now), ticks := s.ticks.send s.now.abs }
  | .begin => { s with pc := if svc.immediate then .enterRun .immediate else .setup }
  | .setup =>
      match svc.timing with
      | .every interval _ => { s with ticker := some (newTicker s.now interval), pc := .waitTick }
      | .at _ => { s with pc := .firstTimer s.now.abs }
  | .takeFirst _ => { s with pc := .readClock }
  | .readClock t =>
      { s with pc := if (svc.next t).isZero then .parked else .untilNext (svc.next t) }
  | .untilNext next => { s with pc := .reset next (timeUntil next s.now) }
  | .reset next d => { s with pc := .waitTimer next (s.now.abs + d) }
  | .takeTick _ => { s with ticks := s.ticks.drop, pc := .enterRun .tick }
  | .takeTimer next _ => { s with pc := .enterRun (.instant next) }
  | .takeCtx e => s.ret (some e.error)
  | .enterRun c delay =>
      { s with pc := if 0 < svc.jitter then .jitter c (s.now.abs + delay) else .timeout c }
  | .takeDelay c _ => { s with pc := .timeout c }
  | .giveUp c _ e => { s with pc := .runEnds c (some e.error) }
  | .setTimeout c =>
      { s with
        pc := .call c (if 0 < svc.runTimeout then some (s.now.abs + svc.runTimeout) else none) }
  | .callJob c deadline => { s with pc := .job c deadline }
  | .jobEnds c _ _ o => { s with pc := svc.afterJob c (svc.jobError o) }
  | .callHandler c err => { s with pc := .handler c err }
  | .handlerReturns c err => { s with pc := .runEnds c (some err) }
  | .runEnds c err _ =>
      if err ≠ none ∧ svc.stopOnError then s.ret err else { s with pc := c.goesOn }

/-- One call of `Start`. -/
def system (svc : Service) : Lts State Action where
  guard := guard svc
  effect := effect svc

/-- A run of `Start`, from the moment of the call on. -/
abbrev Run (svc : Service) (now : Time) (τ : List Action) (s : State) : Prop :=
  (system svc).Runs (State.init now) τ s

/-- A run of `Start` all steps of which satisfy a condition. -/
abbrev RunIf (svc : Service) (ok : State → Action → Prop) (now : Time) (τ : List Action)
    (s : State) : Prop :=
  (system svc).Run ok (State.init now) τ s

/-! ## Where a step leads -/

/-- The places that a step of `Start` leads from and to, at a time; one constructor for
each branch of the source. -/
inductive PCStep (svc : Service) (now : Time) : Action → PC → PC → Prop
  | wait (pc : PC) {d : Duration} : PCStep svc now (.wait d) pc pc
  | cancel (pc : PC) {e : CtxErr} : PCStep svc now (.cancel e) pc pc
  | tick (pc : PC) {t : Ticker} : PCStep svc now (.tick t) pc pc
  | immediate (himm : svc.immediate = true) :
      PCStep svc now .begin .entry (.enterRun .immediate)
  | begin (himm : svc.immediate = false) : PCStep svc now .begin .entry .setup
  | newTicker {interval : Duration} {pos : 0 < interval}
      (htiming : svc.timing = .every interval pos) :
      PCStep svc now .setup .setup .waitTick
  | newTimer {sched : Schedule} (htiming : svc.timing = .at sched) :
      PCStep svc now .setup .setup (.firstTimer now.abs)
  | takeFirst {due : Int} : PCStep svc now (.takeFirst due) (.firstTimer due) .readClock
  | parks (hzero : (svc.next now).isZero = true) :
      PCStep svc now (.readClock now) .readClock .parked
  | fires (hzero : (svc.next now).isZero = false) :
      PCStep svc now (.readClock now) .readClock (.untilNext (svc.next now))
  | untilNext {next : Time} :
      PCStep svc now (.untilNext next) (.untilNext next) (.reset next (timeUntil next now))
  | reset {next : Time} {d : Duration} :
      PCStep svc now (.reset next d) (.reset next d) (.waitTimer next (now.abs + d))
  | takeTick {time : Int} : PCStep svc now (.takeTick time) .waitTick (.enterRun .tick)
  | takeTimer {next : Time} {due : Int} :
      PCStep svc now (.takeTimer next due) (.waitTimer next due) (.enterRun (.instant next))
  | takeCtx {pc : PC} (e : CtxErr) (hwaits : pc.awaitsCtx = true) :
      PCStep svc now (.takeCtx e) pc (.returned (some e.error))
  | delays {c : Cause} {delay : Duration} (hpos : 0 < svc.jitter) :
      PCStep svc now (.enterRun c delay) (.enterRun c) (.jitter c (now.abs + delay))
  | noDelay {c : Cause} {delay : Duration} (hzero : ¬0 < svc.jitter) :
      PCStep svc now (.enterRun c delay) (.enterRun c) (.timeout c)
  | takeDelay {c : Cause} {due : Int} :
      PCStep svc now (.takeDelay c due) (.jitter c due) (.timeout c)
  | giveUp {c : Cause} {due : Int} (e : CtxErr) :
      PCStep svc now (.giveUp c due e) (.jitter c due) (.runEnds c (some e.error))
  | setTimeout {c : Cause} :
      PCStep svc now (.setTimeout c) (.timeout c)
        (.call c (if 0 < svc.runTimeout then some (now.abs + svc.runTimeout) else none))
  | callJob {c : Cause} {deadline : Option Int} :
      PCStep svc now (.callJob c deadline) (.call c deadline) (.job c deadline)
  | succeeds {c : Cause} {deadline : Option Int} {o : Outcome} (hjob : svc.jobError o = none) :
      PCStep svc now (.jobEnds c deadline now.abs o) (.job c deadline) (.runEnds c none)
  | reports {c : Cause} {deadline : Option Int} {o : Outcome} {err : Error}
      (hjob : svc.jobError o = some err) (hon : svc.onError = true) :
      PCStep svc now (.jobEnds c deadline now.abs o) (.job c deadline) (.report c err)
  | fails {c : Cause} {deadline : Option Int} {o : Outcome} {err : Error}
      (hjob : svc.jobError o = some err) (hon : svc.onError = false) :
      PCStep svc now (.jobEnds c deadline now.abs o) (.job c deadline) (.runEnds c (some err))
  | callHandler {c : Cause} {err : Error} :
      PCStep svc now (.callHandler c err) (.report c err) (.handler c err)
  | handlerReturns {c : Cause} {err : Error} :
      PCStep svc now (.handlerReturns c err) (.handler c err) (.runEnds c (some err))
  | stops {c : Cause} {err : Error} (hstop : svc.stopOnError = true) :
      PCStep svc now (.runEnds c (some err) now.abs) (.runEnds c (some err))
        (.returned (some err))
  | goesOn {c : Cause} {r : Result} (hgo : r = none ∨ svc.stopOnError = false) :
      PCStep svc now (.runEnds c r now.abs) (.runEnds c r) c.goesOn

theorem pcStep_of_guard {svc : Service} {s : State} {a : Action} (hg : guard svc s a = true) :
    PCStep svc s.now a s.pc (effect svc s a).pc := by
  cases a with
  | wait d => exact .wait s.pc
  | cancel e => exact .cancel s.pc
  | tick t => exact .tick s.pc
  | begin =>
      rw [(of_decide_eq_true hg : s.pc = .entry)]
      cases himm : svc.immediate with
      | true => simpa [effect, himm] using PCStep.immediate himm
      | false => simpa [effect, himm] using PCStep.begin himm
  | setup =>
      rw [(of_decide_eq_true hg : s.pc = .setup)]
      cases htiming : svc.timing with
      | every interval pos => simpa [effect, htiming] using PCStep.newTicker htiming
      | «at» sched => simpa [effect, htiming] using PCStep.newTimer htiming
  | takeFirst due =>
      rw [(of_decide_eq_true hg : s.pc = .firstTimer due ∧ _).1]
      exact .takeFirst
  | readClock t =>
      obtain ⟨hpc, rfl⟩ : s.pc = .readClock ∧ s.now = t := of_decide_eq_true hg
      rw [hpc]
      cases hzero : (svc.next s.now).isZero with
      | true => simpa [effect, hzero] using PCStep.parks hzero
      | false => simpa [effect, hzero] using PCStep.fires hzero
  | untilNext next =>
      rw [(of_decide_eq_true hg : s.pc = .untilNext next)]
      exact .untilNext
  | reset next d =>
      rw [(of_decide_eq_true hg : s.pc = .reset next d)]
      exact .reset
  | takeTick time =>
      rw [(of_decide_eq_true hg : s.pc = .waitTick ∧ _).1]
      exact .takeTick
  | takeTimer next due =>
      rw [(of_decide_eq_true hg : s.pc = .waitTimer next due ∧ _).1]
      exact .takeTimer
  | takeCtx e => exact .takeCtx e (of_decide_eq_true hg : s.pc.awaitsCtx = true ∧ _).1
  | enterRun c delay =>
      rw [(of_decide_eq_true hg : s.pc = .enterRun c ∧ _).1]
      by_cases hpos : 0 < svc.jitter
      · simpa [effect, hpos] using PCStep.delays hpos
      · simpa [effect, hpos] using PCStep.noDelay hpos
  | takeDelay c due =>
      rw [(of_decide_eq_true hg : s.pc = .jitter c due ∧ _).1]
      exact .takeDelay
  | giveUp c due e =>
      rw [(of_decide_eq_true hg : s.pc = .jitter c due ∧ _).1]
      exact .giveUp e
  | setTimeout c =>
      rw [(of_decide_eq_true hg : s.pc = .timeout c)]
      exact .setTimeout
  | callJob c deadline =>
      rw [(of_decide_eq_true hg : s.pc = .call c deadline)]
      exact .callJob
  | jobEnds c deadline time o =>
      obtain ⟨hpc, rfl⟩ : s.pc = .job c deadline ∧ s.now.abs = time := of_decide_eq_true hg
      rw [hpc]
      cases hjob : svc.jobError o with
      | none => simpa [effect, Service.afterJob, hjob] using PCStep.succeeds hjob
      | some err =>
          cases hon : svc.onError with
          | true => simpa [effect, Service.afterJob, hjob, hon] using PCStep.reports hjob hon
          | false => simpa [effect, Service.afterJob, hjob, hon] using PCStep.fails hjob hon
  | callHandler c err =>
      rw [(of_decide_eq_true hg : s.pc = .report c err)]
      exact .callHandler
  | handlerReturns c err =>
      rw [(of_decide_eq_true hg : s.pc = .handler c err)]
      exact .handlerReturns
  | runEnds c r time =>
      obtain ⟨hpc, rfl⟩ : s.pc = .runEnds c r ∧ s.now.abs = time := of_decide_eq_true hg
      rw [hpc]
      cases hstop : svc.stopOnError with
      | false => simpa [effect, hstop] using PCStep.goesOn (Or.inr hstop)
      | true =>
          cases r with
          | none => simpa [effect] using PCStep.goesOn (Or.inl rfl)
          | some err => simpa [effect, hstop, State.ret] using PCStep.stops hstop

end Shost.Ports.CronService
