import Shost.Ports.ServiceContract
import Shost.Verified.Chan
import Mathlib.Logic.Function.Basic

/-!
# The server services

The packages `httpsvc` and `grpcsvc` run a server that is built once, by `New`.  Each
call of `Start` opens a listener, publishes its address, signals readiness and waits for
`Serve`, which it calls in a goroutine of its own; `Stop` tells the server to stop and
waits for its connections, until the deadline of its context.  `Start` is the same in
both packages but for the errors with which `Serve` ends; `Stop` is not: `http.Server`
waits in `Shutdown`, while `grpc.Server` drains in a goroutine that `Stop` has to join.

The host is the contract: it makes those calls that the contract allows, in any order
and as often as a restart policy makes it.

## Main results

* `serves_of_run` — what readiness, connections and results mean in every run.
-/

namespace Shost.Ports.Serving

open Shost.Verified Trace Shost.Ports.Hosting

inductive Package where
  | httpsvc
  | grpcsvc
  deriving DecidableEq

def Package.name : Package → String
  | .httpsvc => "httpsvc"
  | .grpcsvc => "grpcsvc"

/-- What `Serve` returns: the error of a server that was told to stop
(`http.ErrServerClosed`, `grpc.ErrServerStopped`), nil, or another error. -/
inductive ServeEnd where
  | stopped
  | nil
  | failed (err : Error)
  deriving DecidableEq

/-- `Serve` of a server that was told to stop, or was not.  Only that of package `grpc`
returns nil. -/
def ServeEnd.fits (p : Package) (told : Bool) : ServeEnd → Bool
  | .stopped => told
  | .nil => told && decide (p = .grpcsvc)
  | .failed _ => !told

/-- The place of the calls of `Start`. -/
inductive StartPC where
  /-- no call in progress -/
  | idle
  /-- in `net.Listen` -/
  | listening
  /-- before the address is stored -/
  | storing (addr : String)
  /-- before `readyOnce.Do` -/
  | announcing
  /-- before the goroutine is spawned -/
  | spawning
  /-- select on `serveErr` and the context -/
  | serving
  /-- the context is done, receive from `serveErr` -/
  | draining
  deriving DecidableEq

/-- The place of the goroutine that calls `Serve`. -/
inductive ServePC where
  | unborn
  | serving
  | ended
  deriving DecidableEq

/-- The place of `Stop`. -/
inductive StopPC where
  | uncalled
  | called
  /-- `httpsvc`: in `Shutdown` -/
  | shutting
  /-- `httpsvc`: before `Close` -/
  | closing (err : Error)
  /-- `grpcsvc`: select on `done` and the context -/
  | selecting
  /-- `grpcsvc`: before the call of the server's `Stop` -/
  | stopping (e : CtxErr)
  /-- `grpcsvc`: receive from `done` -/
  | joining (e : CtxErr)
  | returned (r : Result)
  deriving DecidableEq

/-- The place of the goroutine that calls `GracefulStop`. -/
inductive GracePC where
  | unborn
  | spawned
  | draining
  /-- `done` is closed -/
  | ended
  deriving DecidableEq

/-- `Service`, its server, its goroutines, and where it stands with its host. -/
structure State where
  deal : Deal
  calls : Nat
  start : StartPC
  serve : Nat → ServePC
  serveErr : Nat → Chan ServeEnd 1
  /-- the server was told to stop -/
  told : Bool
  conns : Nat
  addr : Option String
  readyOnce : Bool
  /-- how often the channel `ready` has been closed -/
  ready : Nat
  stop : StopPC
  graceful : GracePC
  /-- the context of `Stop` -/
  stopCtx : Option CtxErr

def State.init : State where
  deal := .init
  calls := 0
  start := .idle
  serve := fun _ => .unborn
  serveErr := fun _ => .empty
  told := false
  conns := 0
  addr := none
  readyOnce := false
  ready := 0
  stop := .uncalled
  graceful := .unborn
  stopCtx := none

/-- The actions: the calls of the host, the end of the context of `Stop`, connections
that are accepted and closed, the steps of `Start`, of `Serve` and of `Stop`. -/
inductive Action where
  | start
  | shutdown
  | cancel
  | stop
  | expire (e : CtxErr)
  | accept
  | hangUp
  | listened (addr : String)
  | listenFailed (err : Error)
  | store (addr : String)
  | announce
  | spawn
  | takeServe (drained : Bool) (e : ServeEnd)
  | takeCtx
  | serveEnds (n : Nat) (e : ServeEnd)
  | httpShutdown
  | shutdownEnds (r : Result)
  | httpClose (err : Error)
  | goGraceful
  | gracefulStop
  | gracefulEnds
  | takeDone
  | takeExpiry (e : CtxErr)
  | grpcStop (e : CtxErr)
  | joined (e : CtxErr)
  deriving DecidableEq

/-- The call of `Start` waits for `Serve`. -/
def StartPC.waits : StartPC → Bool
  | .serving | .draining => true
  | _ => false

/-- An error of one of the contexts. -/
def isCtxErr : Result → Bool
  | none => false
  | some err => err.deadlineExceeded || err.canceled

/-- The result of `Start` when `Serve` has returned, `drained` on the branch of
`ctx.Done`. -/
def startResult (p : Package) (drained : Bool) : ServeEnd → Result
  | .stopped => if drained then some CtxErr.canceled.error else none
  | .nil => if drained ∧ p = .grpcsvc then some CtxErr.canceled.error else none
  | .failed err => some err

def listenError (p : Package) (addr : String) (err : Error) : Error :=
  err.wrap (p.name ++ ": listen " ++ addr ++ ": ")

def timedOut (p : Package) (err : Error) : Error :=
  err.wrap (p.name ++ ": graceful shutdown timed out, connections closed forcefully: ")

/-- `Shutdown` returns the error of its context, or the connections are closed. -/
def shutdownMay (s : State) (r : Result) : Bool :=
  decide ((s.conns = 0 ∧ isCtxErr r = false) ∨ ∃ e ∈ s.stopCtx, r = some e.error)

def guard (p : Package) (s : State) : Action → Bool
  | .start => s.deal.allows .start
  | .shutdown => s.deal.allows .shutdown
  | .cancel => s.deal.allows .cancel
  | .stop => s.deal.allows .stop
  | .expire _ => decide (s.stopCtx = none)
  | .accept => decide (s.serve s.calls = .serving ∧ s.told = false)
  | .hangUp => decide (0 < s.conns)
  | .listened _ | .listenFailed _ => decide (s.start = .listening)
  | .store addr => decide (s.start = .storing addr)
  | .announce => decide (s.start = .announcing)
  | .spawn => decide (s.start = .spawning)
  | .takeServe drained e =>
      decide (s.start = (if drained then .draining else .serving) ∧
        (s.serveErr s.calls).next = some e)
  | .takeCtx => decide (s.start = .serving ∧ s.deal.canceled)
  | .serveEnds n e =>
      decide (s.serve n = .serving ∧ e.fits p s.told ∧ (s.serveErr n).hasRoom)
  | .httpShutdown => decide (p = .httpsvc ∧ s.stop = .called)
  | .shutdownEnds r => decide (s.stop = .shutting) && shutdownMay s r
  | .httpClose err => decide (s.stop = .closing err)
  | .goGraceful => decide (p = .grpcsvc ∧ s.stop = .called)
  | .gracefulStop => decide (s.graceful = .spawned)
  | .gracefulEnds => decide (s.graceful = .draining ∧ s.conns = 0)
  | .takeDone => decide (s.stop = .selecting ∧ s.graceful = .ended)
  | .takeExpiry e => decide (s.stop = .selecting ∧ s.stopCtx = some e)
  | .grpcStop e => decide (s.stop = .stopping e)
  | .joined e => decide (s.stop = .joining e ∧ s.graceful = .ended)

/-- A call of `Start` returns. -/
def State.returnStart (s : State) (r : Result) : State :=
  { s with deal := s.deal.next (.startReturns (.returned r)), start := .idle }

/-- The call of `Stop` returns. -/
def State.returnStop (s : State) (r : Result) : State :=
  { s with deal := s.deal.next (.stopReturns (.returned r)), stop := .returned r }

def effect (p : Package) (addr : String) (s : State) : Action → State
  | .start =>
      { s with deal := s.deal.next .start, calls := s.calls + 1, start := .listening }
  | .shutdown => { s with deal := s.deal.next .shutdown }
  | .cancel => { s with deal := s.deal.next .cancel }
  | .stop => { s with deal := s.deal.next .stop, stop := .called }
  | .expire e => { s with stopCtx := some e }
  | .accept => { s with conns := s.conns + 1 }
  | .hangUp => { s with conns := s.conns - 1 }
  | .listened a => { s with start := .storing a }
  | .listenFailed err => s.returnStart (some (listenError p addr err))
  | .store a => { s with addr := some a, start := .announcing }
  | .announce =>
      { s with
        readyOnce := true
        ready := if s.readyOnce then s.ready else s.ready + 1
        start := .spawning }
  | .spawn => { s with serve := Function.update s.serve s.calls .serving, start := .serving }
  | .takeServe drained e =>
      { s with serveErr := Function.update s.serveErr s.calls (s.serveErr s.calls).drop }.returnStart
        (startResult p drained e)
  | .takeCtx => { s with start := .draining }
  | .serveEnds n e =>
      { s with
        serve := Function.update s.serve n .ended
        serveErr := Function.update s.serveErr n ((s.serveErr n).send e) }
  | .httpShutdown => { s with told := true, stop := .shutting }
  | .shutdownEnds none => s.returnStop none
  | .shutdownEnds (some err) =>
      if isCtxErr (some err) then { s with stop := .closing err } else s.returnStop (some err)
  | .httpClose err => { s with conns := 0 }.returnStop (some (timedOut p err))
  | .goGraceful => { s with graceful := .spawned, stop := .selecting }
  | .gracefulStop => { s with told := true, graceful := .draining }
  | .gracefulEnds => { s with graceful := .ended }
  | .takeDone => s.returnStop none
  | .takeExpiry e => { s with stop := .stopping e }
  -- the connections are closed, which lets `GracefulStop` return
  | .grpcStop e => { s with told := true, conns := 0, stop := .joining e }
  | .joined e => s.returnStop (some (timedOut p e.error))

/-- A service of one of the packages that listens on an address. -/
def server (p : Package) (addr : String) : Lts State Action where
  guard := guard p
  effect := effect p addr

abbrev Run (p : Package) (addr : String) (τ : List Action) (s : State) : Prop :=
  (server p addr).Runs State.init τ s

variable {p : Package} {addr : String} {ok : State → Action → Prop} {τ : List Action} {s : State}

/-! ## Where the service stands with its host -/

/-- The place of `Stop` in the contract. -/
def StopPC.stage : StopPC → StopStage
  | .uncalled => .due
  | .returned _ => .over
  | _ => .running

/-- The contract knows which calls are in progress. -/
structure Dealt (s : State) : Prop where
  serving : s.deal.serving = decide (s.start ≠ .idle)
  stop : s.deal.stop = s.stop.stage

theorem dealt_of_run (hr : (server p addr).Run ok State.init τ s) : Dealt s := by
  refine hr.invariant (fun _ s => Dealt s) ⟨rfl, rfl⟩ ?_
  intro τ s a _ ih _ hg
  obtain ⟨hserving, hstop⟩ := ih
  cases a with
  | start | stop | listenFailed err | httpClose err | takeDone | joined e | takeServe drained e =>
      exact ⟨by first | rfl | exact hserving, by first | rfl | exact hstop⟩
  | listened a | store a | announce | spawn | takeCtx =>
      have hat : s.start ≠ .idle := by
        simp only [server, guard, decide_eq_true_eq] at hg
        simp [hg]
      rw [decide_eq_true hat] at hserving
      exact ⟨hserving, hstop⟩
  | shutdownEnds r =>
      have hat := of_decide_eq_true (Bool.and_eq_true_iff.mp hg).1
      have hrunning : s.deal.stop = .running := by rw [hstop, hat]; rfl
      cases r with
      | none => exact ⟨hserving, rfl⟩
      | some err =>
          by_cases herr : isCtxErr (some err) = true
          · simp only [server, effect, if_pos herr]
            exact ⟨hserving, hrunning⟩
          · simp only [server, effect, if_neg herr]
            exact ⟨hserving, rfl⟩
  | httpShutdown | goGraceful =>
      have hat : s.stop = .called := (of_decide_eq_true hg : _ ∧ _).2
      rw [hat] at hstop
      exact ⟨hserving, hstop⟩
  | takeExpiry e =>
      have hat : s.stop = .selecting := (of_decide_eq_true hg : _ ∧ _).1
      rw [hat] at hstop
      exact ⟨hserving, hstop⟩
  | grpcStop e =>
      have hat : s.stop = .stopping e := of_decide_eq_true hg
      rw [hat] at hstop
      exact ⟨hserving, hstop⟩
  | _ => exact ⟨hserving, hstop⟩

/-- `Start` is called when no call of it is in progress. -/
private theorem idle_of_start (hs : Dealt s) (hg : (server p addr).guard s .start = true) :
    s.start = .idle := by
  have hfree : s.deal.serving = false := by
    have hallows : (!s.deal.serving && !s.deal.spent) = true := hg
    simpa using (Bool.and_eq_true_iff.mp hallows).1
  by_contra hbusy
  rw [hs.serving, decide_eq_true hbusy] at hfree
  cases hfree

/-! ## The calls of `Start` -/

/-- What belongs to the calls of `Start`, by the place of the current one. -/
structure Placed (s : State) : Prop where
  waiting : s.start.waits = true →
    s.serve s.calls = .serving ∧ (s.serveErr s.calls).buf = [] ∨
      s.serve s.calls = .ended ∧ ∃ e, (s.serveErr s.calls).buf = [e]
  early : s.start.waits = false → s.start ≠ .idle →
    s.serve s.calls = .unborn ∧ (s.serveErr s.calls).buf = []
  idle : s.start = .idle → s.serve s.calls ≠ .serving
  past : ∀ n < s.calls, s.serve n ≠ .serving
  future : ∀ n, s.calls < n → s.serve n = .unborn ∧ (s.serveErr n).buf = []

/-- The current call goes on, before it waits or while it does. -/
private theorem Placed.go {s' : State} (hs : Placed s) (hbusy : s.start ≠ .idle)
    (hpc : s'.start ≠ .idle) (hwaits : s'.start.waits = s.start.waits)
    (hsame : s'.calls = s.calls ∧ s'.serve = s.serve ∧ s'.serveErr = s.serveErr) : Placed s' := by
  obtain ⟨hcalls, hserve, herr⟩ := hsame
  constructor
  · rw [hwaits, hcalls, hserve, herr]
    exact hs.waiting
  · rw [hwaits, hcalls, hserve, herr]
    exact fun hw _ => hs.early hw hbusy
  · exact fun hidle => absurd hidle hpc
  · rw [hcalls, hserve]
    exact hs.past
  · rw [hcalls, hserve, herr]
    exact hs.future

/-- `Start` begins. -/
private theorem Placed.start {d : Deal} (hs : Placed s) (hidle : s.start = .idle) :
    Placed { s with deal := d, calls := s.calls + 1, start := .listening } where
  waiting := nofun
  early := fun _ _ => hs.future _ (Nat.lt_succ_self _)
  idle := nofun
  past := by
    intro n hn
    rcases Nat.lt_succ_iff_lt_or_eq.mp hn with hlt | rfl
    · exact hs.past n hlt
    · exact hs.idle hidle
  future := fun n hn => hs.future n (Nat.lt_of_succ_lt hn)

/-- `Serve` is called. -/
private theorem Placed.spawn (hs : Placed s) (hat : s.start = .spawning) :
    Placed { s with serve := Function.update s.serve s.calls .serving, start := .serving } where
  waiting := by
    intro _
    have hempty := (hs.early (by rw [hat]; rfl) (by rw [hat]; nofun)).2
    exact Or.inl ⟨Function.update_self .., hempty⟩
  early := fun hw => by cases hw
  idle := nofun
  past := by
    intro n hn
    show Function.update s.serve s.calls .serving n ≠ .serving
    rw [Function.update_of_ne (Nat.ne_of_lt hn)]
    exact hs.past n hn
  future := by
    intro n hn
    show Function.update s.serve s.calls .serving n = .unborn ∧ _
    rw [Function.update_of_ne (Nat.ne_of_gt hn)]
    exact hs.future n hn

/-- `Serve` is under way in the current call only. -/
theorem Placed.current (hs : Placed s) {n : Nat} (hn : s.serve n = .serving) :
    n = s.calls ∧ s.start.waits = true := by
  rcases Nat.lt_trichotomy n s.calls with hlt | rfl | hgt
  · exact absurd hn (hs.past n hlt)
  · refine ⟨rfl, ?_⟩
    by_contra hw
    rw [Bool.not_eq_true] at hw
    by_cases hidle : s.start = .idle
    · exact hs.idle hidle hn
    · rw [(hs.early hw hidle).1] at hn
      cases hn
  · rw [(hs.future n hgt).1] at hn
    cases hn

/-- `Serve` returns. -/
private theorem Placed.serveEnds (hs : Placed s) {n : Nat} {e : ServeEnd}
    (hat : s.serve n = .serving) (hroom : (s.serveErr n).hasRoom = true) :
    Placed { s with
      serve := Function.update s.serve n .ended
      serveErr := Function.update s.serveErr n ((s.serveErr n).send e) } := by
  obtain ⟨rfl, hwaits⟩ := hs.current hat
  have hempty : (s.serveErr s.calls).buf = [] := by
    rcases hs.waiting hwaits with ⟨-, hempty⟩ | ⟨hended, -⟩
    · exact hempty
    · rw [hat] at hended
      cases hended
  refine ⟨fun _ => Or.inr ⟨Function.update_self .., e, ?_⟩, fun hw => ?_, fun hidle => ?_, fun n hn => ?_,
    fun n hn => ?_⟩
  · show (Function.update s.serveErr s.calls ((s.serveErr s.calls).send e) s.calls).buf = [e]
    rw [Function.update_self, Chan.buf_send hroom, hempty]
    rfl
  · have hw' : s.start.waits = false := hw
    rw [hwaits] at hw'
    cases hw'
  · have hidle' : s.start = .idle := hidle
    rw [hidle'] at hwaits
    cases hwaits
  · show Function.update s.serve s.calls .ended n ≠ .serving
    rw [Function.update_of_ne (Nat.ne_of_lt hn)]
    exact hs.past n hn
  · show Function.update s.serve s.calls .ended n = .unborn ∧
      (Function.update s.serveErr s.calls ((s.serveErr s.calls).send e) n).buf = []
    rw [Function.update_of_ne (Nat.ne_of_gt hn), Function.update_of_ne (Nat.ne_of_gt hn)]
    exact hs.future n hn

/-- `Start` has received what `Serve` returned. -/
private theorem Placed.takeServe (hs : Placed s) {d : Deal} {e : ServeEnd}
    (hwaits : s.start.waits = true) (hnext : (s.serveErr s.calls).next = some e) :
    Placed { s with
      serveErr := Function.update s.serveErr s.calls (s.serveErr s.calls).drop, deal := d, start := .idle } where
  waiting := nofun
  early := fun _ hbusy => absurd rfl hbusy
  idle := by
    intro _
    rcases hs.waiting hwaits with ⟨-, hempty⟩ | ⟨hended, -⟩
    · obtain ⟨rest, hrest⟩ := (Chan.next_eq_some_iff _ _).mp hnext
      rw [hempty] at hrest
      cases hrest
    · show s.serve s.calls ≠ .serving
      rw [hended]
      nofun
  past := hs.past
  future := by
    intro n hn
    show s.serve n = .unborn ∧
      (Function.update s.serveErr s.calls (s.serveErr s.calls).drop n).buf = []
    rw [Function.update_of_ne (Nat.ne_of_gt hn)]
    exact hs.future n hn

/-- Where a received value was waiting. -/
private theorem waits_of_takeServe {drained : Bool} {e : ServeEnd}
    (hg : (server p addr).guard s (.takeServe drained e) = true) :
    s.start.waits = true ∧ (s.serveErr s.calls).next = some e := by
  obtain ⟨hat, hnext⟩ : s.start = _ ∧ _ := of_decide_eq_true hg
  refine ⟨?_, hnext⟩
  rw [hat]
  cases drained <;> rfl

theorem placed_of_run (hr : (server p addr).Run ok State.init τ s) : Placed s := by
  refine hr.invariant (fun _ s => Placed s) ?_ ?_
  · exact ⟨nofun, fun _ hbusy => absurd rfl hbusy, fun _ => nofun, nofun, fun _ _ => ⟨rfl, rfl⟩⟩
  · intro τ s a hr ih _ hg
    cases a with
    | start => exact ih.start (idle_of_start (dealt_of_run hr) hg)
    | listened a =>
        have hat : s.start = .listening := of_decide_eq_true hg
        exact ih.go (by rw [hat]; nofun) nofun (by rw [hat]; rfl) ⟨rfl, rfl, rfl⟩
    | listenFailed err =>
        have hat : s.start = .listening := of_decide_eq_true hg
        have hunborn := (ih.early (by rw [hat]; rfl) (by rw [hat]; nofun)).1
        refine ⟨nofun, fun _ hbusy => absurd rfl hbusy, fun _ => ?_, ih.past, ih.future⟩
        show s.serve s.calls ≠ .serving
        rw [hunborn]
        nofun
    | store a =>
        have hat : s.start = .storing a := of_decide_eq_true hg
        exact ih.go (by rw [hat]; nofun) nofun (by rw [hat]; rfl) ⟨rfl, rfl, rfl⟩
    | announce =>
        have hat : s.start = .announcing := of_decide_eq_true hg
        exact ih.go (by rw [hat]; nofun) nofun (by rw [hat]; rfl) ⟨rfl, rfl, rfl⟩
    | spawn => exact ih.spawn (of_decide_eq_true hg)
    | takeCtx =>
        have hat : s.start = .serving := (of_decide_eq_true hg : _ ∧ _).1
        exact ih.go (by rw [hat]; nofun) nofun (by rw [hat]; rfl) ⟨rfl, rfl, rfl⟩
    | takeServe drained e =>
        obtain ⟨hwaits, hnext⟩ := waits_of_takeServe hg
        exact ih.takeServe hwaits hnext
    | serveEnds n e =>
        obtain ⟨hat, -, hroom⟩ : s.serve n = .serving ∧ _ ∧ _ := of_decide_eq_true hg
        exact ih.serveEnds hat hroom
    | shutdownEnds r =>
        cases r with
        | none => exact ⟨ih.waiting, ih.early, ih.idle, ih.past, ih.future⟩
        | some err =>
            simp only [server, effect]
            split <;> exact ⟨ih.waiting, ih.early, ih.idle, ih.past, ih.future⟩
    | _ => exact ⟨ih.waiting, ih.early, ih.idle, ih.past, ih.future⟩

/-! ## The call of `Stop` -/

/-- What the goroutine that calls `GracefulStop` and the connections are, by the place of
`Stop`. -/
def Stopping (s : State) : Prop :=
  match s.stop with
  | .uncalled | .called => s.told = false ∧ s.graceful = .unborn
  | .shutting | .closing _ => s.told = true ∧ s.graceful = .unborn
  | .selecting | .stopping _ =>
      s.graceful = .spawned ∧ s.told = false ∨ s.graceful = .draining ∧ s.told = true ∨
        s.graceful = .ended ∧ s.told = true ∧ s.conns = 0
  | .joining _ => s.told = true ∧ s.conns = 0 ∧ s.graceful ≠ .unborn
  | .returned _ =>
      s.told = true ∧ s.conns = 0 ∧ (s.graceful = .unborn ∨ s.graceful = .ended)

/-- An action that leaves the call of `Stop` alone, and opens no connection once the server
was told to stop. -/
private theorem Stopping.keep {s' : State} (hs : Stopping s) (hstop : s'.stop = s.stop)
    (htold : s'.told = s.told) (hgrace : s'.graceful = s.graceful)
    (hconns : s.told = true → s.conns = 0 → s'.conns = 0) : Stopping s' := by
  unfold Stopping at hs ⊢
  rw [hstop, htold, hgrace]
  cases hat : s.stop with
  | selecting | stopping e =>
      simp only [hat] at hs ⊢
      rcases hs with hspawned | hdraining | ⟨hended, hon, hnone⟩
      · exact Or.inl hspawned
      · exact Or.inr (Or.inl hdraining)
      · exact Or.inr (Or.inr ⟨hended, hon, hconns hon hnone⟩)
  | joining e | returned r =>
      simp only [hat] at hs ⊢
      exact ⟨hs.1, hconns hs.1 hs.2.1, hs.2.2⟩
  | _ =>
      simp only [hat] at hs ⊢
      exact hs

/-- An error of the context is one. -/
private theorem isCtxErr_error (e : CtxErr) : isCtxErr (some e.error) = true := by
  cases e <;> rfl

/-- `Shutdown` returns without an error of its context when the connections are closed. -/
private theorem drained_of_shutdownMay {r : Result} (hmay : shutdownMay s r = true)
    (herr : isCtxErr r = false) : s.conns = 0 := by
  rcases of_decide_eq_true hmay with ⟨hconns, -⟩ | ⟨e, -, rfl⟩
  · exact hconns
  · rw [isCtxErr_error] at herr
    cases herr

theorem stopping_of_run (hr : (server p addr).Run ok State.init τ s) : Stopping s := by
  refine hr.invariant (fun _ s => Stopping s) ⟨rfl, rfl⟩ ?_
  intro τ s a hr ih _ hg
  cases a with
  | stop =>
      have hallows : (s.deal.canceled && decide (s.deal.stop = .due)) = true := hg
      have hdue := of_decide_eq_true (Bool.and_eq_true_iff.mp hallows).2
      rw [(dealt_of_run hr).stop] at hdue
      have hat : s.stop = .uncalled := by
        cases hstop : s.stop <;> rw [hstop] at hdue <;> first | rfl | cases hdue
      simp only [Stopping, hat] at ih
      exact ih
  | accept =>
      have hopen : s.told = false := (of_decide_eq_true hg : _ ∧ _).2
      refine ih.keep rfl rfl rfl fun hon _ => ?_
      rw [hopen] at hon
      cases hon
  | hangUp =>
      refine ih.keep rfl rfl rfl fun _ hnone => ?_
      show s.conns - 1 = 0
      omega
  | httpShutdown =>
      have hat : s.stop = .called := (of_decide_eq_true hg : _ ∧ _).2
      simp only [Stopping, hat] at ih
      exact ⟨rfl, ih.2⟩
  | shutdownEnds r =>
      obtain ⟨hat, hmay⟩ := Bool.and_eq_true_iff.mp hg
      have hat : s.stop = .shutting := of_decide_eq_true hat
      simp only [Stopping, hat] at ih
      cases r with
      | none => exact ⟨ih.1, drained_of_shutdownMay hmay rfl, Or.inl ih.2⟩
      | some err =>
          by_cases herr : isCtxErr (some err) = true
          · simp only [server, effect, if_pos herr]
            exact ih
          · simp only [server, effect, if_neg herr]
            exact ⟨ih.1, drained_of_shutdownMay hmay (Bool.eq_false_iff.mpr herr), Or.inl ih.2⟩
  | httpClose err =>
      have hat : s.stop = .closing err := of_decide_eq_true hg
      simp only [Stopping, hat] at ih
      exact ⟨ih.1, rfl, Or.inl ih.2⟩
  | goGraceful =>
      have hat : s.stop = .called := (of_decide_eq_true hg : _ ∧ _).2
      simp only [Stopping, hat] at ih
      exact Or.inl ⟨rfl, ih.1⟩
  | gracefulStop =>
      have hat : s.graceful = .spawned := of_decide_eq_true hg
      simp only [Stopping] at ih ⊢
      cases hstop : s.stop <;> simp_all [server, effect]
  | gracefulEnds =>
      obtain ⟨hat, hconns⟩ : s.graceful = .draining ∧ _ := of_decide_eq_true hg
      simp only [Stopping] at ih ⊢
      cases hstop : s.stop <;> simp_all [server, effect]
  | takeDone =>
      obtain ⟨hat, hended⟩ : s.stop = .selecting ∧ s.graceful = .ended := of_decide_eq_true hg
      simp only [Stopping, hat, hended, reduceCtorEq, false_and, false_or, true_and] at ih
      exact ⟨ih.1, ih.2, Or.inr hended⟩
  | takeExpiry e =>
      have hat : s.stop = .selecting := (of_decide_eq_true hg : _ ∧ _).1
      simp only [Stopping, hat] at ih
      exact ih
  | grpcStop e =>
      have hat : s.stop = .stopping e := of_decide_eq_true hg
      simp only [Stopping, hat] at ih
      refine ⟨rfl, rfl, ?_⟩
      show s.graceful ≠ .unborn
      rcases ih with ⟨hgrace, -⟩ | ⟨hgrace, -⟩ | ⟨hgrace, -⟩ <;> rw [hgrace] <;> nofun
  | joined e =>
      obtain ⟨hat, hended⟩ : s.stop = .joining e ∧ s.graceful = .ended := of_decide_eq_true hg
      simp only [Stopping, hat] at ih
      exact ⟨ih.1, ih.2.1, Or.inr hended⟩
  | _ => exact ih.keep rfl rfl rfl fun _ hnone => hnone

/-! ## Readiness -/

/-- The current call of `Start` has stored its address. -/
def StartPC.stored : StartPC → Bool
  | .announcing | .spawning | .serving | .draining => true
  | _ => false

/-- What is known of the address and of the channel `ready`. -/
structure Readied (τ : List Action) (s : State) : Prop where
  closed : s.ready = s.readyOnce.toNat
  stored : s.readyOnce = true ∨ s.start.stored = true → s.addr.isSome = true
  listened : ∀ a, s.addr = some a ∨ s.start = .storing a → .listened a ∈ τ

/-- An action that concerns neither, and at most leaves the place. -/
private theorem Readied.keep {s' : State} {a : Action} (hs : Readied τ s)
    (hready : s'.ready = s.ready ∧ s'.readyOnce = s.readyOnce ∧ s'.addr = s.addr)
    (hstored : s'.start.stored = true → s.start.stored = true)
    (hstoring : ∀ a, s'.start = .storing a → s.start = .storing a) : Readied (τ ++ [a]) s' := by
  obtain ⟨hcount, honce, haddr⟩ := hready
  constructor
  · rw [hcount, honce]
    exact hs.closed
  · rw [honce, haddr]
    exact fun hor => hs.stored (hor.imp id hstored)
  · rw [haddr]
    exact fun a hor => List.mem_append_left _ (hs.listened a (hor.imp id (hstoring a)))

theorem readied_of_run (hr : (server p addr).Run ok State.init τ s) : Readied τ s := by
  refine hr.invariant Readied ⟨rfl, ?_, ?_⟩ ?_
  · rintro (honce | hstored)
    · cases honce
    · cases hstored
  · rintro a (haddr | hat)
    · cases haddr
    · cases hat
  intro τ s a _ ih _ hg
  cases a with
  | listened a =>
      have hat : s.start = .listening := of_decide_eq_true hg
      refine ⟨ih.closed, fun hor => ih.stored (hor.imp id fun hstored => ?_), fun b hor => ?_⟩
      · cases hstored
      · rcases hor with haddr | hstoring
        · exact List.mem_append_left _ (ih.listened b (Or.inl haddr))
        · obtain rfl : a = b := by simpa [server, effect] using hstoring
          exact List.mem_append_right _ (List.mem_singleton_self _)
  | store a =>
      have hat : s.start = .storing a := of_decide_eq_true hg
      refine ⟨ih.closed, fun _ => rfl, fun b hor => ?_⟩
      rcases hor with haddr | hstoring
      · obtain rfl : a = b := by simpa [server, effect] using haddr
        exact List.mem_append_left _ (ih.listened a (Or.inr hat))
      · cases hstoring
  | announce =>
      have hat : s.start = .announcing := of_decide_eq_true hg
      have hsome := ih.stored (Or.inr (by rw [hat]; rfl))
      refine ⟨?_, fun _ => hsome, fun b hor => ?_⟩
      · have hcount := ih.closed
        show (if s.readyOnce then s.ready else s.ready + 1) = true.toNat
        cases honce : s.readyOnce <;> rw [honce] at hcount <;> simp [hcount]
      · rcases hor with haddr | hstoring
        · exact List.mem_append_left _ (ih.listened b (Or.inl haddr))
        · cases hstoring
  | spawn =>
      have hat : s.start = .spawning := of_decide_eq_true hg
      exact ih.keep ⟨rfl, rfl, rfl⟩ (fun _ => by rw [hat]; rfl) nofun
  | takeCtx =>
      have hat : s.start = .serving := (of_decide_eq_true hg : _ ∧ _).1
      exact ih.keep ⟨rfl, rfl, rfl⟩ (fun _ => by rw [hat]; rfl) nofun
  | start | listenFailed err | takeServe drained e => exact ih.keep ⟨rfl, rfl, rfl⟩ nofun nofun
  | shutdownEnds r =>
      cases r with
      | none => exact ih.keep ⟨rfl, rfl, rfl⟩ id fun _ => id
      | some err =>
          simp only [server, effect]
          split <;> exact ih.keep ⟨rfl, rfl, rfl⟩ id fun _ => id
  | _ => exact ih.keep ⟨rfl, rfl, rfl⟩ id fun _ => id

/-! ## What `Serve` returned -/

/-- The server is told to stop. -/
def Action.tells : Action → Bool
  | .httpShutdown | .gracefulStop | .grpcStop _ => true
  | _ => false

theorem told_iff (hr : (server p addr).Run ok State.init τ s) :
    s.told = true ↔ ∃ a ∈ τ, a.tells = true := by
  refine hr.invariant (fun τ s => s.told = true ↔ ∃ a ∈ τ, a.tells = true) (by simp [State.init]) ?_
  intro τ s a _ ih _ _
  have htold : ((server p addr).effect s a).told = (s.told || a.tells) := by
    cases a with
    | shutdownEnds r =>
        cases r with
        | none => exact (Bool.or_false _).symm
        | some err =>
            simp only [server, effect]
            split <;> exact (Bool.or_false _).symm
    | httpShutdown | gracefulStop | grpcStop e => exact (Bool.or_true _).symm
    | _ => exact (Bool.or_false _).symm
  simp [htold, ih, or_and_right, exists_or]

/-- What waits in `serveErr` was returned by `Serve`. -/
theorem serveEnds_of_mem (hr : (server p addr).Run ok State.init τ s) {n : Nat} {e : ServeEnd} :
    e ∈ (s.serveErr n).buf → .serveEnds n e ∈ τ := by
  refine hr.invariant (fun τ s => e ∈ (s.serveErr n).buf → .serveEnds n e ∈ τ) nofun ?_
  intro τ s a _ ih _ hg hmem
  cases a with
  | takeServe drained e' =>
      have hmem' : e ∈ (Function.update s.serveErr s.calls (s.serveErr s.calls).drop n).buf := hmem
      by_cases hn : n = s.calls
      · rw [hn, Function.update_self] at hmem'
        exact List.mem_append_left _ (ih (by rw [hn]; exact List.mem_of_mem_tail hmem'))
      · rw [Function.update_of_ne hn] at hmem'
        exact List.mem_append_left _ (ih hmem')
  | serveEnds m e' =>
      have hroom := (of_decide_eq_true hg : s.serve m = .serving ∧ _ ∧ _).2.2
      have hmem' : e ∈ (Function.update s.serveErr m ((s.serveErr m).send e') n).buf := hmem
      by_cases hn : n = m
      · rw [hn, Function.update_self, Chan.buf_send hroom] at hmem'
        rcases List.mem_append.mp hmem' with hold | hnew
        · exact List.mem_append_left _ (ih (by rw [hn]; exact hold))
        · rw [List.mem_singleton.mp hnew, hn]
          exact List.mem_append_right _ (List.mem_singleton_self _)
      · rw [Function.update_of_ne hn] at hmem'
        exact List.mem_append_left _ (ih hmem')
  | shutdownEnds r =>
      refine List.mem_append_left _ (ih ?_)
      cases r with
      | none => exact hmem
      | some err =>
          simp only [server, effect] at hmem
          split at hmem <;> exact hmem
  | _ => exact List.mem_append_left _ (ih hmem)

/-- What `Start` receives was returned by `Serve` of this call, and fits what the server
had been told by then. -/
theorem serveEnds_of_takeServe (hr : (server p addr).Run ok State.init τ s) {drained : Bool}
    {e : ServeEnd} (hg : (server p addr).guard s (.takeServe drained e) = true) :
    ∃ pre post s₁, τ = pre ++ .serveEnds s.calls e :: post ∧
      (server p addr).Run ok State.init pre s₁ ∧ e.fits p s₁.told = true := by
  obtain ⟨rest, hrest⟩ := (Chan.next_eq_some_iff _ _).mp (waits_of_takeServe hg).2
  have hmem : e ∈ (s.serveErr s.calls).buf := by
    rw [hrest]
    exact List.mem_cons_self
  obtain ⟨pre, post, s₁, hτ, hr₁, -, hg₁⟩ := hr.of_mem (serveEnds_of_mem hr hmem)
  exact ⟨pre, post, s₁, hτ, hr₁, (of_decide_eq_true hg₁ : _ ∧ e.fits p s₁.told = true ∧ _).2.1⟩

/-! ## The result -/

/-- What passes between the service and its host. -/
def Action.deed (p : Package) (addr : String) : Action → Option Deed
  | .start => some .start
  | .shutdown => some .shutdown
  | .cancel => some .cancel
  | .stop => some .stop
  | .listenFailed err => some (.startReturns (.returned (some (listenError p addr err))))
  | .takeServe drained e => some (.startReturns (.returned (startResult p drained e)))
  | .shutdownEnds r => if isCtxErr r then none else some (.stopReturns (.returned r))
  | .httpClose err => some (.stopReturns (.returned (some (timedOut p err))))
  | .takeDone => some (.stopReturns (.returned none))
  | .joined e => some (.stopReturns (.returned (some (timedOut p e.error))))
  | _ => none

/-- `Start` returns a result. -/
def Action.startReturns (p : Package) (addr : String) (a : Action) (r : Result) : Prop :=
  a.deed p addr = some (.startReturns (.returned r))

/-- What holds of a server service in every run. -/
structure Serves (p : Package) (addr : String) (τ : List Action) (s : State) : Prop where
  /-- it keeps its side of the contract -/
  contract : contract.Runs Deal.init (τ.filterMap (Action.deed p addr)) s.deal
  /-- `ready` is closed once, however often `Start` is called -/
  ready_once : s.ready ≤ 1
  /-- and only when `Addr` returns the address of a listener -/
  ready_addr : s.ready = 1 → ∃ a, s.addr = some a ∧ .listened a ∈ τ
  /-- `Serve` is under way only while its call of `Start` waits for it -/
  one_serve : ∀ n, s.serve n = .serving → n = s.calls ∧ s.start.waits = true
  /-- when `Stop` has returned no connection is open, none is accepted any more, and its
  goroutine has ended -/
  drained : ∀ r, s.stop = .returned r →
    s.conns = 0 ∧ (server p addr).guard s .accept = false ∧
      (s.graceful = .unborn ∨ s.graceful = .ended)
  /-- `Start` returns nil only when the server was told to stop -/
  nil_told : Guarded (fun pre a => a.startReturns p addr none →
    ∃ b ∈ pre, b.tells = true) τ
  /-- an error other than that of the context is that of the listener, or one with which
  `Serve` ended before the server was told to stop -/
  own_error : Guarded (fun pre a => ∀ err, a.startReturns p addr (some err) →
    err.canceled = false → (∃ e, a = .listenFailed e) ∨
      ∃ n before after, pre = before ++ .serveEnds n (.failed err) :: after ∧
        ∀ b ∈ before, b.tells = false) τ

/-- A result of `Start` is that of the listener or what was received of `Serve`. -/
theorem startReturns_cases {a : Action} {r : Result} (ha : a.startReturns p addr r) :
    (∃ err, a = .listenFailed err ∧ r = some (listenError p addr err)) ∨
      ∃ drained e, a = .takeServe drained e ∧ r = startResult p drained e := by
  unfold Action.startReturns at ha
  cases a with
  | listenFailed err => exact Or.inl ⟨err, rfl, by simpa [Action.deed] using ha.symm⟩
  | takeServe drained e => exact Or.inr ⟨drained, e, rfl, by simpa [Action.deed] using ha.symm⟩
  | shutdownEnds r' =>
      simp only [Action.deed] at ha
      split at ha <;> cases ha
  | _ => simp [Action.deed] at ha

/-- Only the errors of `Serve` itself are not those of the context. -/
private theorem startResult_cases {drained : Bool} {e : ServeEnd} :
    (startResult p drained e = none → ∀ err, e ≠ .failed err) ∧
      ∀ err, startResult p drained e = some err → err.canceled = false → e = .failed err := by
  cases e with
  | failed err =>
      refine ⟨nofun, fun err' hres _ => ?_⟩
      exact congrArg ServeEnd.failed (Option.some.inj hres)
  | stopped =>
      refine ⟨fun _ _ => nofun, fun err hres hclean => ?_⟩
      cases drained with
      | false => cases hres
      | true =>
          rw [← Option.some.inj hres] at hclean
          cases hclean
  | nil =>
      refine ⟨fun _ _ => nofun, fun err hres hclean => ?_⟩
      by_cases hctx : drained = true ∧ p = .grpcsvc
      · rw [startResult, if_pos hctx] at hres
        rw [← Option.some.inj hres] at hclean
        cases hclean
      · rw [startResult, if_neg hctx] at hres
        cases hres

/-- The deal changes by what passes between service and host. -/
theorem deed_step (hr : (server p addr).Run ok State.init τ s) {a : Action}
    (hg : (server p addr).guard s a = true) :
    Lts.Takes Hosting.contract s.deal (a.deed p addr) ((server p addr).effect s a).deal := by
  have hdealt := dealt_of_run hr
  have hbusy (hat : s.start ≠ .idle) : s.deal.serving = true := by
    rw [hdealt.serving, decide_eq_true hat]
  have hover (o : Outcome) (hrunning : s.deal.stop = .running) :
      Hosting.contract.guard s.deal (.stopReturns o) = true := decide_eq_true hrunning
  cases a with
  | start | shutdown | cancel | stop => exact .takes hg
  | listenFailed err =>
      have hat : s.start = .listening := of_decide_eq_true hg
      exact .takes (hbusy (by rw [hat]; nofun))
  | takeServe drained e =>
      refine .takes (hbusy fun hidle => ?_)
      have hwaits := (waits_of_takeServe hg).1
      rw [hidle] at hwaits
      cases hwaits
  | shutdownEnds r =>
      have hat : s.stop = .shutting := of_decide_eq_true (Bool.and_eq_true_iff.mp hg).1
      have hrunning : s.deal.stop = .running := by rw [hdealt.stop, hat]; rfl
      cases r with
      | none => exact .takes (hover _ hrunning)
      | some err =>
          by_cases herr : isCtxErr (some err) = true
          · simp only [server, effect, Action.deed, if_pos herr]
            exact .stays
          · simp only [server, effect, Action.deed, if_neg herr]
            exact .takes (hover _ hrunning)
  | httpClose err =>
      have hat : s.stop = .closing err := of_decide_eq_true hg
      exact .takes (hover _ (by rw [hdealt.stop, hat]; rfl))
  | takeDone =>
      have hat : s.stop = .selecting := (of_decide_eq_true hg : _ ∧ _).1
      exact .takes (hover _ (by rw [hdealt.stop, hat]; rfl))
  | joined e =>
      have hat : s.stop = .joining e := (of_decide_eq_true hg : _ ∧ _).1
      exact .takes (hover _ (by rw [hdealt.stop, hat]; rfl))
  | _ => exact .stays

theorem serves_of_run (hr : Run p addr τ s) : Serves p addr τ s where
  contract := hr.refines State.deal (Action.deed p addr) fun _ _ _ hr _ hg => deed_step hr hg
  ready_once := by
    rw [(readied_of_run hr).closed]
    exact Bool.toNat_le _
  ready_addr := by
    intro hready
    have hreadied := readied_of_run hr
    have honce : s.readyOnce = true := by
      have hcount := hreadied.closed
      cases honce : s.readyOnce with
      | true => rfl
      | false =>
          rw [honce, hready] at hcount
          cases hcount
    obtain ⟨a, haddr⟩ := Option.isSome_iff_exists.mp (hreadied.stored (Or.inl honce))
    exact ⟨a, haddr, hreadied.listened a (Or.inl haddr)⟩
  one_serve := fun _ hn => (placed_of_run hr).current hn
  drained := by
    intro r hstop
    have hstopping := stopping_of_run hr
    simp only [Stopping, hstop] at hstopping
    obtain ⟨htold, hconns, hgrace⟩ := hstopping
    refine ⟨hconns, ?_, hgrace⟩
    show decide (s.serve s.calls = .serving ∧ s.told = false) = false
    rw [htold]
    simp
  nil_told := by
    refine hr.guarded ?_
    intro τ s a hr _ hg hret
    obtain ⟨err, -, hres⟩ | ⟨drained, e, rfl, hres⟩ := startReturns_cases hret
    · cases hres
    · obtain ⟨pre, post, s₁, rfl, hr₁, hfits⟩ := serveEnds_of_takeServe hr hg
      have hnot := startResult_cases.1 hres.symm
      have htold : s₁.told = true := by
        cases e with
        | stopped => exact hfits
        | nil => exact (Bool.and_eq_true_iff.mp hfits).1
        | failed err => exact absurd rfl (hnot err)
      obtain ⟨b, hb, htells⟩ := (told_iff hr₁).mp htold
      exact ⟨b, List.mem_append_left _ hb, htells⟩
  own_error := by
    refine hr.guarded ?_
    intro τ s a hr _ hg err hret hclean
    obtain ⟨e, rfl, -⟩ | ⟨drained, e, rfl, hres⟩ := startReturns_cases hret
    · exact Or.inl ⟨e, rfl⟩
    · obtain ⟨pre, post, s₁, rfl, hr₁, hfits⟩ := serveEnds_of_takeServe hr hg
      obtain rfl := startResult_cases.2 err hres.symm hclean
      refine Or.inr ⟨s.calls, pre, post, rfl, fun b hb => ?_⟩
      by_contra htells
      have htold := (told_iff hr₁).mpr ⟨b, hb, by simpa using htells⟩
      rw [ServeEnd.fits, htold] at hfits
      cases hfits

/-- A gRPC server whose drain does not end before the deadline. -/
def forcedRun : List Action :=
  [.start, .listened "127.0.0.1:50051", .store "127.0.0.1:50051", .announce, .spawn, .accept,
    .shutdown, .cancel, .takeCtx, .stop, .goGraceful, .gracefulStop, .expire .deadlineExceeded,
    .takeExpiry .deadlineExceeded, .grpcStop .deadlineExceeded, .gracefulEnds,
    .joined .deadlineExceeded, .serveEnds 1 .nil, .takeServe true .nil]

theorem serves_forcedRun : Serves .grpcsvc ":50051" forcedRun
    ((server .grpcsvc ":50051").after State.init forcedRun) :=
  serves_of_run (Lts.Admits.run (by decide))

end Shost.Ports.Serving
