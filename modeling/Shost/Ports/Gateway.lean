import Shost.Ports.HostState
import Shost.Verified.Lts

/-!
# The gateway service

`Start` of the gateway dials, calls the registration functions, builds an
`http.Server`, publishes it in the field `srv` and serves until `Serve` returns.
`Stop` shuts down the server that it reads from the field.  The host cancels the
context of `Start` and then calls `Stop`; a restart policy may have called `Start`
before, so the field may hold the server of an earlier call.

## Main results

* `server_missed` — a run in which `Stop` finds no server, and `Start` then waits
  for one that nobody shuts down.
* `handshake_iff` — the handshake succeeds in every run in which no call of `Start`
  comes to serve on a server that `Stop` has missed, and a step that does so leads
  to a run in which it fails.
-/

namespace Shost.Ports.Grpcgw

open Shost.Verified Shost.Ports.Hosting

/-- `Service`: what `Start` and `Stop` read of it, the registration functions by
their number. -/
structure Service where
  addr : String
  endpoint : String
  registers : Nat

/-- What `Serve` returns: `http.ErrServerClosed`, or another error. -/
inductive ServeErr where
  | closed
  | failed (err : Error)
  deriving DecidableEq

/-- The place of the calls of `Start`. -/
inductive StartPC where
  /-- no call in progress -/
  | idle
  /-- in `grpc.NewClient` -/
  | dialling
  /-- before the call of a registration function, or behind the last one -/
  | registering (k : Nat)
  /-- the server is published, in `net.Listen` -/
  | listening
  /-- select on `serveErr` and the context -/
  | serving
  /-- the context is done, receive from `serveErr` -/
  | draining
  | returned (r : Result)
  deriving DecidableEq

/-- The place of the goroutine that calls `Serve`. -/
inductive ServePC where
  | unborn
  | serving
  | ended
  deriving DecidableEq

/-- The place of `Stop`, with the value it has read from the field. -/
inductive StopPC where
  | uncalled
  /-- before the field is read -/
  | called
  /-- the field has been read -/
  | read (srv : Option Nat)
  /-- in `Shutdown` -/
  | shutting (n : Nat)
  | returned (srv : Option Nat) (r : Result)
  deriving DecidableEq

/-- The state of a service.  The server that a call of `Start` builds has the number
of the call. -/
structure State where
  calls : Nat
  start : StartPC
  ctxDone : Bool
  srv : Option Nat
  told : Nat → Bool
  serve : Nat → ServePC
  serveErr : Nat → Chan ServeErr 1
  listAddr : Option String
  ready : Bool
  stop : StopPC

def State.init : State where
  calls := 0
  start := .idle
  ctxDone := false
  srv := none
  told := fun _ => false
  serve := fun _ => .unborn
  serveErr := fun _ => .empty
  listAddr := none
  ready := false
  stop := .uncalled

/-- The actions: those of the host, which calls `Start`, cancels its context and calls
`Stop`, the steps of these calls, and the return of `Serve`. -/
inductive Action where
  | start
  | dialed (r : Result)
  | registered (k : Nat) (o : Outcome)
  | publish
  | listened (addr : String)
  | listenFailed (err : Error)
  | serveEnds (n : Nat) (e : ServeErr)
  | takeServe (e : ServeErr)
  | takeCtx
  | cancel
  | stop
  | readSrv
  | noServer
  | shutdown (n : Nat)
  | shutdownEnds (n : Nat) (r : Result)
  deriving DecidableEq

/-- No call of `Start` is in progress. -/
def StartPC.free : StartPC → Bool
  | .idle | .returned _ => true
  | _ => false

/-- A call of `Start` has not come to serve yet. -/
def StartPC.early : StartPC → Bool
  | .dialling | .registering _ | .listening => true
  | _ => false

/-- A call of `Start` is waiting for `Serve`. -/
def StartPC.waits : StartPC → Bool
  | .serving | .draining => true
  | _ => false

/-- What `Stop` has read from the field, once it has. -/
def StopPC.seen : StopPC → Option (Option Nat)
  | .uncalled | .called => none
  | .read srv => some srv
  | .shutting n => some (some n)
  | .returned srv _ => some srv

/-- `Stop` has returned an error. -/
def StopPC.failed : StopPC → Bool
  | .returned _ (some _) => true
  | _ => false

/-- The result of `Start` when `Serve` has returned: on the branch of `ctx.Done` it is
the error of the context. -/
def startResult (pc : StartPC) : ServeErr → Result
  | .closed => if pc = .draining then some CtxErr.canceled.error else none
  | .failed err => some err

/-- The result of `Stop` when `Shutdown` has returned. -/
def stopResult : Result → Result
  | none => none
  | some err =>
      if err.deadlineExceeded ∨ err.canceled then
        some (err.wrap
          "grpcgw: graceful shutdown timed out, connections closed forcefully: ")
      else some err

/-- `Serve` returns `http.ErrServerClosed` when its server has been told to shut down,
and another error when it has not. -/
def guard (svc : Service) (s : State) : Action → Bool
  | .start => s.start.free
  | .dialed _ => decide (s.start = .dialling)
  | .registered k _ => decide (s.start = .registering k ∧ k < svc.registers)
  | .publish => decide (s.start = .registering svc.registers)
  | .listened _ | .listenFailed _ => decide (s.start = .listening)
  | .serveEnds n e =>
      decide (s.serve n = .serving ∧ (s.told n = true ↔ e = .closed) ∧ (s.serveErr n).hasRoom)
  | .takeServe e => decide (s.start.waits ∧ (s.serveErr s.calls).next = some e)
  | .takeCtx => decide (s.start = .serving ∧ s.ctxDone)
  | .cancel => decide (s.ctxDone = false)
  | .stop => decide (s.stop = .uncalled ∧ s.ctxDone)
  | .readSrv => decide (s.stop = .called)
  | .noServer => decide (s.stop = .read none)
  | .shutdown n => decide (s.stop = .read (some n))
  | .shutdownEnds n _ => decide (s.stop = .shutting n)

/-- Change what belongs to the server of one call. -/
def upd {α : Type} (f : Nat → α) (n : Nat) (x : α) : Nat → α := fun m => if m = n then x else f m

def effect (svc : Service) (s : State) : Action → State
  | .start => { s with calls := s.calls + 1, start := .dialling }
  | .dialed none => { s with start := .registering 0 }
  | .dialed (some err) =>
      { s with start := .returned (some (err.wrap ("grpcgw: dial " ++ svc.endpoint ++ ": "))) }
  | .registered k (.returned none) => { s with start := .registering (k + 1) }
  | .registered _ (.returned (some err)) =>
      { s with start := .returned (some (err.wrap "grpcgw: register handler: ")) }
  -- a panic ends the call, as far as this service is concerned
  | .registered _ (.panicked value stack) =>
      { s with start := .returned (safeStart (.panicked value stack)) }
  | .publish => { s with srv := some s.calls, start := .listening }
  | .listened addr =>
      { s with
        listAddr := some addr
        ready := true
        serve := upd s.serve s.calls .serving
        start := .serving }
  | .listenFailed err =>
      { s with start := .returned (some (err.wrap ("grpcgw: listen " ++ svc.addr ++ ": "))) }
  | .serveEnds n e =>
      { s with
        serve := upd s.serve n .ended
        serveErr := upd s.serveErr n ((s.serveErr n).send e) }
  | .takeServe e =>
      { s with
        serveErr := upd s.serveErr s.calls (s.serveErr s.calls).drop
        start := .returned (startResult s.start e) }
  | .takeCtx => { s with start := .draining }
  | .cancel => { s with ctxDone := true }
  | .stop => { s with stop := .called }
  | .readSrv => { s with stop := .read s.srv }
  | .noServer => { s with stop := .returned none none }
  | .shutdown n => { s with told := upd s.told n true, stop := .shutting n }
  | .shutdownEnds n r => { s with stop := .returned (some n) (stopResult r) }

/-- The calls of `Start` and `Stop` of a service. -/
def gateway (svc : Service) : Lts State Action where
  guard := guard svc
  effect := effect svc

abbrev Run (svc : Service) (τ : List Action) (s : State) : Prop :=
  (gateway svc).Runs State.init τ s

abbrev RunIf (svc : Service) (ok : State → Action → Prop) (τ : List Action) (s : State) : Prop :=
  (gateway svc).Run ok State.init τ s

/-! ## The handshake -/

/-- The current call of `Start` waits for `Serve`, which has not returned. -/
def State.Awaits (s : State) (n : Nat) : Prop :=
  s.start.waits = true ∧ n = s.calls ∧ s.serve n = .serving

/-- When `Stop` has returned nil, `Start` does not wait for a server that nobody has
told to shut down. -/
def Handshake (s : State) : Prop :=
  ∀ srv, s.stop = .returned srv none → ∀ n, s.Awaits n → s.told n = true

/-- The steps that end a call of `Start`, without an error of `Serve` that nobody
caused. -/
def Action.ends : Action → Bool
  | .dialed _ | .registered _ _ | .publish | .listened _ | .listenFailed _
  | .serveEnds _ .closed | .takeServe _ | .takeCtx => true
  | _ => false

/-- The current call of `Start` gets its listener, and comes to serve. -/
def Action.listens : Action → Bool
  | .listened _ => true
  | _ => false

/-- The call of `Start` that comes to serve is not one whose server `Stop` has missed:
`Stop` has not read the field yet, has read this server, or has returned an error. -/
def ServerSeen (s : State) (a : Action) : Prop :=
  a.listens = true → ∀ srv ∈ s.stop.seen, s.stop.failed = false → srv = some s.calls

instance (s : State) (a : Action) : Decidable (ServerSeen s a) :=
  inferInstanceAs (Decidable (_ → ∀ srv ∈ s.stop.seen, _ → _))

variable {svc : Service} {ok : State → Action → Prop} {τ : List Action} {s : State}

/-- Behind its publication the server of the current call is in the field. -/
theorem published_of_run (hr : RunIf svc ok τ s) :
    s.start = .listening ∨ s.start.waits = true → s.srv = some s.calls := by
  refine hr.invariant (fun (_ : List Action) (s : State) =>
    s.start = .listening ∨ s.start.waits = true → s.srv = some s.calls) ?_ ?_
  · simp [State.init, StartPC.waits]
  · intro τ s a _ ih _ hg
    cases a with
    | listened addr =>
        have hpc : s.start = .listening := of_decide_eq_true hg
        exact fun _ => ih (Or.inl hpc)
    | takeCtx =>
        have hpc : s.start = .serving ∧ s.ctxDone = true := of_decide_eq_true hg
        exact fun _ => ih (Or.inr (by rw [hpc.1]; rfl))
    | publish => exact fun _ => rfl
    | dialed r => cases r <;> simp [gateway, effect, StartPC.waits]
    | registered k o =>
        cases o with
        | returned r => cases r <;> simp [gateway, effect, StartPC.waits]
        | panicked value stack => simp [gateway, effect, StartPC.waits]
    | start | listenFailed err | takeServe e => simp [gateway, effect, StartPC.waits]
    | _ => exact ih

/-- A server has been told to shut down when `Stop` has got hold of it. -/
theorem told_iff (hr : RunIf svc ok τ s) (n : Nat) :
    s.told n = true ↔ s.stop = .shutting n ∨ ∃ r, s.stop = .returned (some n) r := by
  refine hr.invariant (fun (_ : List Action) (s : State) =>
    s.told n = true ↔ s.stop = .shutting n ∨ ∃ r, s.stop = .returned (some n) r) ?_ ?_
  · simp [State.init]
  · intro τ s a _ ih _ hg
    cases a with
    | dialed r => cases r <;> exact ih
    | registered k o =>
        cases o with
        | returned r => cases r <;> exact ih
        | panicked value stack => exact ih
    | stop | readSrv | noServer | shutdownEnds m r => simp_all [gateway, guard, effect]
    | shutdown m =>
        simp only [gateway, guard, decide_eq_true_eq] at hg
        by_cases hn : n = m
        · simp [gateway, effect, upd, hn]
        · have hnot : ¬ m = n := fun hm => hn hm.symm
          simp_all [gateway, effect, upd]
    | _ => exact ih

/-- Where `Start` serves, `Stop` has not read another server. -/
private theorem seen_of_run (hr : RunIf svc ServerSeen τ s) :
    s.start.waits = true → ∀ srv ∈ s.stop.seen, s.stop.failed = false → srv = some s.calls := by
  refine hr.invariant (fun (_ : List Action) (s : State) => s.start.waits = true →
    ∀ srv ∈ s.stop.seen, s.stop.failed = false → srv = some s.calls) ?_ ?_
  · intro hinit
    cases hinit
  · intro τ s a hr ih hok hg hwaits srv hsrv hfailed
    cases a with
    | listened addr => exact hok rfl srv hsrv hfailed
    | takeCtx =>
        have hpc : s.start = .serving ∧ s.ctxDone = true := of_decide_eq_true hg
        exact ih (by rw [hpc.1]; rfl) srv hsrv hfailed
    | readSrv =>
        obtain rfl : s.srv = srv := by simpa [gateway, effect, StopPC.seen] using hsrv
        exact published_of_run hr (Or.inr hwaits)
    | stop => cases hsrv
    | noServer =>
        have hpc : s.stop = .read none := of_decide_eq_true hg
        exact ih hwaits srv (by simpa [gateway, effect, StopPC.seen, hpc] using hsrv)
          (by rw [hpc]; rfl)
    | shutdown n =>
        have hpc : s.stop = .read (some n) := of_decide_eq_true hg
        exact ih hwaits srv (by simpa [gateway, effect, StopPC.seen, hpc] using hsrv)
          (by rw [hpc]; rfl)
    | shutdownEnds n r =>
        have hpc : s.stop = .shutting n := of_decide_eq_true hg
        exact ih hwaits srv (by simpa [gateway, effect, StopPC.seen, hpc] using hsrv)
          (by rw [hpc]; rfl)
    | dialed r => cases r <;> cases hwaits
    | registered k o =>
        cases o with
        | returned r => cases r <;> cases hwaits
        | panicked value stack => cases hwaits
    | start | publish | listenFailed err | takeServe e => cases hwaits
    | _ => exact ih hwaits srv hsrv hfailed

theorem handshake_of_run (hr : RunIf svc ServerSeen τ s) : Handshake s := by
  rintro srv hstop n ⟨hwaits, rfl, -⟩
  obtain rfl := seen_of_run hr hwaits srv (by rw [hstop]; rfl) (by rw [hstop]; rfl)
  exact (told_iff hr s.calls).mpr (Or.inr ⟨none, hstop⟩)

/-! ## The end of `Start` -/

/-- The server of a call that has not come to serve. -/
def Untouched (s : State) (n : Nat) : Prop := s.serve n = .unborn ∧ (s.serveErr n).buf = []

/-- The result of `Serve` is sent once, and no call of `Start` ends before it has
received it. -/
structure Piped (s : State) : Prop where
  past : ∀ n, n < s.calls ∨ n = s.calls ∧ s.start.free = true → s.serve n ≠ .serving
  later : ∀ n, s.calls < n → Untouched s n
  early : s.start.early = true → Untouched s s.calls
  waits : s.start.waits = true →
    s.serve s.calls = .serving ∧ (s.serveErr s.calls).buf = [] ∨
      s.serve s.calls = .ended ∧ ∃ e, (s.serveErr s.calls).buf = [e]

/-- Where the places of `Start` and the servers stay the same nothing is to be shown. -/
private theorem Piped.keep {s s' : State} (hs : Piped s) (hcalls : s'.calls = s.calls)
    (hstart : s'.start = s.start) (hserve : s'.serve = s.serve)
    (herr : s'.serveErr = s.serveErr) : Piped s' := by
  constructor
  · rw [hcalls, hstart, hserve]
    exact hs.past
  · rw [hcalls]
    intro n hn
    rw [Untouched, hserve, herr]
    exact hs.later n hn
  · rw [hcalls, hstart, Untouched, hserve, herr]
    exact hs.early
  · rw [hcalls, hstart, hserve, herr]
    exact hs.waits

/-- A call of `Start` that goes on before it serves, or ends there. -/
private theorem Piped.go {s s' : State} (hs : Piped s) (hearly : s.start.early = true)
    (hcalls : s'.calls = s.calls) (hserve : s'.serve = s.serve)
    (herr : s'.serveErr = s.serveErr) (hwaits : s'.start.waits = false) : Piped s' := by
  have huntouched := hs.early hearly
  constructor
  · rw [hcalls, hserve]
    rintro n (hn | ⟨rfl, -⟩)
    · exact hs.past n (Or.inl hn)
    · rw [huntouched.1]
      nofun
  · rw [hcalls]
    intro n hn
    rw [Untouched, hserve, herr]
    exact hs.later n hn
  · rw [hcalls, Untouched, hserve, herr]
    exact fun _ => huntouched
  · rw [hwaits]
    nofun

private theorem piped_start (svc : Service) {s : State} (hs : Piped s)
    (hfree : s.start.free = true) :
    Piped (effect svc s .start) := by
  refine ⟨?_, fun n hn => hs.later n ((Nat.lt_succ_self _).trans hn),
    fun _ => hs.later _ (Nat.lt_succ_self _), nofun⟩
  rintro n (hn | ⟨-, hbusy⟩)
  · rcases Nat.lt_succ_iff_lt_or_eq.mp hn with hlt | rfl
    · exact hs.past n (Or.inl hlt)
    · exact hs.past _ (Or.inr ⟨rfl, hfree⟩)
  · cases hbusy

private theorem piped_listened (svc : Service) {s : State} (hs : Piped s)
    (hpc : s.start = .listening)
    (addr : String) : Piped (effect svc s (.listened addr)) := by
  have hearly := hs.early (by rw [hpc]; rfl)
  refine ⟨?_, fun n hn => ?_, nofun, fun _ => Or.inl ⟨if_pos rfl, hearly.2⟩⟩
  · rintro n (hn | ⟨-, hbusy⟩)
    · have hsame : upd s.serve s.calls .serving n = s.serve n := if_neg (Nat.ne_of_lt hn)
      exact fun hserve => hs.past n (Or.inl hn) (hsame.symm.trans hserve)
    · cases hbusy
  · exact ⟨(if_neg (Nat.ne_of_gt hn)).trans (hs.later n hn).1, (hs.later n hn).2⟩

private theorem piped_serveEnds (svc : Service) {s : State} (hs : Piped s) {n : Nat} {e : ServeErr}
    (hserve : s.serve n = .serving) (hroom : (s.serveErr n).hasRoom = true) :
    Piped (effect svc s (.serveEnds n e)) := by
  have hother : ∀ m, Untouched s m → Untouched (effect svc s (.serveEnds n e)) m := by
    intro m hm
    have hne : m ≠ n := by
      rintro rfl
      rw [hm.1] at hserve
      cases hserve
    exact ⟨(if_neg hne).trans hm.1, (congrArg Chan.buf (if_neg hne)).trans hm.2⟩
  refine ⟨fun m hm => ?_, fun m hm => hother m (hs.later m hm),
    fun h => hother _ (hs.early h), fun h => ?_⟩
  · by_cases hn : m = n
    · have hended : upd s.serve n .ended m = .ended := if_pos hn
      simp [effect, hended]
    · have hsame : upd s.serve n .ended m = s.serve m := if_neg hn
      exact fun hserve => hs.past m hm (hsame.symm.trans hserve)
  · by_cases hn : s.calls = n
    · subst hn
      have hbuf : (s.serveErr s.calls).buf = [] := by
        rw [Chan.hasRoom_iff] at hroom
        exact List.length_eq_zero_iff.mp (by omega)
      refine Or.inr ⟨if_pos rfl, e, ?_⟩
      simp only [effect, upd, ↓reduceIte, Chan.buf_send hroom, hbuf, List.nil_append]
    · simpa only [effect, upd, if_neg hn] using hs.waits h

private theorem piped_takeServe (svc : Service) {s : State} (hs : Piped s) {e : ServeErr}
    (hwaits : s.start.waits = true) (hnext : (s.serveErr s.calls).next = some e) :
    Piped (effect svc s (.takeServe e)) := by
  refine ⟨?_, fun n hn => ?_, nofun, nofun⟩
  · rintro n (hn | ⟨rfl, -⟩)
    · exact hs.past n (Or.inl hn)
    · rcases hs.waits hwaits with ⟨-, hbuf⟩ | ⟨hended, -⟩
      · obtain ⟨rest, hcons⟩ := (Chan.next_eq_some_iff _ _).mp hnext
        rw [hbuf] at hcons
        cases hcons
      · simp [effect, hended]
  · have hne := Nat.ne_of_gt hn
    exact ⟨(hs.later n hn).1, (congrArg Chan.buf (if_neg hne)).trans (hs.later n hn).2⟩

theorem piped_of_run (hr : RunIf svc ok τ s) : Piped s := by
  refine hr.invariant (fun (_ : List Action) (s : State) => Piped s) ?_ ?_
  · exact ⟨nofun, fun _ _ => ⟨rfl, rfl⟩, nofun, nofun⟩
  · intro τ s a _ ih _ hg
    cases a with
    | start => exact piped_start svc ih hg
    | dialed r =>
        have hpc : s.start = .dialling := of_decide_eq_true hg
        cases r <;> exact ih.go (by rw [hpc]; rfl) rfl rfl rfl rfl
    | registered k o =>
        have hpc : s.start = .registering k ∧ k < svc.registers := of_decide_eq_true hg
        cases o with
        | returned r => cases r <;> exact ih.go (by rw [hpc.1]; rfl) rfl rfl rfl rfl
        | panicked value stack => exact ih.go (by rw [hpc.1]; rfl) rfl rfl rfl rfl
    | publish =>
        have hpc : s.start = .registering svc.registers := of_decide_eq_true hg
        exact ih.go (by rw [hpc]; rfl) rfl rfl rfl rfl
    | listened addr => exact piped_listened svc ih (of_decide_eq_true hg) addr
    | listenFailed err =>
        have hpc : s.start = .listening := of_decide_eq_true hg
        exact ih.go (by rw [hpc]; rfl) rfl rfl rfl rfl
    | serveEnds n e =>
        obtain ⟨hserve, -, hroom⟩ : s.serve n = .serving ∧ _ ∧ (s.serveErr n).hasRoom = true :=
          of_decide_eq_true hg
        exact piped_serveEnds svc ih hserve hroom
    | takeServe e =>
        obtain ⟨hwaits, hnext⟩ : _ ∧ _ := of_decide_eq_true hg
        exact piped_takeServe svc ih hwaits hnext
    | takeCtx =>
        have hpc : s.start = .serving ∧ s.ctxDone = true := of_decide_eq_true hg
        refine ⟨?_, ih.later, nofun, fun _ => ih.waits (by rw [hpc.1]; rfl)⟩
        rintro n (hn | ⟨-, hbusy⟩)
        · exact ih.past n (Or.inl hn)
        · cases hbusy
    | _ => exact ih.keep rfl rfl rfl rfl

/-- How many steps a call of `Start` has yet to make, at most. -/
def startSteps (svc : Service) (s : State) : Nat :=
  match s.start with
  | .dialling => svc.registers + 6
  | .registering k => svc.registers - k + 5
  | .listening => 4
  | .serving => 2 + if s.serve s.calls = .serving then 1 else 0
  | .draining => 1 + if s.serve s.calls = .serving then 1 else 0
  | .idle | .returned _ => 0

/-- The registration functions are called one after the other. -/
theorem registering_le (hr : RunIf svc ok τ s) (k : Nat) :
    s.start = .registering k → k ≤ svc.registers := by
  refine hr.invariant (fun (_ : List Action) (s : State) =>
    s.start = .registering k → k ≤ svc.registers) nofun ?_
  intro τ s a _ ih _ hg hpc
  cases a with
  | dialed r =>
      cases r with
      | none =>
          obtain rfl : 0 = k := by simpa [gateway, effect] using hpc
          exact Nat.zero_le _
      | some err => cases hpc
  | registered k' o =>
      have hcan : s.start = .registering k' ∧ k' < svc.registers := of_decide_eq_true hg
      cases o with
      | returned r =>
          cases r with
          | none =>
              obtain rfl : k' + 1 = k := by simpa [gateway, effect] using hpc
              exact hcan.2
          | some err => cases hpc
      | panicked value stack => cases hpc
  | start | publish | listened addr | listenFailed err | takeServe e | takeCtx => cases hpc
  | _ => exact ih hpc

/-- Only a call of `Start` that gets its listener can have been missed. -/
private theorem not_missed {a : Action} (ha : a.listens = false) :
    ServerSeen s a :=
  fun hlistens => absurd (ha.symm.trans hlistens) Bool.false_ne_true

/-- As long as a call of `Start` is in progress one of its steps is possible. -/
private theorem start_step (hr : RunIf svc ServerSeen τ s) {srv : Option Nat}
    (hstop : s.stop = .returned srv none) (hfree : s.start.free = false) :
    ∃ a, a.ends = true ∧ ServerSeen s a ∧ (gateway svc).guard s a = true ∧
      (((gateway svc).effect s a).start.free = true ∨
        startSteps svc ((gateway svc).effect s a) < startSteps svc s) ∧
      ((gateway svc).effect s a).stop = s.stop := by
  have hserve : s.start.waits = true → ∃ a, a.ends = true ∧ ServerSeen s a ∧
      (gateway svc).guard s a = true ∧
      (((gateway svc).effect s a).start.free = true ∨
        startSteps svc ((gateway svc).effect s a) < startSteps svc s) ∧
      ((gateway svc).effect s a).stop = s.stop := by
    intro hwaits
    rcases (piped_of_run hr).waits hwaits with ⟨hserving, hbuf⟩ | ⟨-, e, hbuf⟩
    · have htold := handshake_of_run hr srv hstop s.calls ⟨hwaits, rfl, hserving⟩
      have hroom : (s.serveErr s.calls).hasRoom = true := by simp [Chan.hasRoom, hbuf]
      refine ⟨.serveEnds s.calls .closed, rfl, not_missed rfl,
        decide_eq_true ⟨hserving, by simp [htold], hroom⟩, Or.inr ?_, rfl⟩
      cases hpc : s.start <;> simp [hpc, StartPC.waits] at hwaits <;>
        simp [startSteps, gateway, effect, upd, hpc, hserving]
    · refine ⟨.takeServe e, rfl, not_missed rfl, decide_eq_true ⟨hwaits, ?_⟩, Or.inl rfl, rfl⟩
      exact (Chan.next_eq_some_iff _ _).mpr ⟨[], hbuf⟩
  cases hpc : s.start with
  | idle | returned r => simp [hpc, StartPC.free] at hfree
  | serving | draining => exact hserve (by rw [hpc]; rfl)
  | listening =>
      exact ⟨.listenFailed (newError ""), rfl, not_missed rfl, decide_eq_true hpc, Or.inl rfl, rfl⟩
  | dialling =>
      refine ⟨.dialed none, rfl, not_missed rfl, decide_eq_true hpc, Or.inr ?_, rfl⟩
      simp [startSteps, gateway, effect, hpc]
  | registering k =>
      rcases Nat.lt_or_eq_of_le (registering_le hr k hpc) with hlt | rfl
      · refine ⟨.registered k (.returned none), rfl, not_missed rfl, decide_eq_true ⟨hpc, hlt⟩,
          Or.inr ?_, rfl⟩
        simp only [startSteps, gateway, effect, hpc]
        omega
      · refine ⟨.publish, rfl, not_missed rfl, decide_eq_true hpc, Or.inr ?_, rfl⟩
        simp [startSteps, gateway, effect, hpc]

/-- A step of a call of `Start` ends it or brings it nearer to its end. -/
private theorem nearer_of_run (hr : RunIf svc ok τ s) {a : Action} (ha : a.ends = true)
    (hg : (gateway svc).guard s a = true) :
    ((gateway svc).effect s a).start.free = true ∨
      startSteps svc ((gateway svc).effect s a) < startSteps svc s := by
  cases a with
  | dialed r =>
      have hpc : s.start = .dialling := of_decide_eq_true hg
      cases r with
      | none => exact Or.inr (by simp [startSteps, gateway, effect, hpc])
      | some err => exact Or.inl rfl
  | registered k o =>
      have hpc : s.start = .registering k ∧ k < svc.registers := of_decide_eq_true hg
      cases o with
      | returned r =>
          cases r with
          | none =>
              right
              simp only [startSteps, gateway, effect, hpc.1]
              omega
          | some err => exact Or.inl rfl
      | panicked value stack => exact Or.inl rfl
  | publish =>
      have hpc : s.start = .registering svc.registers := of_decide_eq_true hg
      exact Or.inr (by simp [startSteps, gateway, effect, hpc])
  | listened addr =>
      have hpc : s.start = .listening := of_decide_eq_true hg
      exact Or.inr (by simp [startSteps, gateway, effect, upd, hpc])
  | listenFailed err => exact Or.inl rfl
  | serveEnds n e =>
      obtain ⟨hserve, -, -⟩ : s.serve n = .serving ∧ _ ∧ _ := of_decide_eq_true hg
      have hpiped := piped_of_run hr
      obtain rfl : n = s.calls := by
        rcases Nat.lt_trichotomy n s.calls with hlt | rfl | hgt
        · exact absurd hserve (hpiped.past n (Or.inl hlt))
        · rfl
        · rw [(hpiped.later n hgt).1] at hserve
          cases hserve
      right
      cases hpc : s.start with
      | idle | returned r =>
          exact absurd hserve (hpiped.past _ (Or.inr ⟨rfl, by rw [hpc]; rfl⟩))
      | dialling | registering k | listening =>
          rw [(hpiped.early (by rw [hpc]; rfl)).1] at hserve
          cases hserve
      | serving | draining => simp [startSteps, gateway, effect, upd, hpc, hserve]
  | takeServe e => exact Or.inl rfl
  | takeCtx =>
      have hpc : s.start = .serving ∧ s.ctxDone = true := of_decide_eq_true hg
      right
      simp only [startSteps, gateway, effect, hpc.1]
      exact Nat.add_lt_add_right (by decide) _
  | _ => cases ha

/-- When `Stop` has returned nil the call of `Start` in progress can end. -/
private theorem ends_of_run (hr : RunIf svc ServerSeen τ s) {srv : Option Nat}
    (hstop : s.stop = .returned srv none) :
    ∃ post s', (gateway svc).Run ServerSeen s post s' ∧ (∀ a ∈ post, a.ends = true) ∧
      s'.start.free = true := by
  by_cases hfree : s.start.free = true
  · exact ⟨[], s, .nil, by simp, hfree⟩
  · refine Lts.reaches_of_rank
      (P := fun s => (∃ τ, RunIf svc ServerSeen τ s) ∧ s.stop = .returned srv none ∧
        s.start.free = false) (startSteps svc) ?_ s ⟨⟨τ, hr⟩, hstop, by simpa using hfree⟩
    rintro s ⟨⟨τ, hr⟩, hstop, hbusy⟩
    obtain ⟨a, ha, hok, hg, hnear, hsame⟩ := start_step hr hstop hbusy
    refine ⟨a, ha, hok, hg, ?_⟩
    cases hfree : ((gateway svc).effect s a).start.free with
    | true => exact Or.inl rfl
    | false =>
        rcases hnear with hnow | hless
        · rw [hfree] at hnow
          cases hnow
        · exact Or.inr ⟨⟨⟨_, hr.snoc hok hg⟩, hsame.trans hstop, rfl⟩, hless⟩

/-! ## When the handshake succeeds -/

/-- What holds of a state in a run in which `Stop` misses no server. -/
structure Finishes (svc : Service) (s : State) : Prop where
  handshake : Handshake s
  /-- when `Stop` has returned nil the call of `Start` in progress can end -/
  ends : ∀ srv, s.stop = .returned srv none → ∃ post s',
    (gateway svc).Run ServerSeen s post s' ∧ (∀ a ∈ post, a.ends = true) ∧
      s'.start.free = true
  /-- and each of its steps brings it nearer to its end -/
  nearer : ∀ a, a.ends = true → (gateway svc).guard s a = true →
    ((gateway svc).effect s a).start.free = true ∨
      startSteps svc ((gateway svc).effect s a) < startSteps svc s

/-- A call of `Start` that comes to serve on a server that `Stop` has missed can be left
waiting for it. -/
private theorem missed_of_listened (hr : Run svc τ s) {addr : String}
    (hg : (gateway svc).guard s (.listened addr) = true) {srv : Option Nat}
    (hseen : s.stop.seen = some srv) (hfailed : s.stop.failed = false)
    (hne : srv ≠ some s.calls) :
    ∃ post s', (gateway svc).Runs ((gateway svc).effect s (.listened addr)) post s' ∧
      ¬ Handshake s' := by
  have hserve : Run svc (τ ++ [.listened addr]) _ := hr.snoc trivial hg
  -- wherever `Stop` stands it can return nil, and has not told this server
  have hlost : ∀ post s', (gateway svc).Runs ((gateway svc).effect s (.listened addr)) post s' →
      s'.stop = .returned srv none → s'.start = .serving → s'.calls = s.calls →
      s'.serve s.calls = .serving → ¬ Handshake s' := by
    intro post s' hpost hstop hstart hcalls hserving hshake
    have htold := hshake srv hstop s.calls ⟨by rw [hstart]; rfl, hcalls.symm, hserving⟩
    rcases (told_iff (hserve.trans hpost) s.calls).mp htold with hshut | ⟨r, hret⟩
    · rw [hstop] at hshut
      cases hshut
    · rw [hstop] at hret
      obtain ⟨rfl, -⟩ := StopPC.returned.inj hret
      exact hne rfl
  have hupd : upd s.serve s.calls .serving s.calls = .serving := if_pos rfl
  have hnone : (gateway svc).Runs ((gateway svc).effect s (.listened addr)) [] _ := .nil
  cases hpc : s.stop with
  | uncalled | called => simp [hpc, StopPC.seen] at hseen
  | read srv' =>
      obtain rfl : srv' = srv := by simpa [hpc, StopPC.seen] using hseen
      cases srv' with
      | none =>
          have hret := hnone.snoc (a := Action.noServer) trivial (decide_eq_true hpc)
          exact ⟨_, _, hret, hlost _ _ hret rfl rfl rfl hupd⟩
      | some n =>
          have hshut := hnone.snoc (a := Action.shutdown n) trivial (decide_eq_true hpc)
          have hret := hshut.snoc (a := Action.shutdownEnds n none) trivial (decide_eq_true rfl)
          exact ⟨_, _, hret, hlost _ _ hret rfl rfl rfl hupd⟩
  | shutting n =>
      obtain rfl : some n = srv := by simpa [hpc, StopPC.seen] using hseen
      have hret := hnone.snoc (a := Action.shutdownEnds n none) trivial (decide_eq_true hpc)
      exact ⟨_, _, hret, hlost _ _ hret rfl rfl rfl hupd⟩
  | returned srv' r =>
      obtain rfl : srv' = srv := by simpa [hpc, StopPC.seen] using hseen
      cases r with
      | some err => simp [hpc, StopPC.failed] at hfailed
      | none => exact ⟨_, _, hnone, hlost _ _ hnone hpc rfl rfl hupd⟩

/-- The handshake succeeds in every run in which `Stop` misses no server; and a step by
which it misses one can be followed by a run in which the handshake fails. -/
theorem handshake_iff (svc : Service) :
    (∀ τ s, RunIf svc ServerSeen τ s → Finishes svc s) ∧
    ∀ τ s a, Run svc τ s → (gateway svc).guard s a = true → ¬ ServerSeen s a →
      ∃ post s', (gateway svc).Runs ((gateway svc).effect s a) post s' ∧ ¬ Handshake s' := by
  constructor
  · intro τ s hr
    exact
      { handshake := handshake_of_run hr
        ends := fun _ hstop => ends_of_run hr hstop
        nearer := fun _ ha hg => nearer_of_run hr ha hg }
  · intro τ s a hr hg hmissed
    simp only [ServerSeen, not_forall] at hmissed
    obtain ⟨hlistens, srv, hseen, hfailed, hne⟩ := hmissed
    cases a with
    | listened addr => exact missed_of_listened hr hg hseen hfailed hne
    | _ => cases hlistens

/-! ## Two runs -/

/-- A gateway with one registration function. -/
def soloService : Service := ⟨":8081", "localhost:9090", 1⟩

/-- The host is shut down while `Start` is in its registration function. -/
def missingRun : List Action :=
  [.start, .dialed none, .cancel, .stop, .readSrv, .noServer, .registered 0 (.returned none),
    .publish, .listened "[::]:8081", .takeCtx]

/-- `Stop` can miss the server of `Start`. -/
theorem server_missed : ¬ ∀ (svc : Service) (τ : List Action) (s : State),
    Run svc τ s → Handshake s := by
  intro hall
  have hr : Run soloService missingRun _ := Lts.Admits.run (by decide)
  have htold := hall soloService missingRun _ hr none (by decide) 1
    ⟨by decide, by decide, by decide⟩
  exact absurd htold (by decide)

/-- The first call of `Start` finds its address in use; the second one serves, and is
shut down. -/
def servingRun : List Action :=
  [.start, .dialed none, .registered 0 (.returned none), .publish,
    .listenFailed (newError "address already in use"), .start, .dialed none,
    .registered 0 (.returned none), .publish, .listened "[::]:8081", .cancel, .takeCtx, .stop,
    .readSrv, .shutdown 2, .shutdownEnds 2 none]

theorem handshake_servingRun :
    Finishes soloService ((gateway soloService).after State.init servingRun) :=
  (handshake_iff soloService).1 servingRun _ (Lts.Admits.run (by decide))

end Shost.Ports.Grpcgw
