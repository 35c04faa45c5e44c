import Mathlib.Tactic

/-!
# The host: configuration, errors and callbacks

The data of `Host` and of the errors, hooks and observer callbacks it deals
with.  Services, startup tasks, hooks and observers are code of the caller:
of a service only the name, whether it implements `Readier` and its restart
policy are part of a host, of an observer which callbacks are set.  What the
code does when it is called is left to the environment.
-/

namespace Shost.Ports.Hosting

/-- `time.Duration`, in nanoseconds. -/
abbrev Duration := Int

/-! ## Errors -/

/-- An error value: its text, and which of the two errors of package `context`
it wraps. -/
structure Error where
  text : String
  canceled : Bool
  deadlineExceeded : Bool
  deriving DecidableEq

/-- The error result of a call; none is `nil`. -/
abbrev Result := Option Error

/-- The reasons for which a context is done. -/
inductive CtxErr where
  | canceled
  | deadlineExceeded
  deriving DecidableEq

/-- `ctx.Err()` for a context that is done. -/
def CtxErr.error : CtxErr → Error
  | .canceled => ⟨"context canceled", true, false⟩
  | .deadlineExceeded => ⟨"context deadline exceeded", false, true⟩

/-- `fmt.Errorf("…%w", err)`: another text, the same wrapped errors. -/
def Error.wrap (intro : String) (err : Error) : Error := { err with text := intro ++ err.text }

/-- A new error that wraps nothing. -/
def newError (text : String) : Error := ⟨text, false, false⟩

/-- How a call of the caller's code ends. -/
inductive Outcome where
  | returned (r : Result)
  | panicked (value stack : String)
  deriving DecidableEq

/-- The deferred recovery shared by `safeStart`, `safeTask` and `safeStop`. -/
def recovered (intro : String) : Outcome → Result
  | .returned r => r
  | .panicked value stack => some (newError (intro ++ value ++ "\n" ++ stack))

def safeStart : Outcome → Result := recovered "panic in Start: "

def safeTask : Outcome → Result := recovered "panic: "

def safeStop : Outcome → Result := recovered "panic in Stop: "

/-! ## The errors a run reports -/

/-- The errors that `RunContext` joins. -/
inductive HostError where
  | taskFailed (k : Nat) (err : Error)
  | notReady (i : Nat)
  | failed (i : Nat) (err : Error)
  | exited (i : Nat)
  | stopping (i : Nat) (err : Error)
  | failedDuringShutdown (i : Nat) (err : Error)
  | didNotStop (i : Nat)
  deriving DecidableEq

/-- The service an error names. -/
def HostError.service : HostError → Option Nat
  | .taskFailed _ _ => none
  | .notReady i | .failed i _ | .exited i | .stopping i _ | .failedDuringShutdown i _
  | .didNotStop i => some i

/-! ## Configuration -/

/-- `RestartPolicy`; the factor is taken as a rational. -/
structure RestartPolicy where
  maxAttempts : Int
  initialDelay : Duration
  maxDelay : Duration
  factor : ℚ
  resetAfter : Duration

/-- What `Build` guarantees of a stored restart policy. -/
structure RestartPolicy.Normal (p : RestartPolicy) : Prop where
  attempts_nonneg : 0 ≤ p.maxAttempts
  initial_pos : 0 < p.initialDelay
  initial_le : p.initialDelay ≤ p.maxDelay
  factor_ge : 1 ≤ p.factor
  reset_pos : 0 < p.resetAfter

/-- `registration`, as far as the host loop looks at it. -/
structure Registration where
  name : String
  readier : Bool
  restart : Option RestartPolicy

/-- `startupTask`. -/
structure StartupTask where
  name : String

/-- A lifecycle hook. -/
structure Hook where
  id : Nat
  deriving DecidableEq

inductive HookKind where
  | onStarted
  | onStopping
  | onStopped
  deriving DecidableEq

/-- The callbacks of an observer, with their arguments.  Services are named by
their position.  `serviceStopped` carries the moment from which the elapsed time it
reports is counted, `hostStopped` the errors whose join it is called with. -/
inductive Callback where
  | hostStarted
  | hostStopped (errs : List HostError)
  | serviceStarted (i : Nat)
  | serviceReady (i : Nat)
  | serviceRestarting (i : Nat) (attempt : Int) (delay : Duration) (err : Result)
  | serviceStopped (i : Nat) (began : Int) (err : Result)
  | serviceFailed (i : Nat) (err : Result)
  deriving DecidableEq

/-- The service a callback is about. -/
def Callback.about : Callback → Option Nat
  | .hostStarted | .hostStopped _ => none
  | .serviceStarted i | .serviceReady i | .serviceRestarting i _ _ _
  | .serviceStopped i _ _ | .serviceFailed i _ => some i

/-- `Observer`: which of its callbacks are not nil. -/
structure Observer where
  hostStarted : Bool
  hostStopped : Bool
  serviceStarted : Bool
  serviceReady : Bool
  serviceRestarting : Bool
  serviceStopped : Bool
  serviceFailed : Bool

/-- The observer has a function for the callback. -/
def Observer.sets (o : Observer) : Callback → Bool
  | .hostStarted => o.hostStarted
  | .hostStopped _ => o.hostStopped
  | .serviceStarted _ => o.serviceStarted
  | .serviceReady _ => o.serviceReady
  | .serviceRestarting .. => o.serviceRestarting
  | .serviceStopped .. => o.serviceStopped
  | .serviceFailed .. => o.serviceFailed

/-- `Host`.  The last four fields are what `Build` guarantees. -/
structure Host where
  services : List Registration
  tasks : List StartupTask
  shutdownTimeout : Duration
  startTimeout : Duration
  onStarted : List Hook
  onStopping : List Hook
  onStopped : List Hook
  observers : List Observer
  names_nonempty : ∀ reg ∈ services, reg.name ≠ ""
  names_nodup : (services.map Registration.name).Nodup
  shutdownTimeout_pos : 0 < shutdownTimeout
  policies_normal : ∀ reg ∈ services, ∀ p ∈ reg.restart, p.Normal

/-- `DefaultShutdownTimeout`: 30 seconds. -/
def defaultShutdownTimeout : Duration := 30000000000

/-- The host that `Build` returns when nothing but services were added. -/
def Host.ofServices (services : List Registration)
    (names_nonempty : ∀ reg ∈ services, reg.name ≠ "")
    (names_nodup : (services.map Registration.name).Nodup)
    (policies_normal : ∀ reg ∈ services, ∀ p ∈ reg.restart, p.Normal) : Host where
  services := services
  tasks := []
  shutdownTimeout := defaultShutdownTimeout
  startTimeout := 0
  onStarted := []
  onStopping := []
  onStopped := []
  observers := []
  names_nonempty := names_nonempty
  names_nodup := names_nodup
  shutdownTimeout_pos := by decide
  policies_normal := policies_normal

/-- A host with one service, which has no restart policy. -/
def soloHost : Host :=
  .ofServices [⟨"worker", false, none⟩] (by decide) (by decide) (by simp)

namespace Host

/-- The name of the service at a position. -/
def name (h : Host) (i : Nat) : String := (h.services[i]?.map Registration.name).getD ""

/-- The service at a position implements `Readier`. -/
def readier (h : Host) (i : Nat) : Bool := (h.services[i]?.map Registration.readier).getD false

/-- The restart policy of the service at a position. -/
def restart (h : Host) (i : Nat) : Option RestartPolicy :=
  h.services[i]?.bind Registration.restart

def taskName (h : Host) (k : Nat) : String := (h.tasks[k]?.map StartupTask.name).getD ""

/-- The hooks of a kind, in registration order. -/
def hooks (h : Host) : HookKind → List Hook
  | .onStarted => h.onStarted
  | .onStopping => h.onStopping
  | .onStopped => h.onStopped

end Host

/-! ## Error values and texts -/

/-- The error of a service that was abandoned at the deadline. -/
def didNotStopError (h : Host) (i : Nat) : Error :=
  newError ("shost: service " ++ h.name i ++ " did not stop within shutdown timeout")

/-- The error value with its text; `showDuration` is the `%v` verb. -/
def HostError.toError (h : Host) (showDuration : Duration → String) : HostError → Error
  | .taskFailed k err => err.wrap ("shost: startup task " ++ h.taskName k ++ ": ")
  | .notReady i =>
      newError ("shost: service " ++ h.name i ++ " not ready within start timeout " ++
        showDuration h.startTimeout)
  | .failed i err => err.wrap ("shost: service " ++ h.name i ++ " failed: ")
  | .exited i => newError ("shost: service " ++ h.name i ++ " exited unexpectedly")
  | .stopping i err => err.wrap ("shost: stopping service " ++ h.name i ++ ": ")
  | .failedDuringShutdown i err =>
      err.wrap ("shost: service " ++ h.name i ++ " failed during shutdown: ")
  | .didNotStop i => didNotStopError h i

/-- `errors.Join`: nil when there is nothing to join. -/
def joinErrors (errs : List Error) : Result :=
  if errs = [] then none
  else some
    { text := "\n".intercalate (errs.map Error.text)
      canceled := errs.any Error.canceled
      deadlineExceeded := errs.any Error.deadlineExceeded }

/-- `serviceExit`. -/
structure ServiceExit where
  index : Nat
  err : Result
  deriving DecidableEq

/-- The error that `exitError` makes of an exit. -/
def exitError (exit : ServiceExit) : HostError :=
  match exit.err with
  | some err => .failed exit.index err
  | none => .exited exit.index

theorem exitError_service (exit : ServiceExit) :
    (exitError exit).service = some exit.index := by
  unfold exitError
  split <;> rfl

/-- The text of an error names its service: after the prefix every text
contains the name that the host knows the service by. -/
theorem HostError.text_names (h : Host) (showDuration : Duration → String) (e : HostError)
    (i : Nat) (he : e.service = some i) :
    ∃ pre post, (e.toError h showDuration).text = pre ++ h.name i ++ post := by
  cases e <;> simp only [HostError.service, Option.some.injEq, reduceCtorEq] at he <;> subst he
  case notReady =>
    exact ⟨"shost: service ", " not ready within start timeout " ++
      showDuration h.startTimeout, by simp [HostError.toError, newError, String.append_assoc]⟩
  case failed err =>
    exact ⟨"shost: service ", " failed: " ++ err.text,
      by simp [HostError.toError, Error.wrap, String.append_assoc]⟩
  case exited =>
    exact ⟨"shost: service ", " exited unexpectedly", by simp [HostError.toError, newError]⟩
  case stopping err =>
    exact ⟨"shost: stopping service ", ": " ++ err.text,
      by simp [HostError.toError, Error.wrap, String.append_assoc]⟩
  case failedDuringShutdown err =>
    exact ⟨"shost: service ", " failed during shutdown: " ++ err.text,
      by simp [HostError.toError, Error.wrap, String.append_assoc]⟩
  case didNotStop =>
    exact ⟨"shost: service ", " did not stop within shutdown timeout",
      by simp [HostError.toError, didNotStopError, newError]⟩

/-- A text contains the name of a service. -/
def Mentions (h : Host) (i : Nat) (text : String) : Prop :=
  ∃ pre post, text = pre ++ h.name i ++ post

/-- A text is part of every text it is joined into. -/
theorem intercalate_mem {x : String} {texts : List String} (hx : x ∈ texts) (sep : String) :
    ∃ pre post, sep.intercalate texts = pre ++ x ++ post := by
  induction texts with
  | nil => cases hx
  | cons y rest ih =>
      cases rest with
      | nil =>
          obtain rfl : x = y := by simpa using hx
          exact ⟨"", "", by simp⟩
      | cons z rest =>
          rw [String.intercalate_cons_cons]
          rcases List.mem_cons.mp hx with rfl | hx
          · exact ⟨"", sep ++ sep.intercalate (z :: rest), by simp [String.append_assoc]⟩
          · obtain ⟨pre, post, hjoin⟩ := ih hx
            exact ⟨y ++ sep ++ pre, post, by rw [hjoin]; simp [String.append_assoc]⟩

/-- The joined error names every service that one of the errors is about. -/
theorem joinErrors_names (h : Host) (showDuration : Duration → String)
    {errs : List HostError} {e : HostError} {i : Nat} (hmem : e ∈ errs)
    (he : e.service = some i) :
    ∃ err, joinErrors (errs.map (HostError.toError h showDuration)) = some err ∧
      Mentions h i err.text := by
  have hne : errs.map (HostError.toError h showDuration) ≠ [] :=
    List.ne_nil_of_mem (List.mem_map.mpr ⟨e, hmem, rfl⟩)
  refine ⟨_, if_neg hne, ?_⟩
  obtain ⟨pre, post, htext⟩ := HostError.text_names h showDuration e i he
  have hin : (e.toError h showDuration).text ∈
      (errs.map (HostError.toError h showDuration)).map Error.text :=
    List.mem_map.mpr ⟨_, List.mem_map.mpr ⟨e, hmem, rfl⟩, rfl⟩
  obtain ⟨pre', post', hjoin⟩ := intercalate_mem hin "\n"
  exact ⟨pre' ++ pre, post ++ post', by rw [hjoin, htext]; simp [String.append_assoc]⟩

/-! ## Calls the host makes synchronously -/

/-- One call of a hook or of one observer's callback. -/
inductive Callout where
  | hook (kind : HookKind) (f : Hook)
  | callback (o : Nat) (c : Callback)
  deriving DecidableEq

/-- The calls that `observe` makes: the callback of every observer that sets
it, in registration order. -/
def Host.observe (h : Host) (c : Callback) : List Callout :=
  (h.observers.zipIdx.filter fun p => p.1.sets c).map fun p => .callback p.2 c

/-- The calls that `runHooks` makes. -/
def Host.runHooks (h : Host) (kind : HookKind) : List Callout :=
  (h.hooks kind).map (.hook kind)

/-- A goroutine working through hooks and callbacks: the calls still to be
made and the one in progress. -/
structure Caller where
  queue : List Callout
  current : Option Callout
  deriving DecidableEq

namespace Caller

/-- Nothing to call and nothing in progress. -/
def idle (c : Caller) : Bool := c.queue == [] && c.current == none

def none : Caller := ⟨[], Option.none⟩

/-- The next call begins. -/
def begin' (c : Caller) : Caller := ⟨c.queue.tail, c.queue.head?⟩

/-- The call in progress has returned, or its panic has been recovered. -/
def finish (c : Caller) : Caller := ⟨c.queue, Option.none⟩

theorem idle_iff (c : Caller) : c.idle = true ↔ c = none := by
  obtain ⟨queue, current⟩ := c
  simp [idle, none]

end Caller

end Shost.Ports.Hosting
