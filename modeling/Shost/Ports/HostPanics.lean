import Shost.Ports.HostCallbacks
import Shost.Verified.Unwind

/-!
# Panics

Hooks and observer callbacks are called by goroutines that would take the process
down with them if a panic came through.  Here every such goroutine has its stack:
`runHooks` and `observe` call each hook and callback inside a function literal
that defers a recovery, and a panic unwinds the stack to the nearest of these.  The
process runs these goroutines, those of calls of `Reload`, and the steps of the
system between them.

## Main results

* `panics_contained` — a run takes the same course as the run in which every panic
  is replaced by a return, and is a run of the system in which panics are not
  looked at.
-/

namespace Shost.Ports.Hosting

open Shost.Verified

variable {h : Host} {onReload : List Hook}

/-- A call of the caller's code. -/
inductive Call where
  | callout (c : Callout)
  | onReload (f : Hook)
  deriving DecidableEq

/-! ## The calls in the source -/

/-- `runHooks`: each hook in a function literal that recovers. -/
def runHooksBody (fn : Hook → Call) (hooks : List Hook) : Stmt Call :=
  .block false (hooks.map fun f => .block true [.call (fn f)])

/-- `observe`: for each observer, `fn` in a function literal that recovers; `fn`
makes the callback if it is set. -/
def Host.observeBody (h : Host) (c : Callback) : Stmt Call :=
  .block false (h.observers.zipIdx.map fun p =>
    .block true [.block false
      (if p.1.sets c then [.call (.callout (.callback p.2 c))] else [])])

/-- `runHooks` for the hooks of a kind. -/
def Host.runHooksBody (h : Host) (kind : HookKind) : Stmt Call :=
  Hosting.runHooksBody (fun f => .callout (.hook kind f)) (h.hooks kind)

/-- What the host goroutine calls after a step, before it comes to the next one. -/
def hostBody (s : State h) : HostAct → List (Stmt Call)
  | .run (.launch k) => [h.observeBody (.serviceStarted k)]
  | .run (.ready k) => [h.observeBody (.serviceReady k)]
  | .run (.takeExit exit) => [h.observeBody (.serviceFailed exit.index exit.err)]
  | .run (.started _) => [h.runHooksBody .onStarted, h.observeBody .hostStarted]
  | .run .beginStopping => [h.runHooksBody .onStopping]
  | .run .join => [h.observeBody (.hostStopped s.errs)]
  | .stop (.takeDone i began svcErr r) =>
      [h.observeBody (.serviceStopped i began
        ((shutdownFailure s.causeIndex i r).elim svcErr fun err => some (svcErr.getD err)))]
  | .stop (.abandon i began) =>
      [h.observeBody (.serviceStopped i began (some (didNotStopError h i)))]
  | .stop .leave => [h.runHooksBody .onStopped]
  | _ => []

/-- What a supervisor calls after a step: `v` is the service after it. -/
def supBody (h : Host) (i : Nat) (v : Svc) : SupAct → List (Stmt Call)
  | .check _ err =>
      if v.sup = .observing then
        [h.observeBody (.serviceRestarting i v.attempts v.delay err)]
      else []
  | _ => []

/-! ## The process -/

/-- A goroutine that calls hooks or callbacks. -/
inductive Goroutine where
  | host
  | sup (i : Nat)
  | reload (n : Nat)
  deriving DecidableEq

/-- The place of a goroutine in `Reload`. -/
inductive ReloadPC where
  | unborn
  /-- before `h.reloadMu.Lock()` -/
  | waiting
  /-- in `runHooks` -/
  | holding
  | returned
  deriving DecidableEq

inductive ReloadAct where
  | call
  | lock
  | unlock
  deriving DecidableEq

/-- The state of a process: `base` is the state of the run, in which no calls are
kept, `thread` the stacks of the goroutines that make the calls. -/
structure Process (h : Host) where
  base : State h
  thread : Goroutine → Thread Call
  reload : Nat → ReloadPC
  reloadMu : Bool

/-- The actions of a process: those of the system other than calls, the steps of the
goroutines that make calls, and those of `Reload`. -/
inductive ProcAct where
  | base (a : Action)
  | thread (g : Goroutine) (a : ThreadAct Call)
  | reload (n : Nat) (a : ReloadAct)
  deriving DecidableEq

/-- The state of a run with other calls. -/
def State.withCallers (s : State h) (c : Caller) (cs : Nat → Caller) : State h :=
  { s with caller := c, svc := fun i => { s.svc i with caller := cs i } }

/-- The state of a run without the calls. -/
def State.quiet (s : State h) : State h := s.withCallers .none fun _ => .none

namespace Process

def init (h : Host) : Process h where
  base := .init h
  thread := fun _ => .start []
  reload := fun _ => .unborn
  reloadMu := false

variable (s : Process h)

/-- A goroutine begins with some statements. -/
def load (g : Goroutine) (body : List (Stmt Call)) : Process h :=
  { s with thread := fun g' => if g' = g then .start body else s.thread g' }

/-- A goroutine takes its next step when it has returned from its calls. -/
def baseGuard : Action → Bool
  | .call _ _ => false
  | .host a => (s.thread .host).idle && hostCan s.base a
  | .sup i a => (s.thread (.sup i)).idle && supGuard s.base i a
  | a => (system h).guard s.base a

/-- The step, and what its goroutine calls then. -/
def baseEffect (a : Action) : Process h :=
  let base := (system h).effect s.base a
  let s' := { s with base := base.quiet }
  match a with
  | .host b => s'.load .host (hostBody s.base b)
  | .sup i b => s'.load (.sup i) (supBody h i (base.svc i) b)
  | _ => s'

def reloadGuard (n : Nat) : ReloadAct → Bool
  | .call => decide (s.reload n = .unborn)
  | .lock => decide (s.reload n = .waiting ∧ s.reloadMu = false)
  | .unlock => decide (s.reload n = .holding) && (s.thread (.reload n)).idle

/-- Change the place of a goroutine in `Reload`. -/
def modReload (n : Nat) (pc : ReloadPC) : Process h :=
  { s with reload := fun m => if m = n then pc else s.reload m }

def reloadEffect (onReload : List Hook) (n : Nat) : ReloadAct → Process h
  | .call => s.modReload n .waiting
  | .lock =>
      { s.modReload n .holding with reloadMu := true } |>.load (.reload n)
        [Hosting.runHooksBody .onReload onReload]
  | .unlock => { s.modReload n .returned with reloadMu := false }

def threadEffect (g : Goroutine) (a : ThreadAct Call) : Process h :=
  { s with thread := fun g' => if g' = g then (s.thread g).effect a else s.thread g' }

end Process

/-- The process of a host, with the hooks of `Reload`. -/
def process (h : Host) (onReload : List Hook) : Lts (Process h) ProcAct where
  guard s
    | .base a => s.baseGuard a
    | .thread g a => (s.thread g).guard a
    | .reload n a => s.reloadGuard n a
  effect s
    | .base a => s.baseEffect a
    | .thread g a => s.threadEffect g a
    | .reload n a => s.reloadEffect onReload n a

/-- A run of the process with its history. -/
abbrev ProcRun (h : Host) (onReload : List Hook) (τ : List ProcAct) (s : Process h) : Prop :=
  (process h onReload).Runs (Process.init h) τ s

/-! ## Every call is shielded -/

theorem shielded_runHooks (fn : Hook → Call) (hooks : List Hook) :
    Shielded (runHooksBody fn hooks) := by
  refine .group _ fun x hx => ?_
  obtain ⟨f, -, rfl⟩ := List.mem_map.mp hx
  exact .lone (.call _)

theorem shielded_observe (h : Host) (c : Callback) : Shielded (h.observeBody c) := by
  refine .group _ fun x hx => ?_
  obtain ⟨p, -, rfl⟩ := List.mem_map.mp hx
  refine .lone (.block _ ?_)
  split
  · exact .call _
  · exact .nil

theorem shielded_hostBody (s : State h) (a : HostAct) : ∀ x ∈ hostBody s a, Shielded x := by
  have hobserve : ∀ c, ∀ x ∈ [h.observeBody c], Shielded x := by
    intro c x hx
    rw [List.mem_singleton.mp hx]
    exact shielded_observe h c
  have hhooks : ∀ kind, ∀ x ∈ [h.runHooksBody kind], Shielded x := by
    intro kind x hx
    rw [List.mem_singleton.mp hx]
    exact shielded_runHooks _ _
  cases a with
  | task a => simp [hostBody]
  | run a =>
      cases a with
      | launch k | ready k | takeExit exit | join => exact hobserve _
      | beginStopping => exact hhooks _
      | started k =>
          intro x hx
          rcases List.mem_cons.mp hx with rfl | hx
          · exact shielded_runHooks _ _
          · exact hobserve _ x hx
      | _ => simp [hostBody]
  | stop a =>
      cases a with
      | takeDone i began svcErr r | abandon i began => exact hobserve _
      | leave => exact hhooks _
      | _ => simp [hostBody]

theorem shielded_supBody (h : Host) (i : Nat) (v : Svc) (a : SupAct) :
    ∀ x ∈ supBody h i v a, Shielded x := by
  intro x hx
  cases a with
  | check began err =>
      simp only [supBody] at hx
      split at hx
      · rw [List.mem_singleton.mp hx]
        exact shielded_observe h _
      · cases hx
  | _ => cases hx

variable {τ : List ProcAct} {s : Process h}

/-- The stacks of all goroutines are safe. -/
def Process.Safe (s : Process h) : Prop := ∀ g, (s.thread g).Safe

theorem Process.Safe.load (hs : s.Safe) {g : Goroutine} {body : List (Stmt Call)}
    (hbody : ∀ x ∈ body, Shielded x) : (s.load g body).Safe := by
  intro g'
  simp only [Process.load]
  split
  · exact Thread.safe_start hbody
  · exact hs g'

/-- Every step of the process keeps the stacks safe. -/
theorem safe_step (hs : s.Safe) {a : ProcAct} (hg : (process h onReload).guard s a = true) :
    ((process h onReload).effect s a).Safe := by
  cases a with
  | base a =>
      cases a with
      | host b => exact Process.Safe.load hs (shielded_hostBody _ b)
      | sup i b => exact Process.Safe.load hs (shielded_supBody h i _ b)
      | _ => exact hs
  | thread g a =>
      intro g'
      simp only [process, Process.threadEffect]
      split
      · exact (hs g).step hg
      · exact hs g'
  | reload n a =>
      cases a with
      | lock =>
          refine Process.Safe.load hs fun x hx => ?_
          rw [List.mem_singleton.mp hx]
          exact shielded_runHooks _ _
      | _ => exact hs

theorem safe_of_run (hr : ProcRun h onReload τ s) : s.Safe := by
  refine hr.invariant (fun (_ : List ProcAct) (s : Process h) => s.Safe) ?_ ?_
  · exact fun _ => Thread.safe_start (by simp)
  · exact fun _ _ _ _ hs _ hg => safe_step hs hg

/-! ## The run without panics -/

/-- The action in which every call returns: a panic of a task, of `Start` or of
`Stop` is replaced by the error that the recovery makes of it. -/
def Action.calm : Action → Action
  | .host (.task (.result k o ctxDone)) =>
      .host (.task (.result k (.returned (safeTask o)) ctxDone))
  | .sup i (.result began o) => .sup i (.result began (.returned (safeStart o)))
  | .stopper i (.result o) => .stopper i (.result (.returned (safeStop o)))
  | a => a

def ProcAct.calm : ProcAct → ProcAct
  | .base a => .base a.calm
  | .thread g a => .thread g a.calm
  | a => a

/-- The process with no goroutine in a panic. -/
def Process.calm (s : Process h) : Process h :=
  { s with thread := fun g => (s.thread g).calm }

/-- What does not tell a recovered panic from its error does not tell an action from
the one without panics. -/
private theorem eq_calm {β : Type} (f : Action → β)
    (htask : ∀ k o ctxDone, f (.host (.task (.result k (.returned (safeTask o)) ctxDone))) =
      f (.host (.task (.result k o ctxDone))))
    (hstart : ∀ i began o, f (.sup i (.result began (.returned (safeStart o)))) =
      f (.sup i (.result began o)))
    (hstop : ∀ i o, f (.stopper i (.result (.returned (safeStop o)))) =
      f (.stopper i (.result o))) (a : Action) : f a.calm = f a := by
  cases a with
  | host b =>
      cases b with
      | task b =>
          cases b with
          | result k o ctxDone => exact htask k o ctxDone
          | _ => rfl
      | _ => rfl
  | sup i b =>
      cases b with
      | result began o => exact hstart i began o
      | _ => rfl
  | stopper i b =>
      cases b with
      | result o => exact hstop i o
      | _ => rfl
  | _ => rfl

theorem baseGuard_calm (s : Process h) (a : Action) : s.baseGuard a.calm = s.baseGuard a :=
  eq_calm s.baseGuard (fun _ _ _ => rfl) (fun _ _ _ => rfl) (fun _ _ => rfl) a

theorem baseEffect_calm (s : Process h) (a : Action) : s.baseEffect a.calm = s.baseEffect a :=
  eq_calm s.baseEffect (fun _ _ _ => rfl) (fun _ _ _ => rfl) (fun _ _ => rfl) a

/-- A safe thread is idle when it is so without panics. -/
theorem idle_calm {t : Thread Call} (ht : t.Safe) : t.calm.idle = t.idle := by
  obtain ⟨frames, mode⟩ := t
  cases mode with
  | panicking =>
      obtain ⟨f, outer, rfl⟩ := List.exists_cons_of_ne_nil (Sheltered.allShielded ht).1
      obtain ⟨g, outer', rfl⟩ := List.exists_cons_of_ne_nil (Sheltered.outer ht).1
      simp [Thread.calm, Thread.idle]
  | _ => rfl

/-- Behind a base step no goroutine panics that did not before. -/
private theorem calm_load (s : Process h) (g : Goroutine) (body : List (Stmt Call)) :
    (s.load g body).calm = s.calm.load g body := by
  simp only [Process.calm, Process.load, Process.mk.injEq, true_and, and_true]
  funext g'
  split <;> rfl

theorem base_calm (s : Process h) (a : Action) :
    (s.baseEffect a).calm = s.calm.baseEffect a := by
  cases a with
  | host b => exact calm_load _ _ _
  | sup i b => exact calm_load _ _ _
  | _ => rfl

theorem baseGuard_calm_state (hs : s.Safe) (a : Action) : s.calm.baseGuard a = s.baseGuard a := by
  cases a with
  | host b => simp only [Process.baseGuard, Process.calm, idle_calm (hs .host)]
  | sup i b => simp only [Process.baseGuard, Process.calm, idle_calm (hs (.sup i))]
  | _ => rfl

theorem reloadGuard_calm (hs : s.Safe) (n : Nat) (a : ReloadAct) :
    s.calm.reloadGuard n a = s.reloadGuard n a := by
  cases a with
  | unlock =>
      have hidle := idle_calm (hs (.reload n))
      simp only [Process.reloadGuard, Process.calm, hidle]
      rfl
  | _ => rfl

/-- What a process does is what it does without panics. -/
theorem proc_calm_step (hs : s.Safe) {a : ProcAct}
    (hg : (process h onReload).guard s a = true) :
    (process h onReload).guard s.calm a.calm = true ∧
      (process h onReload).effect s.calm a.calm = ((process h onReload).effect s a).calm := by
  cases a with
  | base a =>
      refine ⟨?_, ?_⟩
      · simp only [process, ProcAct.calm] at hg ⊢
        rw [baseGuard_calm, baseGuard_calm_state hs, hg]
      · simp only [process, ProcAct.calm]
        rw [baseEffect_calm, base_calm]
  | thread g a =>
      obtain ⟨hguard, heffect⟩ := Thread.calm_step (hs g) hg
      refine ⟨hguard, ?_⟩
      simp only [process, ProcAct.calm, Process.threadEffect, Process.calm, Process.mk.injEq,
        true_and, and_true]
      funext g'
      split
      · exact heffect
      · rfl
  | reload n a =>
      cases a with
      | call => exact ⟨hg, rfl⟩
      | lock =>
          exact ⟨hg, (calm_load { s.modReload n .holding with reloadMu := true } _ _).symm⟩
      | unlock => exact ⟨(reloadGuard_calm hs n .unlock).trans hg, rfl⟩

/-- A run takes the same course as the run without panics. -/
theorem calm_run (hr : ProcRun h onReload τ s) :
    ProcRun h onReload (τ.map ProcAct.calm) s.calm := by
  refine hr.invariant
    (fun (τ : List ProcAct) (s : Process h) =>
      ProcRun h onReload (τ.map ProcAct.calm) s.calm) .nil ?_
  intro τ s a hr ih _ hg
  obtain ⟨hguard, heffect⟩ := proc_calm_step (safe_of_run hr) hg
  rw [List.map_append, ← heffect]
  exact ih.snoc trivial hguard

/-- Whatever the process can do without panics it can do. -/
theorem proc_offers (hs : s.Safe) {b : ProcAct}
    (hg : (process h onReload).guard s.calm b = true) :
    ∃ a, a.calm = b.calm ∧ (process h onReload).guard s a = true := by
  cases b with
  | base b => exact ⟨.base b, rfl, (baseGuard_calm_state hs b).symm.trans hg⟩
  | thread g b =>
      obtain ⟨a, ha, hguard⟩ := Thread.calm_offers (hs g) hg
      exact ⟨.thread g a, congrArg (ProcAct.thread g) ha, hguard⟩
  | reload n b =>
      exact ⟨.reload n b, rfl, (reloadGuard_calm hs n b).symm.trans hg⟩

/-! ## The process as a run of the system -/

/-- The hook of `RunContext` or the callback, if the call is one. -/
def Call.callout? : Call → Option Callout
  | .callout c => some c
  | .onReload _ => none

/-- The calls of a goroutine without its stack. -/
def callerOf (t : Thread Call) : Caller :=
  ⟨t.pending.filterMap Call.callout?, t.current.bind Call.callout?⟩

/-- The state of the run with the calls of its goroutines. -/
def Process.abs (s : Process h) : State h :=
  s.base.withCallers (callerOf (s.thread .host)) fun i => callerOf (s.thread (.sup i))

/-- The goroutines of a run. -/
def Actor.goroutine : Actor → Goroutine
  | .host => .host
  | .sup i => .sup i

def Goroutine.actor : Goroutine → Option Actor
  | .host => some .host
  | .sup i => some (.sup i)
  | .reload _ => none

/-- The beginning or the end of a call in the system. -/
def callAct : ThreadAct Call → Option CallAct
  | .begins (.callout c) => some (.begins c)
  | .ends (.callout c) panicked => some (.ends c panicked)
  | _ => none

/-- The action of the system that an action of the process is, if any. -/
def ProcAct.visible : ProcAct → Option Action
  | .base a => some a
  | .thread g a => g.actor.bind fun who => (callAct a).map (.call who)
  | .reload _ _ => none

private theorem calls_runHooks (kind : HookKind) :
    (h.runHooksBody kind).calls.filterMap Call.callout? = h.runHooks kind := by
  rw [Host.runHooksBody, runHooksBody, Stmt.calls, Stmt.callsOf_map, List.filterMap_flatMap,
    Host.runHooks, List.map_eq_flatMap]
  rfl

private theorem calls_observe (c : Callback) :
    (h.observeBody c).calls.filterMap Call.callout? = h.observe c := by
  rw [Host.observeBody, Stmt.calls, Stmt.callsOf_map, List.filterMap_flatMap, Host.observe]
  induction h.observers.zipIdx with
  | nil => rfl
  | cons p rest ih =>
      rw [List.flatMap_cons, ih, List.filter_cons]
      cases hp : p.1.sets c with
      | true =>
          simp only [↓reduceIte, List.map_cons]
          rfl
      | false => simp [Stmt.calls, Stmt.callsOf]

/-- A goroutine that begins with some statements. -/
private theorem callerOf_start (body : List (Stmt Call)) :
    callerOf (.start body) = ⟨(Stmt.callsOf body).filterMap Call.callout?, none⟩ := by
  rw [callerOf, Thread.pending_start]
  rfl

private theorem callsOf_hostBody (s : State h) (a : HostAct) :
    (Stmt.callsOf (hostBody s a)).filterMap Call.callout? = madeCalls s a := by
  have hsingle : ∀ x : Stmt Call, Stmt.callsOf [x] = x.calls := by
    intro x
    rw [Stmt.callsOf, Stmt.callsOf, List.append_nil]
  cases a with
  | task a => rfl
  | run a =>
      cases a with
      | launch k | ready k | takeExit exit | join =>
          simp only [hostBody, madeCalls, hsingle, calls_observe]
      | beginStopping => simp only [hostBody, madeCalls, hsingle, calls_runHooks]
      | started k =>
          rw [hostBody, Stmt.callsOf, hsingle, List.filterMap_append, calls_runHooks,
            calls_observe]
          rfl
      | _ => rfl
  | stop a =>
      cases a with
      | takeDone i began svcErr r | abandon i began =>
          simp only [hostBody, madeCalls, hsingle, calls_observe]
      | leave => simp only [hostBody, madeCalls, hsingle, calls_runHooks]
      | _ => rfl

/-- A goroutine that has returned from its calls has none left. -/
private theorem callerOf_idle {t : Thread Call} (ht : t.idle = true) : callerOf t = .none := by
  obtain ⟨hpending, hcurrent⟩ := Thread.pending_of_idle ht
  rw [callerOf, hpending, hcurrent]
  rfl

section Callers

variable (t : State h) (c : Caller) (cs : Nat → Caller)

theorem modSvc_withCallers (i : Nat) {f : Svc → Svc}
    (hf : ∀ v x, f { v with caller := x } = { f v with caller := x }) :
    (t.withCallers c cs).modSvc i f = (t.modSvc i f).withCallers c cs := by
  simp only [State.modSvc, State.withCallers, State.mk.injEq, true_and]
  funext j
  split
  · exact hf _ _
  · rfl

/-- The calls of supervisors do not matter to the host goroutine. -/
theorem hostCan_withCallers (a : HostAct) : hostCan (t.withCallers c cs) a = hostCan t a := by
  cases a with
  | task a => cases a <;> rfl
  | run a => cases a <;> rfl
  | stop a => cases a <;> rfl

theorem taskEffect_withCallers (a : TaskAct) :
    taskEffect (t.withCallers c cs) a = (taskEffect t a).withCallers c cs := by
  cases a with
  | result k o ctxDone =>
      simp only [taskEffect]
      split
      · rfl
      · split <;> rfl
  | _ => rfl

theorem runEffect_withCallers (a : RunAct) :
    runEffect (t.withCallers c cs) a =
      (runEffect t a).withCallers ⟨c.queue ++ madeCalls t (.run a), c.current⟩ cs := by
  cases a with
  | launch k =>
      have hmod := modSvc_withCallers t c cs k (f := spawn (h := h) k) fun _ _ => rfl
      simp only [runEffect, hmod]
      rfl
  | ready k | takeExit exit | started k | beginStopping | join => rfl
  | enter | lookReadier k | startTimeout k | takeCtx | takeShutdown | abortLaunch k | ret =>
      rw [madeCalls, List.append_nil]
      all_goals first | rfl | simp

theorem stopEffect_withCallers (a : StopAct) :
    stopEffect (t.withCallers c cs) a =
      (stopEffect t a).withCallers ⟨c.queue ++ madeCalls t (.stop a), c.current⟩ cs := by
  have hmod : ∀ i (f : Svc → Svc), (∀ v x, f { v with caller := x } = { f v with caller := x }) →
      (t.withCallers c cs).modSvc i f = (t.modSvc i f).withCallers c cs :=
    fun i f hf => modSvc_withCallers t c cs i hf
  cases a with
  | enter | leave | abandon i began => simp [stopEffect, madeCalls, State.withCallers]
  | cancel i | issue i began =>
      simp only [stopEffect]
      rw [hmod _ _ fun _ _ => rfl]
      simp [madeCalls, State.withCallers]
  | takeStop i began r =>
      simp only [stopEffect]
      rw [hmod _ _ fun _ _ => rfl]
      cases r <;> simp [madeCalls, State.withCallers]
  | takeDone i began svcErr r =>
      simp only [stopEffect]
      rw [hmod _ _ fun _ _ => rfl]
      cases hfail : shutdownFailure t.causeIndex i r <;>
        simp [madeCalls, State.withCallers, hfail]

/-- The host goroutine adds the calls it makes, and does not look at calls. -/
theorem hostEffect_withCallers (a : HostAct) :
    hostEffect (t.withCallers c cs) a =
      (hostEffect t a).withCallers ⟨c.queue ++ madeCalls t a, c.current⟩ cs := by
  cases a with
  | task a =>
      rw [hostEffect, hostEffect, taskEffect_withCallers, madeCalls, List.append_nil]
      all_goals simp
  | run a => exact runEffect_withCallers t c cs a
  | stop a => exact stopEffect_withCallers t c cs a

/-- What `Start`'s return leads to, with the calls of its supervisor. -/
private theorem checkExit_withCaller (i : Nat) (stops : Bool) (ran : Duration) (err : Result)
    (v : Svc) (x : Caller) :
    checkExit h i stops ran err { v with caller := x } =
      { checkExit h i stops ran err v with
        caller :=
          if (checkExit h i stops ran err v).sup = .observing then
            ⟨h.observe (.serviceRestarting i (checkExit h i stops ran err v).attempts
              (checkExit h i stops ran err v).delay err), none⟩
          else x } := by
  unfold checkExit
  split
  · rfl
  · split
    · rfl
    · rename_i pol _
      have hreset : resetAttempts pol ran { v with caller := x } =
          { resetAttempts pol ran v with caller := x } := by
        by_cases hlong : ran ≥ pol.resetAfter <;> simp [resetAttempts, hlong]
      rw [hreset]
      by_cases hgive : pol.maxAttempts > 0 ∧
          (resetAttempts pol ran v).attempts + 1 > pol.maxAttempts
      · simp only [applyPolicy, if_pos hgive]
        rfl
      · simp only [applyPolicy, if_neg hgive, ↓reduceIte]

/-- A supervisor does not look at calls. -/
private theorem supEffect_withCallers (i : Nat) (a : SupAct)
    (ha : ∀ began err, a ≠ .check began err) :
    supEffect (t.withCallers c cs) i a = (supEffect t i a).withCallers c cs := by
  cases a with
  | check began err => exact absurd rfl (ha began err)
  | sendExit err =>
      simp only [supEffect]
      rw [modSvc_withCallers t c cs i fun _ _ => rfl]
      rfl
  | _ =>
      simp only [supEffect]
      exact modSvc_withCallers t c cs i fun _ _ => rfl

/-- Where `Start` has returned, the supervisor begins the calls of a restart. -/
private theorem check_withCallers (i : Nat) (began : Int) (err : Result)
    (hnone : cs i = .none) :
    supEffect (t.withCallers c cs) i (.check began err) =
      (supEffect t i (.check began err)).withCallers c fun j =>
        if j = i then
          if ((supEffect t i (.check began err)).svc i).sup = .observing then
            ⟨h.observe (.serviceRestarting i ((supEffect t i (.check began err)).svc i).attempts
              ((supEffect t i (.check began err)).svc i).delay err), none⟩
          else .none
        else cs j := by
  simp only [supEffect, State.modSvc, State.withCallers, State.mk.injEq, true_and, ↓reduceIte]
  funext j
  by_cases hj : j = i
  · subst hj
    simp only [↓reduceIte, hnone]
    exact checkExit_withCaller j _ _ err (t.svc j) .none
  · simp only [if_neg hj]

end Callers

/-! ### The steps -/

/-- What the supervisor calls after a step. -/
private theorem callerOf_supBody (i : Nat) (v : Svc) (began : Int) (err : Result) :
    callerOf (.start (supBody h i v (.check began err))) =
      if v.sup = .observing then ⟨h.observe (.serviceRestarting i v.attempts v.delay err), none⟩
      else .none := by
  rw [callerOf_start, supBody]
  split
  · rw [Stmt.callsOf, Stmt.callsOf, List.append_nil, calls_observe]
  · rfl

private theorem abs_load_host (s : Process h) (t : State h) (body : List (Stmt Call)) :
    (Process.load { s with base := t.quiet } .host body).abs =
      t.withCallers (callerOf (.start body)) fun i => callerOf (s.thread (.sup i)) := rfl

private theorem abs_load_sup (s : Process h) (t : State h) (i : Nat) (body : List (Stmt Call)) :
    (Process.load { s with base := t.quiet } (.sup i) body).abs =
      t.withCallers (callerOf (s.thread .host)) fun j =>
        if j = i then callerOf (.start body) else callerOf (s.thread (.sup j)) := by
  simp only [Process.abs, Process.load, State.quiet, State.withCallers, State.mk.injEq,
    Goroutine.sup.injEq, reduceCtorEq, ↓reduceIte, true_and]
  funext j
  split <;> rfl

/-- A step of the host goroutine is one of the system. -/
private theorem abs_host (s : Process h) (b : HostAct)
    (hg : s.baseGuard (.host b) = true) :
    (system h).guard s.abs (.host b) = true ∧
      (system h).effect s.abs (.host b) = (s.baseEffect (.host b)).abs := by
  obtain ⟨hidle, hcan⟩ := Bool.and_eq_true_iff.mp hg
  have hnone := callerOf_idle hidle
  constructor
  · simp only [system, hostGuard, Process.abs, hostCan_withCallers, hcan, Bool.and_true]
    exact (Caller.idle_iff _).mpr hnone
  · have habs := abs_load_host s (hostEffect s.base b) (hostBody s.base b)
    rw [callerOf_start, callsOf_hostBody] at habs
    refine Eq.trans ?_ habs.symm
    simp only [system, Process.abs, hostEffect_withCallers, hnone]
    rfl

/-- A step of a supervisor is one of the system. -/
private theorem abs_sup (s : Process h) (i : Nat) (b : SupAct)
    (hg : s.baseGuard (.sup i b) = true) :
    (system h).guard s.abs (.sup i b) = true ∧
      (system h).effect s.abs (.sup i b) = (s.baseEffect (.sup i b)).abs := by
  obtain ⟨hidle, hcan⟩ := Bool.and_eq_true_iff.mp hg
  have hnone := callerOf_idle hidle
  constructor
  · cases b with
    | wait =>
        simp only [supGuard, decide_eq_true_eq] at hcan
        simp only [system, supGuard, Process.abs, State.withCallers, hnone]
        exact decide_eq_true ⟨hcan.1, rfl⟩
    | _ => exact hcan
  · have habs := abs_load_sup s (supEffect s.base i b) i
      (supBody h i ((supEffect s.base i b).svc i) b)
    refine Eq.trans ?_ habs.symm
    have hsame : (fun j => if j = i then Caller.none else callerOf (s.thread (.sup j))) =
        fun j => callerOf (s.thread (.sup j)) := by
      funext j
      split
      · rename_i hj
        rw [hj, hnone]
      · rfl
    by_cases hb : ∃ began err, b = .check began err
    · obtain ⟨began, err, rfl⟩ := hb
      rw [callerOf_supBody]
      exact check_withCallers _ _ _ i began err hnone
    · have hbody : callerOf (.start (supBody h i ((supEffect s.base i b).svc i) b)) = .none := by
        cases b with
        | check began err => exact absurd ⟨began, err, rfl⟩ hb
        | _ => rfl
      rw [hbody, hsame]
      exact supEffect_withCallers _ _ _ i b fun began err hb' => hb ⟨began, err, hb'⟩

/-- What a step of a goroutine is to those who look at its calls only. -/
private theorem callerOf_step {t : Thread Call} (ht : t.Safe) {a : ThreadAct Call}
    (hg : t.guard a = true) :
    match callAct a with
    | some (.begins c) => (callerOf t).current = none ∧
        (callerOf t).queue.head? = some c ∧ callerOf (t.effect a) = (callerOf t).begin'
    | some (.ends c _) =>
        (callerOf t).current = some c ∧ callerOf (t.effect a) = (callerOf t).finish
    | none => callerOf (t.effect a) = callerOf t := by
  have hpending := Thread.pending_step ht hg
  have hcurrent := Thread.current_step hg
  cases a with
  | begins c =>
      simp only at hcurrent
      cases c with
      | callout c =>
          simp [callAct, callerOf, hpending, hcurrent, Thread.made, Call.callout?, Caller.begin']
      | onReload f =>
          simp [callAct, callerOf, hpending, hcurrent, Thread.made, Call.callout?,
            List.filterMap_cons]
  | ends c panicked =>
      simp only at hcurrent
      cases c <;> simp [callAct, callerOf, hpending, hcurrent, Thread.made, Call.callout?,
        Caller.finish]
  | _ =>
      simp only at hcurrent
      simp [callAct, callerOf, hpending, hcurrent, Thread.made]

private theorem abs_threadEffect (s : Process h) (who : Actor) (a : ThreadAct Call) :
    (s.threadEffect who.goroutine a).abs =
      s.abs.setCaller (callerOf ((s.thread who.goroutine).effect a)) who := by
  cases who with
  | host => rfl
  | sup i =>
      simp only [Process.abs, Process.threadEffect, Actor.goroutine, State.setCaller,
        State.modSvc, State.withCallers, State.mk.injEq, reduceCtorEq, ↓reduceIte,
        Goroutine.sup.injEq, true_and]
      funext j
      split <;> rfl

private theorem callerOf_abs (s : Process h) (who : Actor) :
    s.abs.callerOf who = callerOf (s.thread who.goroutine) := by
  cases who <;> rfl

private theorem setCaller_callerOf (t : State h) (who : Actor) :
    t.setCaller (t.callerOf who) who = t := by
  cases who with
  | host => rfl
  | sup i =>
      simp only [State.setCaller, State.modSvc, State.callerOf]
      congr
      funext j
      split
      · rename_i hj
        rw [hj]
      · rfl

/-- The system takes a step, or none. -/
def TakesStep (t t' : State h) : Option Action → Prop
  | some b => (system h).guard t b = true ∧ (system h).effect t b = t'
  | none => t' = t

private theorem abs_thread (s : Process h) (hs : s.Safe) (g : Goroutine) (a : ThreadAct Call)
    (hg : (s.thread g).guard a = true) :
    TakesStep s.abs (s.threadEffect g a).abs (ProcAct.thread g a).visible := by
  have hactor : ∀ who : Actor, g = who.goroutine →
      TakesStep s.abs (s.threadEffect g a).abs (ProcAct.thread g a).visible := by
    rintro who rfl
    have hstep := callerOf_step (hs who.goroutine) hg
    have hvisible : (ProcAct.thread who.goroutine a).visible = (callAct a).map (.call who) := by
      cases who <;> rfl
    rw [hvisible, abs_threadEffect]
    cases hcall : callAct a with
    | none =>
        simp only [hcall] at hstep
        rw [hstep, ← callerOf_abs, setCaller_callerOf]
        rfl
    | some b =>
        simp only [hcall] at hstep
        cases b with
        | begins c =>
            rw [← callerOf_abs] at hstep
            obtain ⟨hcurrent, hhead, heffect⟩ := hstep
            exact ⟨decide_eq_true ⟨hcurrent, hhead⟩, by rw [heffect]; rfl⟩
        | ends c panicked =>
            rw [← callerOf_abs] at hstep
            exact ⟨decide_eq_true hstep.1, by rw [hstep.2]; rfl⟩
  cases g with
  | host => exact hactor .host rfl
  | sup i => exact hactor (.sup i) rfl
  | reload n => rfl

/-- A step of the process is one of the system, or none. -/
private theorem abs_step (s : Process h) (hs : s.Safe) {a : ProcAct}
    (hg : (process h onReload).guard s a = true) :
    TakesStep s.abs ((process h onReload).effect s a).abs a.visible := by
  cases a with
  | thread g a => exact abs_thread s hs g a hg
  | reload n a => cases a <;> rfl
  | base a =>
      cases a with
      | host b => exact abs_host s b hg
      | sup i b => exact abs_sup s i b hg
      | call who b => cases hg
      | watch e => exact ⟨hg, rfl⟩
      | env b =>
          cases b with
          | closeReady i =>
              exact ⟨hg, modSvc_withCallers s.base _ _ i
                (f := fun v => { v with ready := true }) fun _ _ => rfl⟩
          | _ => exact ⟨hg, rfl⟩
      | stopper i b =>
          cases b with
          | call =>
              exact ⟨hg, modSvc_withCallers s.base _ _ i
                (f := fun v => { v with stop := .running }) fun _ _ => rfl⟩
          | result o =>
              exact ⟨hg, modSvc_withCallers s.base _ _ i
                (f := fun v => { v with stop := .finished, stopRes := v.stopRes.send (safeStop o) })
                fun _ _ => rfl⟩

/-- A run of the process is a run of the system. -/
theorem run_of_proc (hr : ProcRun h onReload τ s) : Run h (τ.filterMap ProcAct.visible) s.abs := by
  refine hr.invariant
    (fun (τ : List ProcAct) (s : Process h) => Run h (τ.filterMap ProcAct.visible) s.abs)
    .nil ?_
  intro τ s a hr ih _ hg
  have hstep := abs_step s (safe_of_run hr) hg
  rw [List.filterMap_append]
  cases hvisible : a.visible with
  | none =>
      rw [hvisible] at hstep
      have hsame : ((process h onReload).effect s a).abs = s.abs := hstep
      rw [hsame]
      simpa [hvisible] using ih
  | some b =>
      rw [hvisible] at hstep
      obtain ⟨hguard, heffect⟩ : _ ∧ _ := hstep
      rw [← heffect]
      simpa [hvisible] using ih.snoc trivial hguard

/-! ## Containment -/

/-- A task, `Start` or `Stop` panics. -/
def Action.panics : Action → Bool
  | .host (.task (.result _ (.panicked _ _) _)) => true
  | .sup _ (.result _ (.panicked _ _)) => true
  | .stopper _ (.result (.panicked _ _)) => true
  | _ => false

/-- A task, `Start` or `Stop` returns an error that does not wrap
`context.Canceled`. -/
def Action.FailsPlainly : Action → Prop
  | .host (.task (.result _ (.returned (some err)) _)) => err.canceled = false
  | .sup _ (.result _ (.returned (some err))) => err.canceled = false
  | .stopper _ (.result (.returned (some err))) => err.canceled = false
  | _ => False

/-- What holds of a run in which hooks, callbacks, tasks, `Start` and `Stop` may
panic at any point. -/
structure PanicsContained (h : Host) (onReload : List Hook) (τ : List ProcAct)
    (s : Process h) : Prop where
  /-- no panic comes through a goroutine -/
  no_crash : ∀ g, ¬ (s.thread g).Crashed
  /-- with every panic replaced by a return it is a run, to the same state but for
  the unwinding in progress -/
  same_course : ProcRun h onReload (τ.map ProcAct.calm) s.calm
  /-- what the process could do then, it can do -/
  same_steps : ∀ b, (process h onReload).guard s.calm b = true →
    ∃ a, a.calm = b.calm ∧ (process h onReload).guard s a = true
  /-- a panic of a task, of `Start` or of `Stop` is replaced by an error -/
  as_errors : ∀ a : Action, a.panics = true → a.calm.FailsPlainly
  /-- the calls and the steps of the run without panics are those of the host -/
  host_run : Run h ((τ.map ProcAct.calm).filterMap ProcAct.visible) s.calm.abs

/-- Panics change nothing. -/
theorem panics_contained (hr : ProcRun h onReload τ s) : PanicsContained h onReload τ s where
  no_crash := fun g => (safe_of_run hr g).not_crashed
  same_course := calm_run hr
  same_steps := fun _ hg => proc_offers (safe_of_run hr) hg
  as_errors := by
    intro a ha
    cases a with
    | host b =>
        cases b with
        | task b =>
            cases b with
            | result k o ctxDone =>
                cases o with
                | panicked value stack => rfl
                | returned r => cases ha
            | _ => cases ha
        | _ => cases ha
    | sup i b =>
        cases b with
        | result began o =>
            cases o with
            | panicked value stack => rfl
            | returned r => cases ha
        | _ => cases ha
    | stopper i b =>
        cases b with
        | result o =>
            cases o with
            | panicked value stack => rfl
            | returned r => cases ha
        | _ => cases ha
    | _ => cases ha
  host_run := run_of_proc (calm_run hr)

/-- A host with two hooks for its start. -/
def hookHost : Host := { soloHost with onStarted := [⟨0⟩, ⟨1⟩] }

/-- The first hook panics, then `Start`, and then a hook of `Reload`. -/
def panickingRun : List ProcAct :=
  [.base (.host (.run .enter)), .base (.host (.run (.launch 0))), .thread .host .enter,
    .thread .host .leave, .base (.host (.run (.lookReadier 0))),
    .base (.host (.run (.started 1))), .thread .host .enter, .thread .host .enter,
    .thread .host (.begins (.callout (.hook .onStarted ⟨0⟩))),
    .thread .host (.ends (.callout (.hook .onStarted ⟨0⟩)) true), .thread .host .unwind,
    .thread .host .enter, .thread .host (.begins (.callout (.hook .onStarted ⟨1⟩))),
    .base (.sup 0 .start), .base (.sup 0 (.result 0 (.panicked "boom" ""))),
    .thread .host (.ends (.callout (.hook .onStarted ⟨1⟩)) false), .thread .host .leave,
    .reload 0 .call, .reload 0 .lock, .thread (.reload 0) .enter, .thread (.reload 0) .enter,
    .thread (.reload 0) (.begins (.onReload ⟨2⟩)),
    .thread (.reload 0) (.ends (.onReload ⟨2⟩) true)]

theorem panics_contained_panickingRun :
    PanicsContained hookHost [⟨2⟩] panickingRun
      ((process hookHost [⟨2⟩]).after (Process.init hookHost) panickingRun) :=
  panics_contained (Lts.Admits.run (by decide))

end Shost.Ports.Hosting
