import Shost.Ports.HostInvariant

/-!
# Hooks and callbacks of the host goroutine

The calls a step asks for are made before the next step of the host goroutine.
So the calls made so far, followed by the calls still queued, are the calls
asked for, and every hook of a kind has been asked for exactly once from the
step on that runs the hooks of that kind.

## Main results

* `issued_step` — a step of the host goroutine asks for `madeCalls`.
* `returns_of_idle` — at every step of the host goroutine all calls asked for
  have returned.
* `hooks_issued` — the hooks asked for, by the place of the host goroutine.
-/

namespace Shost.Ports.Hosting

open Shost.Verified

variable {h : Host} {ok : State h → Action → Prop} {τ : List Action} {s : State h}

/-- The hook and observer calls the host goroutine has begun, in order. -/
def hostCalls (τ : List Action) : List Callout :=
  τ.filterMap fun
    | .call .host (.begins c) => some c
    | _ => none

/-- The calls of the host goroutine that have ended, in order. -/
def hostReturns (τ : List Action) : List Callout :=
  τ.filterMap fun
    | .call .host (.ends c _) => some c
    | _ => none

theorem hostReturns_append (τ τ' : List Action) :
    hostReturns (τ ++ τ') = hostReturns τ ++ hostReturns τ' := List.filterMap_append

/-- The calls the host goroutine has been asked for. -/
def issued (τ : List Action) (s : State h) : List Callout := hostCalls τ ++ s.caller.queue

/-- The calls that a step of the host goroutine asks for. -/
def madeCalls (s : State h) : HostAct → List Callout
  | .run (.launch k) => h.observe (.serviceStarted k)
  | .run (.ready k) => h.observe (.serviceReady k)
  | .run (.takeExit exit) => h.observe (.serviceFailed exit.index exit.err)
  | .run (.started _) => h.runHooks .onStarted ++ h.observe .hostStarted
  | .run .beginStopping => h.runHooks .onStopping
  | .run .join => h.observe (.hostStopped s.errs)
  | .stop (.takeDone i began svcErr r) =>
      h.observe (.serviceStopped i began
        ((shutdownFailure s.causeIndex i r).elim svcErr fun err => some (svcErr.getD err)))
  | .stop (.abandon i began) => h.observe (.serviceStopped i began (some (didNotStopError h i)))
  | .stop .leave => h.runHooks .onStopped
  | _ => []

theorem caller_hostEffect (s : State h) (a : HostAct) :
    (hostEffect s a).caller = ⟨s.caller.queue ++ madeCalls s a, s.caller.current⟩ := by
  cases a with
  | task a =>
      obtain ⟨pc, errs, aborted, htask⟩ := taskEffect_frame s a
      simp [hostEffect, htask, madeCalls]
  | run a => cases a <;> simp [hostEffect, runEffect, madeCalls]
  | stop a =>
      cases a with
      | takeStop i began r => cases r <;> simp [hostEffect, stopEffect, madeCalls]
      | takeDone i began svcErr r =>
          cases hfail : shutdownFailure s.causeIndex i r <;>
            simp [hostEffect, stopEffect, madeCalls, hfail]
      | _ => simp [hostEffect, stopEffect, madeCalls]

/-- A step of the host goroutine waits for its caller. -/
theorem caller_of_hostGuard {a : HostAct} (hg : (system h).guard s (.host a) = true) :
    s.caller = .none :=
  (Caller.idle_iff _).mp (Bool.and_eq_true_iff.mp hg).1

/-- Apart from the steps of the host goroutine and its calls, nothing concerns its caller. -/
private theorem caller_step (s : State h) (a : Action) :
    (∃ b, a = .host b) ∨ (∃ b, a = .call .host b) ∨
      (∀ b, a ≠ .host b) ∧ hostCalls [a] = [] ∧ hostReturns [a] = [] ∧
        ((system h).effect s a).caller = s.caller := by
  cases a with
  | host b => exact Or.inl ⟨b, rfl⟩
  | env b =>
      refine Or.inr (Or.inr ⟨fun _ => Action.noConfusion, rfl, rfl, ?_⟩)
      cases b <;> rfl
  | watch e => exact Or.inr (Or.inr ⟨fun _ => Action.noConfusion, rfl, rfl, rfl⟩)
  | call who b =>
      cases who with
      | host => exact Or.inr (Or.inl ⟨b, rfl⟩)
      | sup i =>
          refine Or.inr (Or.inr ⟨fun _ => Action.noConfusion, rfl, rfl, ?_⟩)
          cases b <;> rfl
  | sup i b =>
      refine Or.inr (Or.inr ⟨fun _ => Action.noConfusion, rfl, rfl, ?_⟩)
      cases b <;> rfl
  | stopper i b =>
      refine Or.inr (Or.inr ⟨fun _ => Action.noConfusion, rfl, rfl, ?_⟩)
      cases b <;> rfl

private theorem hostCalls_append (τ τ' : List Action) :
    hostCalls (τ ++ τ') = hostCalls τ ++ hostCalls τ' := List.filterMap_append

/-- The calls asked for grow by those that a step of the host goroutine asks
for, and by no other step. -/
theorem issued_step {a : Action} (hg : (system h).guard s a = true) :
    issued (τ ++ [a]) ((system h).effect s a) =
      issued τ s ++ match a with
        | .host b => madeCalls s b
        | _ => [] := by
  rw [issued, issued, hostCalls_append]
  obtain ⟨b, rfl⟩ | ⟨b, rfl⟩ | ⟨hother, hcalls, -, hcaller⟩ := caller_step s a
  · have hcaller := caller_hostEffect s b
    simp [system, hcaller, hostCalls]
  · cases b with
    | begins c =>
        simp only [system, callGuard, decide_eq_true_eq] at hg
        obtain ⟨rest, hrest⟩ : ∃ rest, s.caller.queue = c :: rest :=
          List.head?_eq_some_iff.mp hg.2
        simp [system, callEffect, State.setCaller, State.callerOf, Caller.begin', hostCalls, hrest]
    | ends c panicked =>
        simp [system, callEffect, State.setCaller, State.callerOf, Caller.finish, hostCalls]
  · rw [hcalls, hcaller, List.append_nil]
    split
    · exact absurd rfl (hother _)
    · rw [List.append_nil]

/-- Every call begun has ended, but for the one in progress. -/
theorem calls_eq (hr : RunIf h ok τ s) :
    hostCalls τ = hostReturns τ ++ s.caller.current.toList := by
  refine hr.invariant
    (fun (τ : List Action) (s : State h) =>
      hostCalls τ = hostReturns τ ++ s.caller.current.toList) rfl ?_
  intro τ s a _ ih _ hg
  rw [hostCalls_append, hostReturns_append, ih]
  obtain ⟨b, rfl⟩ | ⟨b, rfl⟩ | ⟨-, hcalls, hreturns, hcaller⟩ := caller_step s a
  · have hcaller := caller_hostEffect s b
    simp [system, hcaller, hostCalls, hostReturns]
  · cases b with
    | begins c =>
        simp only [system, callGuard, decide_eq_true_eq] at hg
        have hcurrent : s.caller.current = none := hg.1
        have hhead : s.caller.queue.head? = some c := hg.2
        simp [system, callEffect, State.setCaller, State.callerOf, Caller.begin', hostCalls,
          hostReturns, hcurrent, hhead]
    | ends c panicked =>
        simp only [system, callGuard, decide_eq_true_eq] at hg
        have hcurrent : s.caller.current = some c := hg
        simp [system, callEffect, State.setCaller, State.callerOf, Caller.finish, hostCalls,
          hostReturns, hcurrent]
  · rw [hcalls, hreturns, hcaller, List.append_nil, List.append_nil]

/-- When the host goroutine can go on, all calls it was asked for have ended. -/
theorem returns_of_idle (hr : RunIf h ok τ s) (hidle : s.caller = .none) :
    hostReturns τ = issued τ s ∧ hostCalls τ = issued τ s := by
  have hcalls := calls_eq hr
  simp_all [issued, Caller.none]

/-! ## Hooks -/

/-- The hooks of a kind among some calls. -/
def hooksOf (kind : HookKind) (cs : List Callout) : List Hook :=
  cs.filterMap fun
    | .hook kind' f => if kind' = kind then some f else none
    | .callback _ _ => none

@[simp] theorem hooksOf_append (kind : HookKind) (cs cs' : List Callout) :
    hooksOf kind (cs ++ cs') = hooksOf kind cs ++ hooksOf kind cs' := List.filterMap_append

@[simp] theorem hooksOf_nil (kind : HookKind) : hooksOf kind [] = [] := rfl

@[simp] theorem hooksOf_observe (kind : HookKind) (c : Callback) :
    hooksOf kind (h.observe c) = [] := by
  simp [hooksOf, Host.observe]

@[simp] theorem hooksOf_runHooks (kind kind' : HookKind) :
    hooksOf kind (h.runHooks kind') = if kind' = kind then h.hooks kind else [] := by
  by_cases hkind : kind' = kind
  · simp [hooksOf, Host.runHooks, List.filterMap_map, hkind]
  · simp [hooksOf, Host.runHooks, List.filterMap_map, hkind]

/-- The startup has come to its end and was not aborted. -/
def LoopVars.hasStarted (v : LoopVars) : Bool := !v.pc.inStartup && !v.startupAborted

/-- The hooks of a kind have been asked for. -/
def LoopVars.hooked (v : LoopVars) : HookKind → Bool
  | .onStarted => v.hasStarted
  | .onStopping => v.stoppingCh
  | .onStopped => v.pc.afterLoop

/-- Which step asks for the hooks of a kind. -/
def HostAct.runsHooks : HostAct → HookKind → Bool
  | .run (.started _), .onStarted => true
  | .run .beginStopping, .onStopping => true
  | .stop .leave, .onStopped => true
  | _, _ => false

theorem hooksOf_madeCalls (s : State h) (a : HostAct) (kind : HookKind) :
    hooksOf kind (madeCalls s a) = if a.runsHooks kind then h.hooks kind else [] := by
  cases a with
  | task a => rfl
  | run a => cases a <;> cases kind <;> simp [madeCalls, HostAct.runsHooks]
  | stop a => cases a <;> cases kind <;> simp [madeCalls, HostAct.runsHooks]

private theorem started_step {a : HostAct} {v v' : LoopVars} (hstep : HostStep h a v v') :
    v'.hasStarted = (v.hasStarted || a.runsHooks .onStarted) ∧
      (a.runsHooks .onStarted = true → v.hasStarted = false) := by
  cases hstep with
  | task hstep => cases hstep <;> exact ⟨rfl, nofun⟩
  | run hstep =>
      cases hstep with
      | started v => exact ⟨rfl, fun _ => rfl⟩
      | beginStopping v | join v | ret v => exact ⟨(Bool.or_false _).symm, nofun⟩
      | mainCtx v | mainShutdown v | mainExit v => exact ⟨(Bool.or_false _).symm, nofun⟩
      | _ => exact ⟨rfl, nofun⟩
  | stop hstep => cases hstep <;> exact ⟨(Bool.or_false _).symm, nofun⟩

private theorem stopping_step {a : HostAct} {v v' : LoopVars} (hstep : HostStep h a v v')
    (hp : Placed h v) :
    v'.stoppingCh = (v.stoppingCh || a.runsHooks .onStopping) ∧
      (a.runsHooks .onStopping = true → v.stoppingCh = false) := by
  cases hstep with
  | task hstep => cases hstep <;> exact ⟨(Bool.or_false _).symm, nofun⟩
  | run hstep =>
      cases hstep with
      | beginStopping v => exact ⟨(Bool.or_true _).symm, fun _ => hp.2⟩
      | _ => exact ⟨(Bool.or_false _).symm, nofun⟩
  | stop hstep => cases hstep <;> exact ⟨(Bool.or_false _).symm, nofun⟩

private theorem stopped_step {a : HostAct} {v v' : LoopVars} (hstep : HostStep h a v v') :
    v'.pc.afterLoop = (v.pc.afterLoop || a.runsHooks .onStopped) ∧
      (a.runsHooks .onStopped = true → v.pc.afterLoop = false) := by
  cases hstep with
  | task hstep => cases hstep <;> exact ⟨rfl, nofun⟩
  | run hstep => cases hstep <;> exact ⟨rfl, nofun⟩
  | stop hstep =>
      cases hstep with
      | leave v => exact ⟨rfl, fun _ => rfl⟩
      | _ => exact ⟨rfl, nofun⟩

/-- The hooks of a kind are asked for once: by a step at which they were not
asked for before. -/
theorem hooked_step {a : HostAct} {v v' : LoopVars} (hstep : HostStep h a v v')
    (kind : HookKind) (hp : Placed h v) :
    v'.hooked kind = (v.hooked kind || a.runsHooks kind) ∧
      (a.runsHooks kind = true → v.hooked kind = false) := by
  cases kind with
  | onStarted => exact started_step hstep
  | onStopping => exact stopping_step hstep hp
  | onStopped => exact stopped_step hstep

/-- The hooks of a kind that have been asked for. -/
theorem hooks_issued (hr : RunIf h ok τ s) (kind : HookKind) :
    hooksOf kind (issued τ s) = if s.loop.hooked kind then h.hooks kind else [] := by
  refine hr.invariant
    (fun (τ : List Action) (s : State h) =>
      hooksOf kind (issued τ s) = if s.loop.hooked kind then h.hooks kind else []) ?_ ?_
  · cases kind <;> rfl
  · intro τ s a hr ih _ hg
    rw [issued_step hg, hooksOf_append, ih]
    by_cases ha : ∃ b, a = .host b
    · obtain ⟨b, rfl⟩ := ha
      have hstep := hooked_step (hostStep_of_can (hostCan_of_guard hg)) kind (placed_of_run hr)
      have heffect : ((system h).effect s (.host b)).loop = (hostEffect s b).loop := rfl
      rw [hooksOf_madeCalls, heffect, hstep.1]
      by_cases hb : b.runsHooks kind = true
      · simp only [hb, hstep.2 hb, Bool.or_true, Bool.false_eq_true, ↓reduceIte,
          List.nil_append]
      · simp only [hb, Bool.or_false, Bool.false_eq_true, ↓reduceIte, List.append_nil]
    · have hother := loop_other s a fun b hb => ha ⟨b, hb⟩
      rw [hother.1]
      cases a with
      | host b => exact absurd ⟨b, rfl⟩ ha
      | _ => simp

end Shost.Ports.Hosting
