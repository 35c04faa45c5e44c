import Shost.Ports.HostCalls
import Shost.Ports.HostServices

/-!
# The callbacks of one observer

The host goroutine announces at most one event in a step, to every observer that
sets the callback.  Restricted to one observer, its calls are a sequence of
callbacks that follows the lifecycle; a supervisor makes no other callbacks than
`ServiceRestarting`, one batch at a time.

## Main results

* `trail_of_run` — the callbacks the host goroutine has been asked for are in
  order, for every observer.
* `restarting_of_run` — what supervisors call.
* `returned_or_current` — a call that has begun has ended or is in progress.
-/

namespace Shost.Ports.Hosting

open Shost.Verified Trace

variable {h : Host} {ok : State h → Action → Prop} {τ : List Action} {s : State h}

/-- There is an observer at the position, and it sets the callback. -/
def Host.observes (h : Host) (o : Nat) (c : Callback) : Bool :=
  h.observers[o]?.any fun obs => obs.sets c

/-- The callbacks of one observer among some calls. -/
def onObserver (o : Nat) (cs : List Callout) : List Callback :=
  cs.filterMap fun
    | .callback o' c => if o' = o then some c else none
    | .hook _ _ => none

@[simp] theorem onObserver_append (o : Nat) (cs cs' : List Callout) :
    onObserver o (cs ++ cs') = onObserver o cs ++ onObserver o cs' := List.filterMap_append

@[simp] theorem onObserver_nil (o : Nat) : onObserver o [] = [] := rfl

@[simp] theorem onObserver_runHooks (o : Nat) (kind : HookKind) :
    onObserver o (h.runHooks kind) = [] := by
  simp [onObserver, Host.runHooks]

theorem mem_onObserver {o : Nat} {c : Callback} {cs : List Callout} :
    c ∈ onObserver o cs ↔ .callback o c ∈ cs := by
  simp only [onObserver, List.mem_filterMap]
  constructor
  · rintro ⟨x, hx, hxc⟩
    cases x with
    | hook kind f => cases hxc
    | callback o' c' =>
        by_cases ho : o' = o
        · subst ho
          obtain rfl : c' = c := by simpa using hxc
          exact hx
        · simp [ho] at hxc
  · intro hc
    exact ⟨_, hc, by simp⟩

/-- Of the entries of an indexed list that satisfy `p`, the one at a position. -/
private theorem filterMap_zipIdx {α β : Type} (p : α → Bool) (y : β) (o : Nat) :
    ∀ (l : List α) (n : Nat),
      ((l.zipIdx n).filter fun x => p x.1).filterMap
          (fun x => if x.2 = o then some y else none) =
        if n ≤ o ∧ l[o - n]?.any p = true then [y] else [] := by
  intro l
  induction l with
  | nil => simp
  | cons x rest ih =>
      intro n
      have hrest := ih (n + 1)
      rw [List.zipIdx_cons]
      rcases Nat.lt_trichotomy n o with hlt | rfl | hgt
      · have hget : (x :: rest)[o - n]? = rest[o - (n + 1)]? := by
          rw [show o - n = (o - (n + 1)) + 1 by omega, List.getElem?_cons_succ]
        have hne : n ≠ o := Nat.ne_of_lt hlt
        rw [hget]
        by_cases hx : p x = true
        · simp [List.filter_cons_of_pos, hx, hne, hrest, Nat.succ_le_of_lt hlt, hlt.le]
        · simp [List.filter_cons_of_neg, hx, hrest, Nat.succ_le_of_lt hlt, hlt.le]
      · by_cases hx : p x = true
        · simp [List.filter_cons_of_pos, hx, hrest]
        · simp [List.filter_cons_of_neg, hx, hrest]
      · have hle : ¬ n ≤ o := Nat.not_le_of_gt hgt
        have hle' : ¬ n + 1 ≤ o := fun hle' => hle (Nat.le_of_succ_le hle')
        by_cases hx : p x = true
        · simp [List.filter_cons_of_pos, hx, hrest, hle, hle', Nat.ne_of_gt hgt]
        · simp [List.filter_cons_of_neg, hx, hrest, hle, hle']

@[simp] theorem onObserver_observe (o : Nat) (c : Callback) :
    onObserver o (h.observe c) = if h.observes o c then [c] else [] := by
  have hzip := filterMap_zipIdx (fun obs : Observer => obs.sets c) c o h.observers 0
  simp only [Nat.zero_le, Nat.sub_zero, true_and] at hzip
  rw [onObserver, Host.observe, List.filterMap_map]
  exact hzip

/-- The event that a step of the host goroutine announces. -/
def announced (s : State h) : HostAct → Option Callback
  | .run (.launch k) => some (.serviceStarted k)
  | .run (.ready k) => some (.serviceReady k)
  | .run (.takeExit exit) => some (.serviceFailed exit.index exit.err)
  | .run (.started _) => some .hostStarted
  | .run .join => some (.hostStopped s.errs)
  | .stop (.takeDone i began svcErr r) =>
      some (.serviceStopped i began
        ((shutdownFailure s.causeIndex i r).elim svcErr fun err => some (svcErr.getD err)))
  | .stop (.abandon i began) => some (.serviceStopped i began (some (didNotStopError h i)))
  | _ => none

theorem onObserver_madeCalls (s : State h) (a : HostAct) (o : Nat) :
    onObserver o (madeCalls s a) =
      ((announced s a).filter fun c => h.observes o c).toList := by
  have hobserve : ∀ c, onObserver o (h.observe c) =
      ((some c).filter fun c => h.observes o c).toList := by
    intro c
    by_cases hc : h.observes o c = true <;> simp [Option.filter, hc]
  cases a with
  | task a => rfl
  | run a => cases a <;> simp only [madeCalls, announced, hobserve, onObserver_append,
      onObserver_runHooks, List.nil_append] <;> rfl
  | stop a => cases a <;> simp only [madeCalls, announced, hobserve, onObserver_runHooks] <;> rfl

/-- The calls of `observe` are callbacks that the observer sets. -/
theorem mem_observe {o : Nat} {c c' : Callback} (hmem : .callback o c' ∈ h.observe c) :
    c' = c ∧ h.observes o c = true := by
  rw [← mem_onObserver, onObserver_observe] at hmem
  by_cases hobs : h.observes o c = true
  · exact ⟨by simpa [hobs] using hmem, hobs⟩
  · simp [hobs] at hmem

/-- The callbacks that the host goroutine has been asked for, of one observer. -/
def trail (o : Nat) (τ : List Action) (s : State h) : List Callback := onObserver o (issued τ s)

theorem trail_host (o : Nat) {a : HostAct} (hg : (system h).guard s (.host a) = true) :
    trail o (τ ++ [.host a]) (hostEffect s a) =
      trail o τ s ++ ((announced s a).filter fun c => h.observes o c).toList := by
  have hissued := issued_step (τ := τ) hg
  rw [trail, ← onObserver_madeCalls, trail, ← onObserver_append]
  exact congrArg (onObserver o) hissued

theorem trail_other (o : Nat) {a : Action} (hg : (system h).guard s a = true)
    (ha : ∀ b, a ≠ .host b) :
    trail o (τ ++ [a]) ((system h).effect s a) = trail o τ s := by
  rw [trail, issued_step hg]
  cases a with
  | host b => exact absurd rfl (ha b)
  | _ => simp [trail]

/-! ## The order of the host goroutine's callbacks -/

/-- A callback is in order when the callbacks satisfying `made` came before it. -/
structure InOrder (h : Host) (o : Nat) (made : Callback → Prop) (c : Callback) : Prop where
  /-- a callback about a service comes after its `ServiceStarted` -/
  started_before : ∀ i, c.about = some i → c ≠ .serviceStarted i →
    h.observes o (.serviceStarted i) = true → made (.serviceStarted i)
  /-- `ServiceStarted` is the first callback about its service -/
  nothing_before : ∀ i, c = .serviceStarted i → ∀ c', made c' → c'.about ≠ some i
  /-- nothing about a service comes after its `ServiceStopped` -/
  stopped_last : ∀ i began err, c.about = some i → ¬ made (.serviceStopped i began err)
  /-- nothing comes after `HostStopped` -/
  host_last : ∀ errs, ¬ made (.hostStopped errs)

/-- What is known of the callbacks asked for, from the steps taken. -/
structure Trail (h : Host) (o : Nat) (cs : List Callback) (η : List HostAct) : Prop where
  launched : ∀ c ∈ cs, ∀ k, c.about = some k → k ∈ launches η
  started : ∀ k ∈ launches η, h.observes o (.serviceStarted k) = true → .serviceStarted k ∈ cs
  settled : ∀ k began err, .serviceStopped k began err ∈ cs → k ∈ settles η
  joined : ∀ errs, .hostStopped errs ∈ cs → .run .join ∈ η
  observed : ∀ c ∈ cs, h.observes o c = true
  ordered : Guarded (fun pre c => InOrder h o (· ∈ pre) c) cs

/-- The host goroutine has joined the errors. -/
def HostPC.afterJoin : HostPC → Bool
  | .ret | .returned => true
  | _ => false

/-- After the errors have been joined `RunContext` only returns. -/
private theorem ret_of_afterJoin {a : HostAct} {v v' : LoopVars} (hstep : HostStep h a v v')
    (hpc : v.pc.afterJoin = true) : a = .run .ret ∧ v'.pc.afterJoin = true := by
  cases hstep with
  | task hstep => cases hstep <;> cases hpc
  | run hstep =>
      cases hstep with
      | ret v => exact ⟨rfl, rfl⟩
      | _ => cases hpc
  | stop hstep => cases hstep <;> cases hpc

theorem afterJoin_of_join (hr : RunIf h ok τ s) (hjoin : .run .join ∈ hostActs τ) :
    s.pc.afterJoin = true := by
  refine placed_invariant (fun η v => .run .join ∈ η → v.pc.afterJoin = true) ?_ ?_ hr hjoin
  · intro hnil
    cases hnil
  · intro η v v' a hp ih hstep hmem
    rcases List.mem_append.mp hmem with hold | hnew
    · exact (ret_of_afterJoin hstep (ih hold)).2
    · obtain rfl := List.mem_singleton.mp hnew
      cases hstep with
      | run hstep =>
          cases hstep
          rfl

/-- A callback about a service is asked for when the service is launched, or
while it is launched and not settled. -/
private theorem about_step (hr : RunIf h ok τ s) {a : HostAct} (hg : hostCan s a = true)
    {c : Callback} (hc : announced s a = some c) {k : Nat} (hk : c.about = some k) :
    (c = .serviceStarted k ∧ a = .run (.launch k) ∧ k = s.launched) ∨
      (c ≠ .serviceStarted k ∧ k < s.launched ∧ k < s.pc.toSettle s.launched) := by
  have hp := placed_of_run hr
  cases a with
  | task a => cases hc
  | run a =>
      cases a with
      | launch k' =>
          obtain rfl : Callback.serviceStarted k' = c := by simpa [announced] using hc
          obtain rfl : k' = k := by simpa [Callback.about] using hk
          simp only [hostCan, runGuard, decide_eq_true_eq] at hg
          simp only [Placed, State.loop, hg.1] at hp
          exact Or.inl ⟨rfl, rfl, hp.1.symm⟩
      | ready k' =>
          obtain rfl : Callback.serviceReady k' = c := by simpa [announced] using hc
          obtain rfl : k' = k := by simpa [Callback.about] using hk
          simp only [hostCan, runGuard, decide_eq_true_eq] at hg
          simp only [Placed, State.loop, hg.1] at hp
          have hlt : k' < s.launched := by rw [hp.1]; exact Nat.lt_succ_self _
          exact Or.inr ⟨by simp, hlt, by simpa [hg.1, HostPC.toSettle] using hlt⟩
      | takeExit exit =>
          obtain rfl : Callback.serviceFailed exit.index exit.err = c := by
            simpa [announced] using hc
          obtain rfl : exit.index = k := by simpa [Callback.about] using hk
          simp only [hostCan, runGuard, decide_eq_true_eq] at hg
          obtain ⟨rest, hbuf⟩ := (Chan.next_eq_some_iff _ _).mp hg.2
          have hlog : exit ∈ exitLog τ := by
            rw [exits_fifo hr, hbuf]
            simp
          have hlt : exit.index < s.launched :=
            launched_of_doneSends hr (mem_doneSends_of_sendExit hr (mem_exitLog.mp hlog))
          rw [(HostPC.before_counts (HostPC.selects_before hg.1) _).2.2]
          exact Or.inr ⟨by simp, hlt, hlt⟩
      | started k' =>
          obtain rfl : Callback.hostStarted = c := by simpa [announced] using hc
          cases hk
      | join =>
          obtain rfl : Callback.hostStopped s.errs = c := by simpa [announced] using hc
          cases hk
      | _ => cases hc
  | stop a =>
      cases a with
      | takeDone i began svcErr r =>
          simp only [announced, Option.some.injEq] at hc
          obtain rfl : i = k := by simpa [← hc, Callback.about] using hk
          simp only [hostCan, stopGuard, decide_eq_true_eq] at hg
          simp only [Placed, State.loop, hg.1] at hp
          exact Or.inr ⟨by simp [← hc], hp.1, by simp [hg.1, HostPC.toSettle]⟩
      | abandon i began =>
          simp only [announced, Option.some.injEq] at hc
          obtain rfl : i = k := by simpa [← hc, Callback.about] using hk
          simp only [hostCan, stopGuard, decide_eq_true_eq, HostPC.awaits_iff] at hg
          rcases hg.1 with hpc | ⟨svcErr, hpc⟩ <;>
            simp only [Placed, State.loop, hpc] at hp <;>
            exact Or.inr ⟨by simp [← hc], hp.1, by simp [hpc, HostPC.toSettle]⟩
      | _ => cases hc

/-- A callback that is asked for is in order behind those before it. -/
private theorem announced_inOrder (hr : RunIf h ok τ s) {o : Nat} {cs : List Callback}
    (ht : Trail h o cs (hostActs τ)) {a : HostAct} (hg : hostCan s a = true) {c : Callback}
    (hc : announced s a = some c) : InOrder h o (· ∈ cs) c where
  started_before := by
    intro k hk hne hobs
    rcases about_step hr hg hc hk with ⟨hc, -, -⟩ | ⟨-, hlt, -⟩
    · exact absurd hc hne
    · exact ht.started k (by rwa [launches_eq hr, List.mem_range]) hobs
  nothing_before := by
    rintro k rfl c' hc' hk
    rcases about_step hr hg hc rfl with ⟨-, -, heq⟩ | ⟨hne, -, -⟩
    · have hlt := ht.launched c' hc' k hk
      rw [launches_eq hr, List.mem_range, heq] at hlt
      exact Nat.lt_irrefl _ hlt
    · exact hne rfl
  stopped_last := by
    intro k began err hk hstopped
    have hset := ht.settled k began err hstopped
    rw [settles_eq hr, mem_lastDownTo] at hset
    rcases about_step hr hg hc hk with ⟨-, -, heq⟩ | ⟨-, -, hlt⟩
    · exact absurd heq (Nat.ne_of_lt hset.2)
    · exact absurd hset.1 (Nat.not_le_of_lt hlt)
  host_last := by
    intro errs hstopped
    have hpc : s.loop.pc.afterJoin = true := afterJoin_of_join hr (ht.joined errs hstopped)
    obtain rfl := (ret_of_afterJoin (hostStep_of_can hg) hpc).1
    cases hc

private theorem settles_of_announced {a : HostAct} {k : Nat} {began : Int} {err : Result}
    (hc : announced s a = some (.serviceStopped k began err)) (η : List HostAct) :
    k ∈ settles (η ++ [a]) := by
  rw [mem_settles]
  cases a with
  | task a => cases hc
  | run a => cases a <;> cases hc
  | stop a =>
      cases a with
      | takeDone i began' svcErr r =>
          obtain ⟨rfl, -⟩ : i = k ∧ _ := by simpa [announced] using hc
          exact Or.inl ⟨began', svcErr, r, by simp⟩
      | abandon i began' =>
          obtain ⟨rfl, -⟩ : i = k ∧ _ := by simpa [announced] using hc
          exact Or.inr ⟨began', by simp⟩
      | _ => cases hc

private theorem join_of_announced {a : HostAct} {errs : List HostError}
    (hc : announced s a = some (.hostStopped errs)) : a = .run .join := by
  cases a with
  | task a => cases hc
  | run a =>
      cases a with
      | join => rfl
      | _ => cases hc
  | stop a => cases a <;> cases hc

private theorem trail_step (hr : RunIf h ok τ s) {o : Nat} {cs : List Callback}
    (ht : Trail h o cs (hostActs τ)) {a : HostAct} (hg : hostCan s a = true) :
    Trail h o (cs ++ ((announced s a).filter fun c => h.observes o c).toList)
      (hostActs τ ++ [a]) := by
  have hnew : ∀ c ∈ cs ++ ((announced s a).filter fun c => h.observes o c).toList,
      c ∈ cs ∨ announced s a = some c ∧ h.observes o c = true := by
    intro c hc
    simpa [Option.filter_eq_some_iff] using hc
  constructor
  · intro c hc k hk
    rw [mem_launches]
    rcases hnew c hc with hold | ⟨hann, -⟩
    · exact List.mem_append_left _ (mem_launches.mp (ht.launched c hold k hk))
    · rcases about_step hr hg hann hk with ⟨-, rfl, -⟩ | ⟨-, hlt, -⟩
      · simp
      · have hlaunch : k ∈ launches (hostActs τ) := by rwa [launches_eq hr, List.mem_range]
        exact List.mem_append_left _ (mem_launches.mp hlaunch)
  · intro k hk hobs
    rcases List.mem_append.mp (mem_launches.mp hk) with hold | hlaunch
    · exact List.mem_append_left _ (ht.started k (mem_launches.mpr hold) hobs)
    · obtain rfl := List.mem_singleton.mp hlaunch
      simp [announced, Option.filter, hobs]
  · intro k began err hc
    rcases hnew _ hc with hold | ⟨hann, -⟩
    · rcases mem_settles.mp (ht.settled k began err hold) with ⟨b, e, r, hdone⟩ | ⟨b, habandon⟩
      · exact mem_settles.mpr (Or.inl ⟨b, e, r, List.mem_append_left _ hdone⟩)
      · exact mem_settles.mpr (Or.inr ⟨b, List.mem_append_left _ habandon⟩)
    · exact settles_of_announced hann _
  · intro errs hc
    rcases hnew _ hc with hold | ⟨hann, -⟩
    · exact List.mem_append_left _ (ht.joined errs hold)
    · simp [join_of_announced hann]
  · intro c hc
    rcases hnew c hc with hold | ⟨-, hobs⟩
    · exact ht.observed c hold
    · exact hobs
  · cases hfilter : (announced s a).filter fun c => h.observes o c with
    | none => simpa using ht.ordered
    | some c =>
        have hann : announced s a = some c := (Option.filter_eq_some_iff.mp hfilter).1
        exact guarded_snoc.mpr ⟨ht.ordered, announced_inOrder hr ht hg hann⟩

/-- The callbacks the host goroutine has been asked for follow the lifecycle. -/
theorem trail_of_run (hr : RunIf h ok τ s) (o : Nat) :
    Trail h o (trail o τ s) (hostActs τ) := by
  refine hr.invariant
    (fun (τ : List Action) (s : State h) => Trail h o (trail o τ s) (hostActs τ)) ?_ ?_
  · constructor <;> simp [trail, issued, hostCalls, State.init, Caller.none, hostActs, launches,
      guarded_nil]
  · intro τ s a hr ih _ hg
    by_cases ha : ∃ b, a = .host b
    · obtain ⟨b, rfl⟩ := ha
      have hstep := trail_step hr ih (hostCan_of_guard hg)
      rw [hostActs_append, hostActs_host]
      exact (trail_host o hg).symm ▸ hstep
    · have hother : ∀ b, a ≠ .host b := fun b hb => ha ⟨b, hb⟩
      rw [trail_other o hg hother, hostActs_append, (loop_other s a hother).2, List.append_nil]
      exact ih

/-! ## The callbacks of a supervisor -/

/-- A supervisor calls observers only between `Start` and the backoff, and only
their `ServiceRestarting`: those that set it, about a service with a restart policy. -/
structure Calling (h : Host) (i : Nat) (v : Svc) : Prop where
  quiet : v.sup ≠ .observing → v.caller = .none
  restarting : ∀ x, x ∈ v.caller.queue ∨ v.caller.current = some x →
    ∃ o attempt delay err, x = .callback o (.serviceRestarting i attempt delay err)
  announced : ∀ o c, .callback o c ∈ v.caller.queue ∨ v.caller.current = some (.callback o c) →
    h.observes o c = true ∧ (h.restart i).isSome = true

theorem Calling.of_none {i : Nat} {v : Svc} (hv : v.caller = .none) : Calling h i v where
  quiet := fun _ => hv
  restarting := by
    intro x hx
    simp [hv, Caller.none] at hx
  announced := by
    intro o c hx
    simp [hv, Caller.none] at hx

theorem Calling.observing {i : Nat} {v : Svc} (hv : Calling h i v) {x : Callout}
    (hx : x ∈ v.caller.queue ∨ v.caller.current = some x) : v.sup = .observing := by
  by_contra hsup
  simp [hv.quiet hsup, Caller.none] at hx

/-- When `Start` has returned the supervisor makes no calls, or those that
announce the restart. -/
theorem checkExit_caller (h : Host) (i : Nat) (stops : Bool) (ran : Duration)
    (err : Result) (v : Svc) :
    (checkExit h i stops ran err v).caller = v.caller ∨
      ∃ attempt delay, (checkExit h i stops ran err v).sup = .observing ∧
        (checkExit h i stops ran err v).caller =
          ⟨h.observe (.serviceRestarting i attempt delay err), none⟩ ∧
        (h.restart i).isSome = true := by
  unfold checkExit
  split
  · exact Or.inl rfl
  · split
    · exact Or.inl rfl
    · rename_i pol hpol
      have hreset : (resetAttempts pol ran v).caller = v.caller := by
        by_cases hlong : ran ≥ pol.resetAfter <;> simp [resetAttempts, hlong]
      by_cases hgive : pol.maxAttempts > 0 ∧
          (resetAttempts pol ran v).attempts + 1 > pol.maxAttempts
      · exact Or.inl (by simp only [applyPolicy, if_pos hgive, hreset])
      · right
        refine ⟨(resetAttempts pol ran v).attempts + 1, (resetAttempts pol ran v).delay, ?_⟩
        simp only [applyPolicy, if_neg hgive, hpol, Option.isSome_some, and_self]

private theorem calling_sup (s : State h) {i : Nat} {a : SupAct} {v : Svc}
    (hv : Calling h i v) (hg : supGuard s i a = true) (hsvc : s.svc i = v) :
    Calling h i (svcEffect s i (.sup a) v) := by
  cases a with
  | wait =>
      simp only [supGuard, decide_eq_true_eq, Caller.idle_iff] at hg
      exact Calling.of_none (hsvc ▸ hg.2)
  | check began err =>
      simp only [supGuard, decide_eq_true_eq] at hg
      have hnone : v.caller = .none := hv.quiet (by simp [← hsvc, hg])
      rcases checkExit_caller h i (s.supStops i) (s.now - began) err v with
        hsame | ⟨attempt, delay, hsup, hcaller, hpol⟩
      · exact Calling.of_none (hsame.trans hnone)
      · refine ⟨fun hne => absurd hsup hne, fun x hx => ?_, fun o c hx => ?_⟩
        · rw [svcEffect, hcaller] at hx
          rcases hx with hx | hx
          · obtain ⟨y, -, rfl⟩ := List.mem_map.mp hx
            exact ⟨y.2, attempt, delay, err, rfl⟩
          · cases hx
        · rw [svcEffect, hcaller] at hx
          rcases hx with hx | hx
          · obtain ⟨rfl, hobs⟩ := mem_observe hx
            exact ⟨hobs, hpol⟩
          · cases hx
  | _ =>
      simp only [supGuard, decide_eq_true_eq] at hg
      exact Calling.of_none (hv.quiet (by simp [← hsvc, hg]))

/-- What supervisors call. -/
theorem restarting_of_run (hr : RunIf h ok τ s) (i : Nat) : Calling h i (s.svc i) := by
  refine svc_invariant i (fun _ v => Calling h i v) (Calling.of_none rfl) ?_ hr
  intro τ s b hr ih hg
  rw [svc_action]
  cases b with
  | launch =>
      have hborn : (s.svc i).sup = .unborn := by
        by_contra hborn
        exact launch_fresh hr hg ((launched_iff hr i).mp hborn)
      exact Calling.of_none (ih.quiet (by simp [hborn]))
  | sup a => exact calling_sup s ih hg rfl
  | call a =>
      cases a with
      | begins c =>
          have hcan : callGuard s (.sup i) (.begins c) = true := hg
          simp only [callGuard, decide_eq_true_eq] at hcan
          have hhead : (s.svc i).caller.queue.head? = some c := hcan.2
          have hobs := ih.observing (Or.inl (List.mem_of_mem_head? hhead))
          -- what is in progress or queued afterwards was queued before
          have hold : ∀ x, x ∈ (s.svc i).caller.begin'.queue ∨
              (s.svc i).caller.begin'.current = some x → x ∈ (s.svc i).caller.queue := by
            rintro x (hx | hx)
            · exact List.mem_of_mem_tail hx
            · exact List.mem_of_mem_head? hx
          exact ⟨fun hne => absurd hobs hne, fun x hx => ih.restarting x (Or.inl (hold x hx)),
            fun o c hx => ih.announced o c (Or.inl (hold _ hx))⟩
      | ends c panicked =>
          have hcan : callGuard s (.sup i) (.ends c panicked) = true := hg
          simp only [callGuard, decide_eq_true_eq] at hcan
          have hobs := ih.observing (Or.inr hcan)
          have hold : ∀ x, x ∈ (s.svc i).caller.finish.queue ∨
              (s.svc i).caller.finish.current = some x → x ∈ (s.svc i).caller.queue := by
            intro x hx
            simpa [Caller.finish] using hx
          exact ⟨fun hne => absurd hobs hne, fun x hx => ih.restarting x (Or.inl (hold x hx)),
            fun o c hx => ih.announced o c (Or.inl (hold _ hx))⟩
  | stopper a => cases a <;> exact ⟨ih.quiet, ih.restarting, ih.announced⟩
  | _ => exact ⟨ih.quiet, ih.restarting, ih.announced⟩

/-! ## Calls in progress -/

/-- Only the host goroutine itself goes on from a call in progress. -/
private theorem current_host {a : Action} (hg : (system h).guard s a = true) {x : Callout}
    (hx : s.caller.current = some x) (hcall : ∀ b, a ≠ .call .host b) :
    ((system h).effect s a).caller.current = some x := by
  cases a with
  | host b =>
      have hidle : s.caller = .none := caller_of_hostGuard hg
      simp [hidle, Caller.none] at hx
  | env a => cases a <;> exact hx
  | watch e => exact hx
  | call who a =>
      cases who with
      | host => exact absurd rfl (hcall a)
      | sup i => cases a <;> exact hx
  | sup i a => cases a <;> exact hx
  | stopper i a => cases a <;> exact hx

/-- A supervisor waits for its call in progress. -/
private theorem current_sup (hr : RunIf h ok τ s) {a : Action}
    (hg : (system h).guard s a = true) {i : Nat} {x : Callout}
    (hx : (s.svc i).caller.current = some x) (hcall : ∀ b, a ≠ .call (.sup i) b) :
    (((system h).effect s a).svc i).caller.current = some x := by
  cases hab : a.svcAct i with
  | none =>
      rw [svc_other s hab]
      exact hx
  | some b =>
      obtain rfl := svcAct_eq_some hab
      rw [svc_action]
      cases b with
      | call b => exact absurd rfl (hcall b)
      | sup b =>
          have hobs := (restarting_of_run hr i).observing (Or.inr hx)
          have hcan : supGuard s i b = true := hg
          cases b with
          | wait =>
              simp only [supGuard, decide_eq_true_eq, Caller.idle_iff] at hcan
              rw [hcan.2] at hx
              cases hx
          | _ => simp [supGuard, hobs] at hcan
      | stopper b => cases b <;> exact hx
      | _ => exact hx

/-- A call in progress stays in progress until it ends. -/
private theorem current_step (hr : RunIf h ok τ s) {a : Action}
    (hg : (system h).guard s a = true) {who : Actor} {x : Callout}
    (hx : (s.callerOf who).current = some x) :
    (∃ panicked, a = .call who (.ends x panicked)) ∨
      (((system h).effect s a).callerOf who).current = some x := by
  by_cases hcall : ∃ b, a = .call who b
  · obtain ⟨b, rfl⟩ := hcall
    cases b with
    | begins c =>
        simp only [system, callGuard, decide_eq_true_eq] at hg
        rw [hg.1] at hx
        cases hx
    | ends c panicked =>
        simp only [system, callGuard, decide_eq_true_eq] at hg
        obtain rfl : c = x := by simpa [hg] using hx
        exact Or.inl ⟨panicked, rfl⟩
  · have hother : ∀ b, a ≠ .call who b := fun b hb => hcall ⟨b, hb⟩
    cases who with
    | host => exact Or.inr (current_host hg hx hother)
    | sup i => exact Or.inr (current_sup hr hg hx hother)

/-- A call that has begun has ended or is in progress. -/
theorem returned_or_current {pre post : List Action} {who : Actor} {x : Callout}
    (hr : RunIf h ok (pre ++ .call who (.begins x) :: post) s) :
    (∃ panicked, .call who (.ends x panicked) ∈ post) ∨ (s.callerOf who).current = some x := by
  obtain ⟨s₁, hr₁, hok, hg, hr₂⟩ := hr.split
  have hbegun := hr₁.snoc hok hg
  refine hr₂.invariant (fun (post : List Action) (s : State h) =>
    (∃ panicked, .call who (.ends x panicked) ∈ post) ∨ (s.callerOf who).current = some x) ?_ ?_
  · simp only [system, callGuard, decide_eq_true_eq] at hg
    right
    cases who <;>
      simpa [system, callEffect, State.setCaller, State.callerOf, Caller.begin'] using hg.2
  · intro post s a hr ih _ hg
    rcases ih with ⟨panicked, hended⟩ | hcurrent
    · exact Or.inl ⟨panicked, List.mem_append_left _ hended⟩
    · rcases current_step (hbegun.trans hr) hg hcurrent with ⟨panicked, rfl⟩ | hnext
      · exact Or.inl ⟨panicked, by simp⟩
      · exact Or.inr hnext

end Shost.Ports.Hosting
