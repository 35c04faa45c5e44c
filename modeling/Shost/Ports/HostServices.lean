import Shost.Ports.HostInvariant

/-!
# One service in a run

What belongs to one service is changed by few actions: those of its two
goroutines, the closing of its `Ready` channel, and the steps of the host
goroutine that launch it, cancel it, call its `Stop` and receive its results.
This file restricts a run to one service, and states what holds of its
channels.

## Main results

* `svc_invariant` — induction for a property of one service.
* `sent_of_run`, `ended_of_run` — what the two goroutines of a service have sent,
  by their places.
* `exits_fifo` — the exits received are the first ones sent.
-/

namespace Shost.Ports.Hosting

open Shost.Verified

variable {h : Host} {ok : State h → Action → Prop} {τ : List Action} {s : State h}

/-- The actions that change what belongs to a service. -/
inductive SvcAct where
  | launch
  | cancel
  | issue (began : Int)
  | takeStop (began : Int) (r : Result)
  | takeDone (began : Int) (svcErr r : Result)
  | closeReady
  | call (a : CallAct)
  | sup (a : SupAct)
  | stopper (a : StopperAct)

/-- The action, for the service at a position. -/
def SvcAct.action (i : Nat) : SvcAct → Action
  | .launch => .host (.run (.launch i))
  | .cancel => .host (.stop (.cancel i))
  | .issue began => .host (.stop (.issue i began))
  | .takeStop began r => .host (.stop (.takeStop i began r))
  | .takeDone began svcErr r => .host (.stop (.takeDone i began svcErr r))
  | .closeReady => .env (.closeReady i)
  | .call a => .call (.sup i) a
  | .sup a => .sup i a
  | .stopper a => .stopper i a

/-- What an action is for the service at a position. -/
def Action.svcAct (i : Nat) : Action → Option SvcAct
  | .host (.run (.launch k)) => if k = i then some .launch else none
  | .host (.stop (.cancel k)) => if k = i then some .cancel else none
  | .host (.stop (.issue k began)) => if k = i then some (.issue began) else none
  | .host (.stop (.takeStop k began r)) => if k = i then some (.takeStop began r) else none
  | .host (.stop (.takeDone k began svcErr r)) =>
      if k = i then some (.takeDone began svcErr r) else none
  | .env (.closeReady k) => if k = i then some .closeReady else none
  | .call (.sup k) a => if k = i then some (.call a) else none
  | .sup k a => if k = i then some (.sup a) else none
  | .stopper k a => if k = i then some (.stopper a) else none
  | _ => none

@[simp] theorem svcAct_action (i : Nat) (b : SvcAct) : (b.action i).svcAct i = some b := by
  cases b <;> simp [SvcAct.action, Action.svcAct]

theorem svcAct_eq_some {i : Nat} {a : Action} {b : SvcAct} (hab : a.svcAct i = some b) :
    a = b.action i := by
  unfold Action.svcAct at hab
  split at hab <;> simp_all [SvcAct.action] <;> (obtain ⟨rfl, rfl⟩ := hab; rfl)

/-- The actions of a history that change what belongs to a service. -/
def svcActs (i : Nat) (τ : List Action) : List SvcAct := τ.filterMap (Action.svcAct i)

theorem mem_svcActs {i : Nat} {b : SvcAct} : b ∈ svcActs i τ ↔ b.action i ∈ τ := by
  constructor
  · intro hb
    obtain ⟨a, ha, hab⟩ := List.mem_filterMap.mp hb
    rwa [← svcAct_eq_some hab]
  · intro hb
    exact List.mem_filterMap.mpr ⟨_, hb, svcAct_action i b⟩

/-- No other action changes what belongs to a service. -/
theorem svc_other {i : Nat} {a : Action} (s : State h) (ha : a.svcAct i = none) :
    ((system h).effect s a).svc i = s.svc i := by
  have hne (k : Nat) {b : SvcAct} (hb : (if k = i then some b else none) = none) : i ≠ k := by
    rintro rfl
    rw [if_pos rfl] at hb
    cases hb
  cases a with
  | env a =>
      cases a with
      | closeReady k => exact svc_modSvc_of_ne s k (fun v => { v with ready := true }) (hne k ha)
      | _ => rfl
  | watch e => rfl
  | call who a =>
      cases who with
      | host => cases a <;> rfl
      | sup k =>
          have hk := hne k ha
          cases a <;> simp [system, callEffect, State.setCaller, svc_modSvc_of_ne, hk]
  | sup k a =>
      have hk := hne k ha
      cases a <;> simp [system, supEffect, svc_modSvc_of_ne, hk]
  | stopper k a =>
      have hk := hne k ha
      cases a <;> simp [system, stopperEffect, svc_modSvc_of_ne, hk]
  | host a =>
      cases a with
      | task a =>
          obtain ⟨pc, errs, aborted, htask⟩ := taskEffect_frame s a
          simp [system, hostEffect, htask]
      | run a =>
          cases a with
          | launch k => exact svc_modSvc_of_ne s k (spawn (h := h) k) (hne k ha)
          | startTimeout k | takeCtx | takeShutdown | takeExit exit =>
              simp [system, hostEffect, runEffect]
          | _ => rfl
      | stop a =>
          cases a with
          | cancel k | issue k began =>
              simp [system, hostEffect, stopEffect, svc_modSvc_of_ne, hne k ha]
          | takeStop k began r =>
              cases r <;> simp [system, hostEffect, stopEffect, svc_modSvc_of_ne, hne k ha]
          | takeDone k began svcErr r =>
              simp only [system, hostEffect, stopEffect]
              split <;> simp [svc_modSvc_of_ne, hne k ha]
          | _ => rfl

/-- Induction for a property of one service and the actions that change what
belongs to it. -/
theorem svc_invariant (i : Nat) (I : List SvcAct → Svc → Prop) (h₀ : I [] .init)
    (hstep : ∀ τ (s : State h) (b : SvcAct), RunIf h ok τ s → I (svcActs i τ) (s.svc i) →
      (system h).guard s (b.action i) = true →
      I (svcActs i τ ++ [b]) (((system h).effect s (b.action i)).svc i))
    (hr : RunIf h ok τ s) : I (svcActs i τ) (s.svc i) := by
  refine hr.invariant (fun (τ : List Action) (s : State h) => I (svcActs i τ) (s.svc i)) h₀ ?_
  intro τ s a hr ih _ hg
  cases hab : a.svcAct i with
  | none =>
      rw [svc_other s hab, svcActs, List.filterMap_append]
      simpa [hab, svcActs] using ih
  | some b =>
      obtain rfl := svcAct_eq_some hab
      have hb := hstep τ s b hr ih hg
      rw [svcActs, List.filterMap_append]
      simpa [svcActs] using hb

/-- What an action does to the service it is about. -/
def svcEffect (s : State h) (i : Nat) : SvcAct → Svc → Svc
  | .launch, v => spawn (h := h) i v
  | .cancel, v => { v with ctxDone := true }
  | .issue _, v => { v with stop := .spawned }
  | .takeStop _ _, v => { v with stopRes := v.stopRes.drop }
  | .takeDone _ _ _, v => { v with done := v.done.drop }
  | .closeReady, v => { v with ready := true }
  | .call (.begins _), v => { v with caller := v.caller.begin' }
  | .call (.ends _ _), v => { v with caller := v.caller.finish }
  | .sup .start, v => { v with sup := .running s.now }
  | .sup (.result began o), v => { v with sup := .exited began (safeStart o) }
  | .sup (.check began err), v => checkExit h i (s.supStops i) (s.now - began) err v
  | .sup .wait, v => { v with sup := .backoff (s.now + v.delay) }
  | .sup (.stopWaiting _), v => { v with sup := .sendDone none false }
  | .sup (.restart _ raw), v => restartHead h i raw v
  | .sup (.sendDone err report), v =>
      { v with done := v.done.send err, sup := if report then .sendExit err else .gone }
  | .sup (.sendExit _), v => { v with sup := .gone }
  | .stopper .call, v => { v with stop := .running }
  | .stopper (.result o), v =>
      { v with stop := .finished, stopRes := v.stopRes.send (safeStop o) }

theorem svc_action (s : State h) (i : Nat) (b : SvcAct) :
    ((system h).effect s (b.action i)).svc i = svcEffect s i b (s.svc i) := by
  cases b with
  | takeStop began r => cases r <;> simp [SvcAct.action, system, hostEffect, stopEffect, svcEffect]
  | takeDone began svcErr r =>
      simp only [SvcAct.action, system, hostEffect, stopEffect, svcEffect]
      split <;> simp
  | call a =>
      cases a <;>
        simp [SvcAct.action, system, callEffect, State.setCaller, State.callerOf, svcEffect]
  | sup a => cases a <;> simp [SvcAct.action, system, supEffect, svcEffect]
  | stopper a => cases a <;> simp [SvcAct.action, system, stopperEffect, svcEffect]
  | _ => simp [SvcAct.action, system, hostEffect, runEffect, stopEffect, envEffect, svcEffect]

/-! ## Results sent and received -/

/-- What the goroutine that calls `Stop` has sent. -/
def stopEnds (acts : List SvcAct) : List Result :=
  acts.filterMap fun
    | .stopper (.result o) => some (safeStop o)
    | _ => none

/-- What the host goroutine has received of it. -/
def stopReads (acts : List SvcAct) : List Result :=
  acts.filterMap fun
    | .takeStop _ r => some r
    | _ => none

/-- What the supervisor has sent to `done`. -/
def doneSends (acts : List SvcAct) : List Result :=
  acts.filterMap fun
    | .sup (.sendDone r _) => some r
    | _ => none

/-- What the host goroutine has received from `done`. -/
def doneReads (acts : List SvcAct) : List Result :=
  acts.filterMap fun
    | .takeDone _ _ r => some r
    | _ => none

/-- What the supervisor has sent to `exits`. -/
def exitSends (acts : List SvcAct) : List Result :=
  acts.filterMap fun
    | .sup (.sendExit r) => some r
    | _ => none

/-- What a supervisor has sent, by its place. -/
def Sent (acts : List SvcAct) : SupPC → Prop
  | .sendExit r => doneSends acts = [r] ∧ exitSends acts = []
  | .gone => ∃ r, doneSends acts = [r] ∧ (exitSends acts = [] ∨ exitSends acts = [r])
  | _ => doneSends acts = [] ∧ exitSends acts = []

/-- What the goroutine that calls `Stop` has sent, by its place. -/
def Ended (acts : List SvcAct) : StopPC → Prop
  | .finished => ∃ r, stopEnds acts = [r]
  | _ => stopEnds acts = []

/-- A service is launched once. -/
theorem launch_fresh (hr : RunIf h ok τ s) {i : Nat}
    (hg : (system h).guard s (.host (.run (.launch i))) = true) :
    .launch ∉ svcActs i τ := by
  have hcan : runGuard s (.launch i) = true := hostCan_of_guard hg
  simp only [runGuard, decide_eq_true_eq] at hcan
  have hplaced := placed_of_run hr
  simp only [Placed, State.loop, hcan.1] at hplaced
  intro hmem
  have hlaunch : i ∈ launches (hostActs τ) :=
    mem_launches.mpr (mem_hostActs.mpr (mem_svcActs.mp hmem))
  rw [launches_eq hr, hplaced.1, List.mem_range] at hlaunch
  exact absurd hlaunch (Nat.lt_irrefl i)

/-- `Stop` of a service is issued once. -/
theorem issue_fresh (hr : RunIf h ok τ s) {i : Nat} {began : Int}
    (hg : (system h).guard s (.host (.stop (.issue i began))) = true) :
    ∀ began', .issue began' ∉ svcActs i τ := by
  have hcan : stopGuard s (.issue i began) = true := hostCan_of_guard hg
  simp only [stopGuard, decide_eq_true_eq] at hcan
  intro began' hmem
  have hissue : i ∈ issues (hostActs τ) :=
    mem_issues.mpr ⟨began', mem_hostActs.mpr (mem_svcActs.mp hmem)⟩
  rw [issues_eq hr, hcan, HostPC.toIssue, mem_lastDownTo] at hissue
  omega

/-! ## The supervisor's part of a service -/

private theorem applyPolicy_eq (h : Host) (i : Nat) (pol : RestartPolicy) (err : Result)
    (v : Svc) : ∃ sup caller attempts,
      applyPolicy h i pol err v = { v with sup := sup, caller := caller, attempts := attempts } ∧
        (sup = .observing ∨ sup = .sendDone err true) := by
  by_cases hgive : pol.maxAttempts > 0 ∧ v.attempts + 1 > pol.maxAttempts
  · refine ⟨.sendDone err true, v.caller, v.attempts + 1, ?_, Or.inr rfl⟩
    simp [applyPolicy, hgive]
  · refine ⟨.observing,
      ⟨h.observe (.serviceRestarting i (v.attempts + 1) v.delay err), none⟩,
      v.attempts + 1, ?_, Or.inl rfl⟩
    simp only [applyPolicy, if_neg hgive]

private theorem resetAttempts_eq (pol : RestartPolicy) (ran : Duration) (v : Svc) :
    ∃ attempts delay,
      resetAttempts pol ran v = { v with attempts := attempts, delay := delay } := by
  by_cases hlong : ran ≥ pol.resetAfter
  · exact ⟨0, pol.initialDelay, by simp [resetAttempts, hlong]⟩
  · exact ⟨v.attempts, v.delay, by simp [resetAttempts, hlong]⟩

/-- What the loop body does once `Start` has returned concerns the supervisor
alone, which goes on to a restart or to its last send. -/
theorem checkExit_eq (h : Host) (i : Nat) (stops : Bool) (ran : Duration) (err : Result)
    (v : Svc) : ∃ sup caller attempts delay,
      checkExit h i stops ran err v =
          { v with sup := sup, caller := caller, attempts := attempts, delay := delay } ∧
        (sup = .observing ∨ ∃ report, sup = .sendDone err report) := by
  unfold checkExit
  split
  · exact ⟨_, _, _, _, rfl, Or.inr ⟨false, rfl⟩⟩
  · split
    · exact ⟨_, _, _, _, rfl, Or.inr ⟨true, rfl⟩⟩
    · rename_i pol _
      obtain ⟨attempts, delay, hreset⟩ := resetAttempts_eq pol ran v
      obtain ⟨sup, caller, attempts', hpolicy, hsup⟩ :=
        applyPolicy_eq h i pol err (resetAttempts pol ran v)
      refine ⟨sup, caller, attempts', delay, ?_, hsup.imp id fun hs => ⟨true, hs⟩⟩
      rw [hpolicy, hreset]

/-- A supervisor changes only its own variables and what it sends to. -/
theorem svcEffect_sup (s : State h) (i : Nat) (a : SupAct) (v : Svc) :
    ∃ sup caller attempts delay done, svcEffect s i (.sup a) v =
      { v with
        sup := sup, caller := caller, attempts := attempts, delay := delay, done := done } := by
  cases a with
  | check began err =>
      obtain ⟨sup, caller, attempts, delay, hcheck, -⟩ :=
        checkExit_eq h i (s.supStops i) (s.now - began) err v
      exact ⟨sup, caller, attempts, delay, v.done, hcheck⟩
  | _ => exact ⟨_, _, _, _, _, rfl⟩

/-- After a step of a supervisor there is one. -/
theorem svcEffect_sup_born (s : State h) (i : Nat) (a : SupAct) (v : Svc) :
    (svcEffect s i (.sup a) v).sup ≠ .unborn := by
  cases a with
  | check began err =>
      obtain ⟨sup, caller, attempts, delay, hcheck, hsup⟩ :=
        checkExit_eq h i (s.supStops i) (s.now - began) err v
      rw [svcEffect, hcheck]
      rcases hsup with rfl | ⟨report, rfl⟩ <;> simp
  | sendDone err report => cases report <;> simp [svcEffect]
  | _ => simp [svcEffect, restartHead]

/-- A step of a supervisor is one of a supervisor that exists. -/
theorem born_of_supGuard {i : Nat} {a : SupAct} (hg : supGuard s i a = true) :
    (s.svc i).sup ≠ .unborn := by
  intro hborn
  cases a <;> simp [supGuard, hborn] at hg

/-! ## What holds of one service throughout a run -/

/-- What one action of a service turns on, and no action turns off. -/
private theorem on_iff (hr : RunIf h ok τ s) (i : Nat) (on : Svc → Prop) (c : SvcAct)
    (h₀ : ¬ on .init)
    (hstep : ∀ (s : State h) b, (system h).guard s (b.action i) = true →
      (on (svcEffect s i b (s.svc i)) ↔ on (s.svc i) ∨ c = b)) :
    on (s.svc i) ↔ c ∈ svcActs i τ := by
  refine svc_invariant i (fun acts v => on v ↔ c ∈ acts) ?_ ?_ hr
  · simpa using h₀
  · intro τ s b _ ih hg
    rw [svc_action, List.mem_append, List.mem_singleton, ← ih]
    exact hstep s b hg

/-- A supervisor exists from the launch on. -/
theorem launched_iff (hr : RunIf h ok τ s) (i : Nat) :
    (s.svc i).sup ≠ .unborn ↔ .launch ∈ svcActs i τ := by
  refine on_iff hr i (fun v => v.sup ≠ .unborn) .launch (by simp [Svc.init]) ?_
  intro s b hg
  cases b with
  | launch => simp [svcEffect, spawn]
  | sup a => simp [svcEffect_sup_born, born_of_supGuard (i := i) (a := a) hg]
  | call a => cases a <;> simp [svcEffect]
  | stopper a => cases a <;> simp [svcEffect]
  | _ => simp [svcEffect]

/-- Only launched services have a supervisor. -/
theorem launched_of_born (hr : RunIf h ok τ s) {i : Nat} (hborn : (s.svc i).sup ≠ .unborn) :
    i < s.launched := by
  have hlaunch : i ∈ launches (hostActs τ) :=
    mem_launches.mpr (mem_hostActs.mpr (mem_svcActs.mp ((launched_iff hr i).mp hborn)))
  rwa [launches_eq hr, List.mem_range] at hlaunch

/-- And only their supervisors take steps. -/
theorem launched_of_sup (hr : RunIf h ok τ s) {i : Nat} {a : SupAct} (hmem : .sup i a ∈ τ) :
    i < s.launched := by
  obtain ⟨pre, post, s₁, rfl, hr₁, -, hg⟩ := hr.of_mem hmem
  have hlaunch := (launched_iff hr₁ i).mp (born_of_supGuard hg)
  refine launched_of_born hr ((launched_iff hr i).mpr ?_)
  rw [svcActs, List.filterMap_append]
  exact List.mem_append_left _ hlaunch

/-- The goroutine that calls `Stop` exists from the issue on. -/
theorem issued_iff (hr : RunIf h ok τ s) (i : Nat) :
    (s.svc i).stop ≠ .unborn ↔ ∃ began, .issue began ∈ svcActs i τ := by
  refine svc_invariant i (fun acts v => v.stop ≠ .unborn ↔ ∃ began, .issue began ∈ acts)
    ?_ ?_ hr
  · simp [Svc.init]
  · intro τ s b hr ih hg
    rw [svc_action]
    simp only [List.mem_append, exists_or, ← ih]
    cases b with
    | launch => simp [svcEffect, spawn]
    | sup a =>
        obtain ⟨sup, caller, attempts, delay, done, heq⟩ := svcEffect_sup s i a (s.svc i)
        simp [heq]
    | call a => cases a <;> simp [svcEffect]
    | stopper a =>
        have hborn : (s.svc i).stop ≠ .unborn := by
          intro hborn
          cases a <;> simp [SvcAct.action, system, stopperGuard, hborn] at hg
        cases a <;> simp [svcEffect, hborn]
    | _ => simp [svcEffect]

/-- One action cancels the context, and one closes the `Ready` channel. -/
private theorem flags_svcEffect (s : State h) (i : Nat) (b : SvcAct) (v : Svc) :
    ((svcEffect s i b v).ctxDone = true ↔ v.ctxDone = true ∨ SvcAct.cancel = b) ∧
      ((svcEffect s i b v).ready = true ↔ v.ready = true ∨ SvcAct.closeReady = b) := by
  cases b with
  | launch => simp [svcEffect, spawn]
  | sup a =>
      obtain ⟨sup, caller, attempts, delay, done, heq⟩ := svcEffect_sup s i a v
      simp [heq]
  | call a => cases a <;> simp [svcEffect]
  | stopper a => cases a <;> simp [svcEffect]
  | _ => simp [svcEffect]

/-- The context of a service is canceled by the host goroutine. -/
theorem canceled_iff (hr : RunIf h ok τ s) (i : Nat) :
    (s.svc i).ctxDone = true ↔ .cancel ∈ svcActs i τ :=
  on_iff hr i (fun v => v.ctxDone = true) .cancel (by simp [Svc.init])
    fun s b _ => (flags_svcEffect s i b (s.svc i)).1

/-- A `Ready` channel is closed by its service only. -/
theorem ready_iff (hr : RunIf h ok τ s) (i : Nat) :
    (s.svc i).ready = true ↔ .closeReady ∈ svcActs i τ :=
  on_iff hr i (fun v => v.ready = true) .closeReady (by simp [Svc.init])
    fun s b _ => (flags_svcEffect s i b (s.svc i)).2

/-- A channel is a queue when every step makes it one. -/
private theorem fifo_of_run (hr : RunIf h ok τ s) (i : Nat) (sent received : SvcAct → Option Result)
    (buf : Svc → List Result) (h₀ : buf .init = [])
    (hstep : ∀ (s : State h) b, (system h).guard s (b.action i) = true →
      buf (s.svc i) ++ (sent b).toList =
        (received b).toList ++ buf (svcEffect s i b (s.svc i))) :
    (svcActs i τ).filterMap sent = (svcActs i τ).filterMap received ++ buf (s.svc i) := by
  refine svc_invariant i
    (fun acts v => acts.filterMap sent = acts.filterMap received ++ buf v) ?_ ?_ hr
  · rw [h₀]
    rfl
  · intro τ s b _ ih hg
    have hone (f : SvcAct → Option Result) : [b].filterMap f = (f b).toList := by
      cases hf : f b <;> simp [hf]
    rw [svc_action, List.filterMap_append, List.filterMap_append, hone, hone, ih,
      List.append_assoc, List.append_assoc, hstep s b hg]

/-- `stopRes` is a queue: what was sent is what was received and what waits. -/
theorem stop_fifo (hr : RunIf h ok τ s) (i : Nat) :
    stopEnds (svcActs i τ) = stopReads (svcActs i τ) ++ (s.svc i).stopRes.buf := by
  refine fifo_of_run hr i _ _ (fun v => v.stopRes.buf) rfl ?_
  intro s b hg
  cases b with
  | takeStop began r =>
      have hcan : stopGuard s (.takeStop i began r) = true := hostCan_of_guard hg
      simp only [stopGuard, decide_eq_true_eq, Chan.next_eq_some_iff] at hcan
      obtain ⟨rest, hrest⟩ := hcan.2
      simp [svcEffect, hrest]
  | stopper a =>
      cases a with
      | call => exact List.append_nil _
      | result o =>
          have hroom : (s.svc i).stop = .running ∧ (s.svc i).stopRes.hasRoom :=
            of_decide_eq_true hg
          simp [svcEffect, Chan.buf_send hroom.2]
  | sup a =>
      obtain ⟨sup, caller, attempts, delay, done, heq⟩ := svcEffect_sup s i a (s.svc i)
      rw [heq]
      exact List.append_nil _
  | call a => cases a <;> exact List.append_nil _
  | _ => exact List.append_nil _

/-- `done` is a queue: what was sent is what was received and what waits. -/
theorem done_fifo (hr : RunIf h ok τ s) (i : Nat) :
    doneSends (svcActs i τ) = doneReads (svcActs i τ) ++ (s.svc i).done.buf := by
  refine fifo_of_run hr i _ _ (fun v => v.done.buf) rfl ?_
  intro s b hg
  cases b with
  | takeDone began svcErr r =>
      have hcan : stopGuard s (.takeDone i began svcErr r) = true := hostCan_of_guard hg
      simp only [stopGuard, decide_eq_true_eq, Chan.next_eq_some_iff] at hcan
      obtain ⟨rest, hrest⟩ := hcan.2
      simp [svcEffect, hrest]
  | sup a =>
      cases a with
      | check began err =>
          obtain ⟨sup, caller, attempts, delay, hcheck, -⟩ :=
            checkExit_eq h i (s.supStops i) (s.now - began) err (s.svc i)
          rw [svcEffect, hcheck]
          exact List.append_nil _
      | sendDone err report =>
          have hroom : (s.svc i).sup = .sendDone err report ∧ (s.svc i).done.hasRoom :=
            of_decide_eq_true hg
          simp [svcEffect, Chan.buf_send hroom.2]
      | _ => exact List.append_nil _
  | call a => cases a <;> exact List.append_nil _
  | stopper a => cases a <;> exact List.append_nil _
  | _ => exact List.append_nil _

/-- An action that sends nothing. -/
private theorem Sent.keep {acts : List SvcAct} {b : SvcAct} {pc : SupPC} (hsent : Sent acts pc)
    (hdone : doneSends [b] = []) (hexit : exitSends [b] = []) : Sent (acts ++ [b]) pc := by
  have hdones : doneSends (acts ++ [b]) = doneSends acts := by
    rw [doneSends, List.filterMap_append, ← doneSends, ← doneSends, hdone, List.append_nil]
  have hexits : exitSends (acts ++ [b]) = exitSends acts := by
    rw [exitSends, List.filterMap_append, ← exitSends, ← exitSends, hexit, List.append_nil]
  cases pc <;> simpa only [Sent, hdones, hexits] using hsent

/-- What a supervisor has sent, by its place. -/
theorem sent_of_run (hr : RunIf h ok τ s) (i : Nat) :
    Sent (svcActs i τ) (s.svc i).sup := by
  refine svc_invariant i (fun acts v => Sent acts v.sup) ⟨rfl, rfl⟩ ?_ hr
  intro τ s b hr ih hg
  rw [svc_action]
  cases b with
  | launch =>
      have hborn : (s.svc i).sup = .unborn := by
        by_contra hborn
        exact launch_fresh hr hg ((launched_iff hr i).mp hborn)
      rw [hborn] at ih
      have hhead : Sent (svcActs i τ) .head := ih
      exact hhead.keep rfl rfl
  | sup a =>
      cases a with
      | check began err =>
          have hpc : (s.svc i).sup = .exited began err := of_decide_eq_true hg
          obtain ⟨sup, caller, attempts, delay, hcheck, hsup⟩ :=
            checkExit_eq h i (s.supStops i) (s.now - began) err (s.svc i)
          rw [svcEffect, hcheck]
          rw [hpc] at ih
          rcases hsup with rfl | ⟨report, rfl⟩
          · have hnext : Sent (svcActs i τ) .observing := ih
            exact hnext.keep rfl rfl
          · have hnext : Sent (svcActs i τ) (.sendDone err report) := ih
            exact hnext.keep rfl rfl
      | sendDone err report =>
          have hpc : (s.svc i).sup = .sendDone err report ∧ (s.svc i).done.hasRoom :=
            of_decide_eq_true hg
          simp only [hpc.1, Sent, doneSends, exitSends] at ih
          cases report <;> simp [svcEffect, Sent, doneSends, exitSends, ih]
      | sendExit err =>
          have hpc : (s.svc i).sup = .sendExit err ∧ s.exits.hasRoom := of_decide_eq_true hg
          simp only [hpc.1, Sent, doneSends, exitSends] at ih
          simp [svcEffect, Sent, doneSends, exitSends, ih]
      | start | result began o =>
          have hpc : (s.svc i).sup = _ := of_decide_eq_true hg
          rw [hpc] at ih
          refine Sent.keep ?_ rfl rfl
          exact ih
      | wait | stopWaiting due | restart due raw =>
          have hpc := (of_decide_eq_true hg : (s.svc i).sup = _ ∧ _).1
          rw [hpc] at ih
          refine Sent.keep ?_ rfl rfl
          exact ih
  | call a => cases a <;> exact ih.keep rfl rfl
  | stopper a => cases a <;> exact ih.keep rfl rfl
  | _ => exact ih.keep rfl rfl

/-- A supervisor delivers one result. -/
theorem Sent.dones_eq {acts : List SvcAct} {pc : SupPC} {r : Result} (hsent : Sent acts pc)
    (hmem : r ∈ doneSends acts) : doneSends acts = [r] := by
  cases pc with
  | sendExit r' =>
      have hdone : doneSends acts = [r'] := hsent.1
      rw [hdone, List.mem_singleton] at hmem
      rw [hdone, hmem]
  | gone =>
      obtain ⟨r', hdone, -⟩ := hsent
      rw [hdone, List.mem_singleton] at hmem
      rw [hdone, hmem]
  | _ =>
      have hnone : doneSends acts = [] := hsent.1
      rw [hnone] at hmem
      cases hmem

/-- Its exit carries that result and is the last that it sends. -/
theorem Sent.of_exit {acts : List SvcAct} {pc : SupPC} {r : Result} (hsent : Sent acts pc)
    (hmem : r ∈ exitSends acts) : pc = .gone ∧ doneSends acts = [r] := by
  cases pc with
  | gone =>
      obtain ⟨r', hdone, hnil | hone⟩ := hsent
      · rw [hnil] at hmem
        cases hmem
      · rw [hone, List.mem_singleton] at hmem
        rw [hdone, hmem]
        exact ⟨rfl, rfl⟩
  | _ =>
      have hnone : exitSends acts = [] := hsent.2
      rw [hnone] at hmem
      cases hmem

theorem mem_exitSends {i : Nat} {r : Result} :
    r ∈ exitSends (svcActs i τ) ↔ .sup i (.sendExit r) ∈ τ := by
  constructor
  · intro hmem
    obtain ⟨b, hb, hbr⟩ := List.mem_filterMap.mp hmem
    split at hbr
    · obtain rfl := Option.some.inj hbr
      exact mem_svcActs.mp hb
    · cases hbr
  · intro hmem
    exact List.mem_filterMap.mpr ⟨.sup (.sendExit r), mem_svcActs.mpr hmem, rfl⟩

theorem mem_stopReads {i : Nat} {r : Result} :
    r ∈ stopReads (svcActs i τ) ↔ ∃ began, .host (.stop (.takeStop i began r)) ∈ τ := by
  constructor
  · intro hmem
    obtain ⟨b, hb, hbr⟩ := List.mem_filterMap.mp hmem
    split at hbr
    · obtain rfl := Option.some.inj hbr
      exact ⟨_, mem_svcActs.mp hb⟩
    · cases hbr
  · rintro ⟨began, hmem⟩
    exact List.mem_filterMap.mpr ⟨.takeStop began r, mem_svcActs.mpr hmem, rfl⟩

theorem mem_doneReads {i : Nat} {r : Result} :
    r ∈ doneReads (svcActs i τ) ↔
      ∃ began svcErr, .host (.stop (.takeDone i began svcErr r)) ∈ τ := by
  constructor
  · intro hmem
    obtain ⟨b, hb, hbr⟩ := List.mem_filterMap.mp hmem
    split at hbr
    · obtain rfl := Option.some.inj hbr
      exact ⟨_, _, mem_svcActs.mp hb⟩
    · cases hbr
  · rintro ⟨began, svcErr, hmem⟩
    exact List.mem_filterMap.mpr ⟨.takeDone began svcErr r, mem_svcActs.mpr hmem, rfl⟩

/-- Once a supervisor has sent an exit it has ended, and the exit is its result. -/
theorem gone_of_sendExit (hr : RunIf h ok τ s) {i : Nat} {r : Result}
    (hmem : .sup i (.sendExit r) ∈ τ) :
    (s.svc i).sup = .gone ∧ doneSends (svcActs i τ) = [r] :=
  (sent_of_run hr i).of_exit (mem_exitSends.mpr hmem)

/-- Only launched services deliver a result. -/
theorem launched_of_doneSends (hr : RunIf h ok τ s) {i : Nat} {r : Result}
    (hmem : r ∈ doneSends (svcActs i τ)) : i < s.launched := by
  have hborn : (s.svc i).sup ≠ .unborn := by
    intro hborn
    have hsent := sent_of_run hr i
    simp only [hborn, Sent] at hsent
    simp [hsent] at hmem
  exact launched_of_born hr hborn

private theorem Ended.keep {acts : List SvcAct} {b : SvcAct} {pc : StopPC}
    (hended : Ended acts pc) (hnone : stopEnds [b] = []) : Ended (acts ++ [b]) pc := by
  have hends : stopEnds (acts ++ [b]) = stopEnds acts := by
    rw [stopEnds, List.filterMap_append, ← stopEnds, ← stopEnds, hnone, List.append_nil]
  cases pc <;> simpa only [Ended, hends] using hended

/-- What the goroutine that calls `Stop` has sent, by its place. -/
theorem ended_of_run (hr : RunIf h ok τ s) (i : Nat) :
    Ended (svcActs i τ) (s.svc i).stop := by
  refine svc_invariant i (fun acts v => Ended acts v.stop) rfl ?_ hr
  intro τ s b hr ih hg
  rw [svc_action]
  cases b with
  | issue began =>
      have hborn : (s.svc i).stop = .unborn := by
        by_contra hborn
        obtain ⟨began', hissue⟩ := (issued_iff hr i).mp hborn
        exact issue_fresh hr hg began' hissue
      rw [hborn] at ih
      have hspawned : Ended (svcActs i τ) .spawned := ih
      exact hspawned.keep rfl
  | stopper a =>
      cases a with
      | call =>
          have hpc : (s.svc i).stop = .spawned := of_decide_eq_true hg
          rw [hpc] at ih
          have hrunning : Ended (svcActs i τ) .running := ih
          exact hrunning.keep rfl
      | result o =>
          have hpc : (s.svc i).stop = .running ∧ (s.svc i).stopRes.hasRoom :=
            of_decide_eq_true hg
          simp only [hpc.1, Ended, stopEnds] at ih
          simp [svcEffect, Ended, stopEnds, ih]
  | sup a =>
      obtain ⟨sup, caller, attempts, delay, done, heq⟩ := svcEffect_sup s i a (s.svc i)
      rw [heq]
      exact ih.keep rfl
  | call a => cases a <;> exact ih.keep rfl
  | _ => exact ih.keep rfl

/-- `Stop` has one result. -/
theorem Ended.of_mem {acts : List SvcAct} {pc : StopPC} {r : Result} (hended : Ended acts pc)
    (hmem : r ∈ stopEnds acts) : pc = .finished ∧ stopEnds acts = [r] := by
  cases pc with
  | finished =>
      obtain ⟨r', hends⟩ := hended
      rw [hends, List.mem_singleton] at hmem
      rw [hends, hmem]
      exact ⟨rfl, rfl⟩
  | _ =>
      have hnone : stopEnds acts = [] := hended
      rw [hnone] at hmem
      cases hmem

/-! ## The channel `exits` -/

/-- The exits sent by the supervisors, in order. -/
def exitLog (τ : List Action) : List ServiceExit :=
  τ.filterMap fun
    | .sup i (.sendExit r) => some ⟨i, r⟩
    | _ => none

/-- The exits received by the host goroutine, in order. -/
def exitReads (η : List HostAct) : List ServiceExit :=
  η.filterMap fun
    | .run (.takeExit exit) => some exit
    | _ => none

/-- One action sends an exit, one receives one, and the others leave `exits` alone. -/
private theorem exits_step (s : State h) (a : Action) :
    (∃ i r, a = .sup i (.sendExit r)) ∨ (∃ exit, a = .host (.run (.takeExit exit))) ∨
      exitLog [a] = [] ∧ exitReads (hostActs [a]) = [] ∧
        ((system h).effect s a).exits = s.exits := by
  cases a with
  | sup i a =>
      cases a with
      | sendExit r => exact Or.inl ⟨i, r, rfl⟩
      | _ => exact Or.inr (Or.inr ⟨rfl, rfl, rfl⟩)
  | host a =>
      cases a with
      | task a =>
          obtain ⟨pc, errs, aborted, htask⟩ := taskEffect_frame s a
          refine Or.inr (Or.inr ⟨rfl, rfl, ?_⟩)
          simp [system, hostEffect, htask]
      | run a =>
          cases a with
          | takeExit exit => exact Or.inr (Or.inl ⟨exit, rfl⟩)
          | startTimeout k | takeCtx | takeShutdown =>
              refine Or.inr (Or.inr ⟨rfl, rfl, ?_⟩)
              simp [system, hostEffect, runEffect]
          | _ => exact Or.inr (Or.inr ⟨rfl, rfl, rfl⟩)
      | stop a =>
          refine Or.inr (Or.inr ⟨rfl, rfl, ?_⟩)
          cases a with
          | takeStop i began r => cases r <;> rfl
          | takeDone i began svcErr r =>
              simp only [system, hostEffect, stopEffect]
              split <;> rfl
          | _ => rfl
  | env a => cases a <;> exact Or.inr (Or.inr ⟨rfl, rfl, rfl⟩)
  | watch e => exact Or.inr (Or.inr ⟨rfl, rfl, rfl⟩)
  | call who a => cases who <;> cases a <;> exact Or.inr (Or.inr ⟨rfl, rfl, rfl⟩)
  | stopper i a => cases a <;> exact Or.inr (Or.inr ⟨rfl, rfl, rfl⟩)

/-- `exits` is a queue: what was sent is what was received and what waits. -/
theorem exits_fifo (hr : RunIf h ok τ s) :
    exitLog τ = exitReads (hostActs τ) ++ s.exits.buf := by
  refine hr.invariant
    (fun (τ : List Action) (s : State h) =>
      exitLog τ = exitReads (hostActs τ) ++ s.exits.buf) rfl ?_
  intro τ s a _ ih _ hg
  rw [exitLog, List.filterMap_append, ← exitLog, ← exitLog, hostActs_append, exitReads,
    List.filterMap_append, ← exitReads, ← exitReads, ih]
  obtain ⟨i, r, rfl⟩ | ⟨exit, rfl⟩ | ⟨hsends, hreads, hexits⟩ := exits_step s a
  · simp only [system, supGuard, decide_eq_true_eq] at hg
    simp [system, supEffect, exitLog, exitReads, hostActs, Chan.buf_send hg.2]
  · have hcan : runGuard s (.takeExit exit) = true := hostCan_of_guard hg
    simp only [runGuard, decide_eq_true_eq, Chan.next_eq_some_iff] at hcan
    obtain ⟨rest, hrest⟩ := hcan.2
    simp [system, hostEffect, runEffect, exitLog, exitReads, hrest]
  · rw [hsends, hreads, hexits, List.append_nil, List.append_nil]

/-- A service's exits among all exits sent. -/
theorem mem_exitLog {i : Nat} {r : Result} :
    ⟨i, r⟩ ∈ exitLog τ ↔ .sup i (.sendExit r) ∈ τ := by
  simp only [exitLog, List.mem_filterMap]
  constructor
  · rintro ⟨a, ha, hai⟩
    split at hai <;> simp_all
  · intro hi
    exact ⟨_, hi, rfl⟩

theorem mem_exitReads {exit : ServiceExit} {η : List HostAct} :
    exit ∈ exitReads η ↔ .run (.takeExit exit) ∈ η := by
  simp only [exitReads, List.mem_filterMap]
  constructor
  · rintro ⟨a, ha, hexit⟩
    split at hexit <;> simp_all
  · intro hmem
    exact ⟨_, hmem, rfl⟩

/-- An exit that is received was sent. -/
theorem mem_sendExit_of_takeExit (hr : RunIf h ok τ s) {exit : ServiceExit}
    (hmem : .host (.run (.takeExit exit)) ∈ τ) : .sup exit.index (.sendExit exit.err) ∈ τ := by
  have hread : exit ∈ exitReads (hostActs τ) := mem_exitReads.mpr (mem_hostActs.mpr hmem)
  have hlog : exit ∈ exitLog τ := by
    rw [exits_fifo hr]
    exact List.mem_append_left _ hread
  exact mem_exitLog.mp hlog

/-- An exit is sent after the same result has been sent to `done`. -/
theorem mem_doneSends_of_sendExit (hr : RunIf h ok τ s) {i : Nat} {r : Result}
    (hmem : .sup i (.sendExit r) ∈ τ) : r ∈ doneSends (svcActs i τ) := by
  rw [(gone_of_sendExit hr hmem).2]
  exact List.mem_singleton_self r

end Shost.Ports.Hosting
