import Shost.Ports.HostStopAll
import Shost.Ports.HostTaskAbort
import Shost.Verified.Refine

/-!
# The host goroutine comes to an end

Every place of the host goroutine has a number of steps that are left at most, whatever
the services do, and every step lowers it: the launch loop counts up, `stopAll` counts
down, and a hook or callback takes two steps.  So a run of any length holds a bounded
number of steps of `RunContext`, and what `RunContext` waits for is only a trigger, a
`Ready` channel or an exit in its two selects, and the deadline in those of `stopAll`.

## Main results

* `terminates_of_run` — the steps of `RunContext` are bounded in every run, it waits in
  its selects only, and a host that is told to shut down can do so on its own within the
  shutdown timeout.
-/

namespace Shost.Ports.Hosting

open Shost.Verified

variable {h : Host} {ok : State h → Action → Prop} {τ : List Action} {s : State h}

/-! ## Counting the steps -/

/-- How many steps the host goroutine has left, at most, the calls of hooks and
observers apart. -/
def LoopVars.budget (h : Host) (v : LoopVars) : Nat :=
  let n := h.services.length
  let m := h.tasks.length
  match v.pc with
  | .entry => 2 * m + 7 * n + 9
  | .taskHead k => 2 * (m - k) + 7 * n + 8
  | .inTask k => 2 * (m - (k + 1)) + 7 * n + 9
  | .launchHead k => 7 * (n - k) + 4 * k + 7
  | .readierCheck k => 7 * (n - (k + 1)) + 4 * (k + 1) + 9
  | .waitReady k => 7 * (n - (k + 1)) + 4 * (k + 1) + 8
  | .mainSelect => 4 * v.launched + 6
  | .stopping => 4 * v.launched + 5
  | .stopAll => 4 * v.launched + 4
  | .stopNext n => 4 * n + 3
  | .issueStop i _ => 4 * i + 6
  | .waitStop i _ => 4 * i + 5
  | .waitDone i _ _ => 4 * i + 4
  | .join => 2
  | .ret => 1
  | .returned => 0

/-- Every step of the host goroutine uses some of it. -/
theorem HostStep.budget_lt {a : HostAct} {v v' : LoopVars} (hstep : HostStep h a v v')
    (hp : Placed h v) : v'.budget h < v.budget h := by
  cases hstep with
  | task hstep =>
      cases hstep with
      | call v hk | allDone v hk =>
          simp only [LoopVars.budget]
          omega
      | _ =>
          simp only [LoopVars.budget]
          omega
  | run hstep =>
      cases hstep with
      | tasks v | noTasks v =>
          simp only [LoopVars.budget]
          omega
      | launch v hk =>
          simp only [LoopVars.budget]
          omega
      | abortLaunch v | started v hk =>
          have hlaunched : v.launched = _ := hp.1
          simp only [LoopVars.budget]
          omega
      | readyCtx v | readyShutdown v | readyExit v | startTimeout v =>
          have hlaunched : v.launched = _ := hp.1
          simp only [LoopVars.budget]
          omega
      | _ =>
          simp only [LoopVars.budget]
          omega
  | stop hstep =>
      cases hstep <;>
        simp only [LoopVars.budget] <;>
        omega

/-- How many calls one step makes, at most. -/
def Host.callBound (h : Host) : Nat :=
  h.onStarted.length + h.onStopping.length + h.onStopped.length + h.observers.length

private theorem madeCalls_le (s : State h) (a : HostAct) :
    (madeCalls s a).length ≤ h.callBound := by
  have hobserve (c : Callback) : (h.observe c).length ≤ h.observers.length := by
    rw [Host.observe, List.length_map]
    exact (List.length_filter_le _ _).trans (List.length_zipIdx ..).le
  have hhooks (kind : HookKind) : (h.runHooks kind).length = (h.hooks kind).length :=
    List.length_map _
  unfold Host.callBound
  cases a with
  | task a => exact Nat.zero_le _
  | run a =>
      cases a with
      | launch k =>
          have hc := hobserve (.serviceStarted k)
          simp only [madeCalls]
          omega
      | ready k =>
          have hc := hobserve (.serviceReady k)
          simp only [madeCalls]
          omega
      | takeExit exit =>
          have hc := hobserve (.serviceFailed exit.index exit.err)
          simp only [madeCalls]
          omega
      | started k =>
          have hc := hobserve .hostStarted
          have hh := hhooks .onStarted
          simp only [madeCalls, List.length_append, Host.hooks] at hh ⊢
          omega
      | beginStopping =>
          have hh := hhooks .onStopping
          simp only [madeCalls, Host.hooks] at hh ⊢
          omega
      | join =>
          have hc := hobserve (.hostStopped s.errs)
          simp only [madeCalls]
          omega
      | _ => exact Nat.zero_le _
  | stop a =>
      cases a with
      | takeDone i began svcErr r =>
          have hc := hobserve (.serviceStopped i began
            ((shutdownFailure s.causeIndex i r).elim svcErr fun err => some (svcErr.getD err)))
          simp only [madeCalls]
          omega
      | abandon i began =>
          have hc := hobserve (.serviceStopped i began (some (didNotStopError h i)))
          simp only [madeCalls]
          omega
      | leave =>
          have hh := hhooks .onStopped
          simp only [madeCalls, Host.hooks] at hh ⊢
          omega
      | _ => exact Nat.zero_le _

/-- How many steps the host goroutine has left, at most. -/
def State.rank (s : State h) : Nat :=
  s.loop.budget h * (2 * h.callBound + 1) + s.caller.left

/-- How many steps `RunContext` takes, at most. -/
def Host.stepBound (h : Host) : Nat :=
  (2 * h.tasks.length + 7 * h.services.length + 9) * (2 * h.callBound + 1)

/-- What a step of another goroutine or of the surroundings leaves alone. -/
private theorem other_step {a : Action} (ha : a.own = false)
    (hg : (system h).guard s a = true) :
    ((system h).effect s a).loop = s.loop ∧ ((system h).effect s a).caller = s.caller ∧
      ((system h).effect s a).stopDue = s.stopDue ∧ s.now ≤ ((system h).effect s a).now := by
  have hnow : s.now ≤ s.now := Int.le_refl _
  cases a with
  | host b => cases ha
  | env a =>
      cases a with
      | tick d =>
          simp only [system, envGuard, decide_eq_true_eq] at hg
          exact ⟨rfl, rfl, rfl, Int.le_add_of_nonneg_right hg⟩
      | _ => exact ⟨rfl, rfl, rfl, hnow⟩
  | watch e => exact ⟨rfl, rfl, rfl, hnow⟩
  | call who b =>
      cases who with
      | host => cases ha
      | sup i => cases b <;> exact ⟨rfl, rfl, rfl, hnow⟩
  | sup i b => cases b <;> exact ⟨rfl, rfl, rfl, hnow⟩
  | stopper i b => cases b <;> exact ⟨rfl, rfl, rfl, hnow⟩

/-- A call begins or ends. -/
private theorem call_step {a : CallAct} (hg : (system h).guard s (.call .host a) = true) :
    ((system h).effect s (.call .host a)).caller.left + 1 = s.caller.left := by
  cases a with
  | begins c =>
      simp only [system, callGuard, decide_eq_true_eq] at hg
      exact left_begin hg.1 hg.2
  | ends c panicked =>
      simp only [system, callGuard, decide_eq_true_eq] at hg
      exact left_finish hg

/-- Every step of the host goroutine lowers the rank, and no other step changes it. -/
theorem rank_step (hr : RunIf h ok τ s) {a : Action}
    (hg : (system h).guard s a = true) :
    ((system h).effect s a).rank + (if a.own then 1 else 0) ≤ s.rank := by
  cases hown : a.own with
  | false =>
      obtain ⟨hloop, hcaller, -, -⟩ := other_step hown hg
      rw [State.rank, hloop, hcaller]
      exact Nat.le_refl _
  | true =>
      rw [if_pos rfl]
      cases a with
      | host b =>
          have hcan := hostCan_of_guard hg
          have hstep : HostStep h b s.loop (hostEffect s b).loop := hostStep_of_can hcan
          have hless := hstep.budget_lt (placed_of_run hr)
          have hcalls := madeCalls_le s b
          have hcaller : (hostEffect s b).caller = ⟨madeCalls s b, none⟩ := by
            rw [caller_hostEffect, caller_of_hostGuard hg]
            rfl
          have hleft : (hostEffect s b).caller.left = 2 * (madeCalls s b).length := by
            rw [hcaller]
            rfl
          have hmul := Nat.mul_le_mul_right (2 * h.callBound + 1) (Nat.succ_le_of_lt hless)
          rw [Nat.succ_mul] at hmul
          show (hostEffect s b).loop.budget h * (2 * h.callBound + 1) +
            (hostEffect s b).caller.left + 1 ≤ s.rank
          rw [hleft, State.rank]
          omega
      | call who b =>
          cases who with
          | sup i => cases hown
          | host =>
              have hloop := (loop_other s (.call .host b) fun c hc => nomatch hc).1
              have hleft := call_step hg
              rw [State.rank, State.rank, hloop]
              omega
      | _ => cases hown

/-! ## What the host goroutine waits for -/

/-- The call in progress can end and the next one can begin. -/
theorem call_or_idle (s : State h) :
    (∃ a, a.own = true ∧ (system h).guard s a = true) ∨ s.caller = .none := by
  cases hcurrent : s.caller.current with
  | some c =>
      refine Or.inl ⟨.call .host (.ends c false), rfl, ?_⟩
      simp [system, callGuard, State.callerOf, hcurrent]
  | none =>
      cases hqueue : s.caller.queue with
      | cons c rest =>
          refine Or.inl ⟨.call .host (.begins c), rfl, ?_⟩
          simp [system, callGuard, State.callerOf, hcurrent, hqueue]
      | nil =>
          refine Or.inr ((Caller.idle_iff _).mp ?_)
          simp [Caller.idle, hcurrent, hqueue]

/-- The select the host goroutine stands at has a case that is ready. -/
def State.attended (s : State h) : Prop :=
  (s.pc.selects = true → s.triggered = true) ∧ (s.pc.awaits.isSome = true → s.stopDue ≤ s.now)

/-- At its selects the host goroutine goes on when a case is ready. -/
private theorem select_can (hs : s.attended) :
    (s.pc.selects = true → ∃ a, hostCan s a = true) ∧
      (s.pc.awaits.isSome = true → ∃ a, hostCan s a = true) := by
  constructor
  · intro hsel
    rcases Bool.or_eq_true_iff.mp (hs.1 hsel) with hctx | hshutdown
    · exact ⟨.run .takeCtx, by simp [hostCan, runGuard, hsel, hctx]⟩
    · exact ⟨.run .takeShutdown, by simp [hostCan, runGuard, hsel, hshutdown]⟩
  · intro hsome
    obtain ⟨⟨i, began⟩, hwait⟩ := Option.isSome_iff_exists.mp hsome
    refine ⟨.stop (.abandon i began), ?_⟩
    simp [hostCan, stopGuard, hwait, hs.2 hsome]

/-- Elsewhere it always goes on. -/
private theorem host_can (hs : s.attended) (hpc : s.pc ≠ .returned) :
    ∃ a, hostCan s a = true := by
  obtain ⟨hselect, hawait⟩ := select_can hs
  cases hat : s.pc with
  | entry => exact ⟨.run .enter, by simp [hostCan, runGuard, hat]⟩
  | taskHead k =>
      by_cases hk : k < h.tasks.length
      · cases hctx : s.taskCtx with
        | none => exact ⟨.task (.call k), by simp [hostCan, taskGuard, hat, hk, hctx]⟩
        | some e => exact ⟨.task (.canceled k), by simp [hostCan, taskGuard, hat, hk, hctx]⟩
      · exact ⟨.task (.allDone k), by simpa [hostCan, taskGuard, hat] using hk⟩
  | inTask k =>
      refine ⟨.task (.result k (.returned none) s.taskCtx.isSome), ?_⟩
      simp [hostCan, taskGuard, hat]
  | launchHead k =>
      cases haborted : s.startupAborted with
      | true => exact ⟨.run (.abortLaunch k), by simp [hostCan, runGuard, hat, haborted]⟩
      | false =>
          by_cases hk : k < h.services.length
          · exact ⟨.run (.launch k), by simp [hostCan, runGuard, hat, hk, haborted]⟩
          · exact ⟨.run (.started k), by simpa [hostCan, runGuard, hat, haborted] using hk⟩
  | readierCheck k => exact ⟨.run (.lookReadier k), by simp [hostCan, runGuard, hat]⟩
  | waitReady k => exact hselect (by rw [hat]; rfl)
  | mainSelect => exact hselect (by rw [hat]; rfl)
  | stopping => exact ⟨.run .beginStopping, by simp [hostCan, runGuard, hat]⟩
  | stopAll => exact ⟨.stop .enter, by simp [hostCan, stopGuard, hat]⟩
  | stopNext n =>
      cases n with
      | zero => exact ⟨.stop .leave, by simp [hostCan, stopGuard, hat]⟩
      | succ i => exact ⟨.stop (.cancel i), by simp [hostCan, stopGuard, hat]⟩
  | issueStop i began => exact ⟨.stop (.issue i began), by simp [hostCan, stopGuard, hat]⟩
  | waitStop i began => exact hawait (by rw [hat]; rfl)
  | waitDone i began svcErr => exact hawait (by rw [hat]; rfl)
  | join => exact ⟨.run .join, by simp [hostCan, runGuard, hat]⟩
  | ret => exact ⟨.run .ret, by simp [hostCan, runGuard, hat]⟩
  | returned => exact absurd hat hpc

private theorem own_step (hs : s.attended) (hpc : s.pc ≠ .returned) :
    ∃ a, a.own = true ∧ (system h).guard s a = true := by
  obtain hcall | hidle := call_or_idle s
  · exact hcall
  · obtain ⟨a, hcan⟩ := host_can hs hpc
    refine ⟨.host a, rfl, ?_⟩
    show (s.caller.idle && hostCan s a) = true
    rw [(Caller.idle_iff _).mpr hidle, hcan]
    rfl

/-! ## The shutdown -/

/-- The clock and the deadline of `stopAll` are not past a moment. -/
structure Within (moment : Int) (s : State h) : Prop where
  now_le : s.now ≤ moment
  before : s.pc.beforeLoop = true → s.now + h.shutdownTimeout ≤ moment
  due_le : s.pc.inLoop = true → s.stopDue ≤ moment

/-- The host goroutine takes no time. -/
private theorem now_own {a : Action} (ha : a.own = true) :
    ((system h).effect s a).now = s.now := by
  cases a with
  | host b => exact (surroundings_hostEffect s b).2.2
  | call who b =>
      cases who with
      | host => cases b <;> rfl
      | sup i => cases ha
  | _ => cases ha

/-- The deadline is set once, when `stopAll` is entered. -/
private theorem stopDue_own {a : Action} (ha : a.own = true) :
    a = .host (.stop .enter) ∨ ((system h).effect s a).stopDue = s.stopDue := by
  cases a with
  | host b =>
      cases b with
      | task b =>
          obtain ⟨pc, errs, aborted, htask⟩ := taskEffect_frame s b
          refine Or.inr ?_
          show (taskEffect s b).stopDue = s.stopDue
          rw [htask]
      | run b => cases b <;> exact Or.inr rfl
      | stop b =>
          by_cases hb : b = .enter
          · exact Or.inl (by rw [hb])
          · exact Or.inr (stopDue_stopEffect s hb)
  | call who b =>
      cases who with
      | host => cases b <;> exact Or.inr rfl
      | sup i => cases ha
  | _ => cases ha

/-- The host goroutine does not go back to a place before the loop of `stopAll`. -/
private theorem HostStep.beforeLoop {a : HostAct} {v v' : LoopVars} (hstep : HostStep h a v v')
    (hpc : v'.pc.beforeLoop = true) : v.pc.beforeLoop = true := by
  cases hstep with
  | task hstep => cases hstep <;> rfl
  | run hstep =>
      cases hstep with
      | join v | ret v => cases hpc
      | _ => rfl
  | stop hstep =>
      cases hstep with
      | enter v => rfl
      | _ => cases hpc

/-- Its own steps keep the host goroutine within a moment. -/
private theorem within_own {a : Action} {moment : Int} (ha : a.own = true)
    (hg : (system h).guard s a = true) (hs : Within moment s) :
    Within moment ((system h).effect s a) := by
  have hnow := now_own (s := s) ha
  cases a with
  | host b =>
      have hcan := hostCan_of_guard hg
      have hstep : HostStep h b s.loop (hostEffect s b).loop := hostStep_of_can hcan
      refine ⟨hnow ▸ hs.now_le, fun hpc => ?_, fun hpc => ?_⟩
      · rw [hnow]
        exact hs.before (hstep.beforeLoop hpc)
      · cases hin : s.pc.inLoop with
        | false =>
            obtain rfl := enter_of_inLoop hstep hin hpc
            have hat : s.pc = .stopAll := of_decide_eq_true hcan
            exact hs.before (by rw [hat]; rfl)
        | true =>
            obtain hb | hdue := stopDue_own (s := s) ha
            · obtain rfl : b = .stop .enter := by simpa using hb
              have hat : s.pc = .stopAll := of_decide_eq_true hcan
              rw [hat] at hin
              cases hin
            · rw [hdue]
              exact hs.due_le hin
  | call who b =>
      have hloop := (loop_other s (.call who b) fun c hc => nomatch hc).1
      have hpc : ((system h).effect s (.call who b)).pc = s.pc := congrArg LoopVars.pc hloop
      obtain hb | hdue := stopDue_own (s := s) ha
      · cases hb
      · refine ⟨hnow ▸ hs.now_le, fun hbefore => ?_, fun hin => ?_⟩
        · rw [hnow]
          exact hs.before (hpc ▸ hbefore)
        · rw [hdue]
          exact hs.due_le (hpc ▸ hin)
  | _ => cases ha

/-- The deadline is at most the shutdown timeout away. -/
private theorem due_le_of_run (hr : RunIf h ok τ s) :
    s.pc.inLoop = true → s.stopDue ≤ s.now + h.shutdownTimeout := by
  refine hr.invariant (fun (_ : List Action) (s : State h) =>
    s.pc.inLoop = true → s.stopDue ≤ s.now + h.shutdownTimeout) nofun ?_
  intro τ s a _ ih _ hg
  have htimeout : (0 : Int) < h.shutdownTimeout := h.shutdownTimeout_pos
  cases hown : a.own with
  | false =>
      obtain ⟨hloop, -, hdue, hnow⟩ := other_step hown hg
      intro hin
      have hpc : ((system h).effect s a).pc = s.pc := congrArg LoopVars.pc hloop
      have hle := ih (hpc ▸ hin)
      omega
  | true =>
      have hwithin : Within (s.now + h.shutdownTimeout) s := ⟨by omega, fun _ => le_rfl, ih⟩
      rw [now_own hown]
      exact (within_own hown hg hwithin).due_le

/-- Time passes to the deadline, in one step. -/
private theorem tick_step {moment : Int} (hs : Within moment s) (hin : s.pc.inLoop = true)
    (hearly : s.now < s.stopDue) :
    (system h).guard s (.env (.tick (s.stopDue - s.now))) = true ∧
      Within moment ((system h).effect s (.env (.tick (s.stopDue - s.now)))) ∧
      ((system h).effect s (.env (.tick (s.stopDue - s.now)))).now = s.stopDue := by
  have hdue := hs.due_le hin
  have hbefore := (HostPC.inLoop_iff.mp hin).1
  have hnow : ((system h).effect s (.env (.tick (s.stopDue - s.now)))).now = s.stopDue := by
    show s.now + (s.stopDue - s.now) = s.stopDue
    omega
  refine ⟨?_, ⟨hnow.trans_le hdue, fun hpc => ?_, fun _ => hdue⟩, hnow⟩
  · show decide (0 ≤ s.stopDue - s.now) = true
    exact decide_eq_true (by omega)
  · have hpc' : s.pc.beforeLoop = true := hpc
    rw [hbefore] at hpc'
    cases hpc'

/-- The clock ticks. -/
def Action.isTick : Action → Bool
  | .env (.tick _) => true
  | _ => false

/-- Once told to shut down the host goroutine needs nothing but the deadline. -/
private theorem completes (hr : Run h τ s) (htrig : s.triggered = true)
    (hpc : s.pc ≠ .returned) :
    ∃ post s', (system h).Runs s post s' ∧
      (∀ a ∈ post, (a.own || a.isTick) = true) ∧
        s'.pc = .returned ∧ s'.now ≤ s.now + h.shutdownTimeout := by
  have htimeout : (0 : Int) < h.shutdownTimeout := h.shutdownTimeout_pos
  refine Lts.reaches_of_rank
    (P := fun t => (∃ τ, Run h τ t) ∧ t.triggered = true ∧ t.pc ≠ .returned ∧
      Within (s.now + h.shutdownTimeout) t)
    (fun t => 2 * t.rank + if t.now < t.stopDue then 1 else 0) ?_ s
    ⟨⟨τ, hr⟩, htrig, hpc, by omega, fun _ => le_rfl, due_le_of_run hr⟩
  rintro t ⟨⟨σ, hrt⟩, htrig, hpc, hwithin⟩
  have hflag (u : State h) : (if u.now < u.stopDue then 1 else 0) ≤ 1 := by split <;> omega
  by_cases hwait : t.pc.awaits.isSome = true ∧ t.now < t.stopDue
  · have hin : t.pc.inLoop = true := by
      obtain ⟨hsome, -⟩ := hwait
      cases hat : t.pc <;> simp [hat, HostPC.awaits] at hsome <;> rfl
    obtain ⟨hg, hwithin', hnow⟩ := tick_step hwithin hin hwait.2
    refine ⟨_, rfl, trivial, hg, Or.inr ⟨⟨⟨_, hrt.snoc trivial hg⟩, ?_, hpc, hwithin'⟩, ?_⟩⟩
    · exact triggered_step t _ (Or.inl htrig)
    · have hrank := rank_step hrt hg
      have hdue : ((system h).effect t (.env (.tick (t.stopDue - t.now)))).stopDue = t.stopDue :=
        rfl
      rw [if_pos hwait.2, if_neg (by rw [hnow, hdue]; omega)]
      omega
  · have hattended : t.attended :=
      ⟨fun _ => htrig, fun hsome => not_lt.mp fun hlt => hwait ⟨hsome, hlt⟩⟩
    obtain ⟨a, hown, hg⟩ := own_step hattended hpc
    have hwithin' := within_own hown hg hwithin
    refine ⟨a, by rw [hown]; rfl, trivial, hg, ?_⟩
    by_cases hend : ((system h).effect t a).pc = .returned
    · exact Or.inl ⟨hend, hwithin'.now_le⟩
    · refine Or.inr ⟨⟨⟨_, hrt.snoc trivial hg⟩, triggered_step t a (Or.inl htrig), hend, hwithin'⟩,
        ?_⟩
      have hrank := rank_step hrt hg
      rw [if_pos hown] at hrank
      have hlast := hflag ((system h).effect t a)
      omega

/-! ## The result -/

/-- How `RunContext` goes on and comes to an end. -/
structure Terminates (h : Host) (τ : List Action) (s : State h) : Prop where
  /-- the steps that `RunContext` takes, its calls included, are bounded -/
  bounded : τ.countP Action.own ≤ h.stepBound
  /-- a host goroutine that cannot go on has returned, or waits for a trigger in one of
  its selects, or for the deadline in one of those of `stopAll` -/
  waits : (∀ a, a.own = true → (system h).guard s a = false) →
    s.pc = .returned ∨ s.pc.selects = true ∧ s.triggered = false ∨
      s.pc.awaits.isSome = true ∧ s.now < s.stopDue
  /-- after a trigger `RunContext` can return within the shutdown timeout, without a step
  of any other goroutine -/
  returns : s.triggered = true → s.pc ≠ .returned → ∃ post s', (system h).Runs s post s' ∧
    (∀ a ∈ post, (a.own || a.isTick) = true) ∧
      s'.pc = .returned ∧ s'.now ≤ s.now + h.shutdownTimeout

theorem terminates_of_run (hr : Run h τ s) : Terminates h τ s where
  bounded := by
    have hcount := hr.count_add_rank_le Action.own State.rank
      fun τ s a hr _ hg => rank_step hr hg
    have hinit : (State.init h).rank = h.stepBound := rfl
    omega
  waits := by
    intro hstuck
    by_contra hnot
    rw [not_or, not_or] at hnot
    obtain ⟨hpc, hsel, hwait⟩ := hnot
    have hattended : s.attended := by
      refine ⟨fun hpc => ?_, fun hpc => ?_⟩
      · by_contra htrig
        exact hsel ⟨hpc, Bool.eq_false_iff.mpr htrig⟩
      · by_contra hdue
        exact hwait ⟨hpc, not_le.mp hdue⟩
    obtain ⟨a, hown, hg⟩ := own_step hattended hpc
    rw [hstuck a hown] at hg
    cases hg
  returns := completes hr

theorem terminates_smallRun : Terminates smallHost smallRun
    ((system smallHost).after (State.init smallHost) smallRun) :=
  terminates_of_run (Lts.Admits.run (by decide))

end Shost.Ports.Hosting
