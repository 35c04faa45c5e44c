import Shost.Ports.HostCallbacks
import Shost.Ports.HostErrors
import Shost.Ports.HostLifecycle

/-!
# Stuck services

`stopAll` waits for the result of `Stop` and then for that of `Start`, and both
waits end at the one shutdown deadline.  From the deadline on no service can
hold up the host goroutine: it can always take a step, and every step brings it
nearer to the end of the loop.  What the deadline does not give is the call of
`Stop` itself, which is left to a goroutine that may not have come to run.

## Main results

* `stop_not_invoked` — a run in which the host returns before `Stop` is called.
* `unstuck_of_run` — behind the deadline the loop ends after boundedly many steps,
  with one `ServiceStopped` for each launched service.
-/

namespace Shost.Ports.Hosting

open Shost.Verified

variable {h : Host} {ok : State h → Action → Prop} {τ : List Action} {s : State h}

/-! ## The loop of `stopAll` -/

/-- The place is in the loop of `stopAll`. -/
def HostPC.inLoop : HostPC → Bool
  | .stopNext _ | .issueStop _ _ | .waitStop _ _ | .waitDone _ _ _ => true
  | _ => false

theorem HostPC.inLoop_iff {pc : HostPC} :
    pc.inLoop = true ↔ pc.beforeLoop = false ∧ pc.afterLoop = false := by
  cases pc <;> simp [HostPC.inLoop, HostPC.beforeLoop, HostPC.afterLoop]

/-- The shutdown deadline has expired in the loop of `stopAll`. -/
def State.overdue (s : State h) : Prop := s.pc.inLoop = true ∧ s.stopDue ≤ s.now

/-- The steps of the host goroutine, its calls included. -/
def Action.own : Action → Bool
  | .host _ | .call .host _ => true
  | _ => false

/-- How many steps of `stopAll` are left, at most. -/
def HostPC.stopSteps : HostPC → Nat
  | .stopNext n => 4 * n + 1
  | .issueStop i _ => 4 * i + 4
  | .waitStop i _ => 4 * i + 3
  | .waitDone i _ _ => 4 * i + 2
  | _ => 0

/-- How many steps the calls of a goroutine take. -/
def Caller.left (c : Caller) : Nat := 2 * c.queue.length + c.current.elim 0 fun _ => 1

/-- How many steps the loop takes together with the calls it makes, at most. -/
def State.loopRank (s : State h) : Nat :=
  s.pc.stopSteps * (2 * h.observers.length + 1) + s.caller.left

/-- A bound on the steps of the loop for a number of launched services. -/
def loopBound (h : Host) (launched : Nat) : Nat :=
  (4 * launched + 1) * (2 * h.observers.length + 1)

/-- In the loop only `stopAll` goes on. -/
private theorem stop_of_inLoop {a : HostAct} {v v' : LoopVars} (hstep : HostStep h a v v')
    (hpc : v.pc.inLoop = true) : ∃ b, a = .stop b ∧ StopStep b v v' := by
  cases hstep with
  | task hstep => cases hstep <;> cases hpc
  | run hstep => cases hstep <;> cases hpc
  | stop hstep => exact ⟨_, rfl, hstep⟩

/-- A step of the loop is the last one, or it leaves fewer steps. -/
private theorem StopStep.nearer {a : StopAct} {v v' : LoopVars} (hstep : StopStep a v v')
    (hpc : v.pc.inLoop = true) :
    (a = .leave ∧ v'.pc.afterLoop = true) ∨
      a ≠ .leave ∧ v'.pc.inLoop = true ∧ v'.pc.stopSteps + 1 ≤ v.pc.stopSteps := by
  cases hstep with
  | enter v => cases hpc
  | leave v => exact Or.inl ⟨rfl, rfl⟩
  | cancel v | issue v | takeStop v | takeDone v => exact Or.inr ⟨nofun, rfl, Nat.le_refl _⟩
  | abandonStop v | abandonDone v =>
      refine Or.inr ⟨nofun, rfl, ?_⟩
      simp only [HostPC.stopSteps]
      omega

/-- The deadline is set on entry. -/
theorem stopDue_stopEffect (s : State h) {a : StopAct} (ha : a ≠ .enter) :
    (stopEffect s a).stopDue = s.stopDue := by
  cases a with
  | enter => exact absurd rfl ha
  | takeStop i began r => cases r <;> rfl
  | takeDone i began svcErr r =>
      simp only [stopEffect]
      split <;> rfl
  | _ => rfl

/-- Until it leaves the loop `stopAll` calls at most every observer. -/
private theorem length_madeCalls (s : State h) {a : StopAct} (ha : a ≠ .leave) :
    (madeCalls s (.stop a)).length ≤ h.observers.length := by
  have hobserve : ∀ c, (h.observe c).length ≤ h.observers.length := by
    intro c
    rw [Host.observe, List.length_map]
    exact (List.length_filter_le _ _).trans (List.length_zipIdx ..).le
  cases a with
  | takeDone | abandon => exact hobserve _
  | leave => exact absurd rfl ha
  | _ => exact Nat.zero_le _

/-- A step of the loop keeps the deadline.  It is the last one, or it leaves fewer
steps and calls at most every observer. -/
private theorem loop_step (s : State h) (a : StopAct) (hpc : s.pc.inLoop = true)
    (hg : stopGuard s a = true) :
    (stopEffect s a).stopDue = s.stopDue ∧
      ((stopEffect s a).pc.afterLoop = true ∨
        (stopEffect s a).pc.inLoop = true ∧
          (stopEffect s a).pc.stopSteps + 1 ≤ s.pc.stopSteps ∧
          (madeCalls s (.stop a)).length ≤ h.observers.length) := by
  have hstep := stopStep_of_guard hg
  have henter : a ≠ .enter := by
    rintro rfl
    have hat : s.pc = .stopAll := of_decide_eq_true hg
    rw [hat] at hpc
    cases hpc
  refine ⟨stopDue_stopEffect s henter, ?_⟩
  rcases hstep.nearer hpc with ⟨-, hafter⟩ | ⟨hleave, hin, hsteps⟩
  · exact Or.inl hafter
  · exact Or.inr ⟨hin, hsteps, length_madeCalls s hleave⟩

@[simp] theorem left_begin {c : Caller} {x : Callout} (hcurrent : c.current = none)
    (hhead : c.queue.head? = some x) : c.begin'.left + 1 = c.left := by
  obtain ⟨rest, hqueue⟩ := List.head?_eq_some_iff.mp hhead
  simp only [Caller.begin', Caller.left, hcurrent, hqueue, List.tail_cons, List.head?_cons,
    Option.elim, List.length_cons]
  omega

@[simp] theorem left_finish {c : Caller} {x : Callout} (hcurrent : c.current = some x) :
    c.finish.left + 1 = c.left := by
  simp [Caller.finish, Caller.left, hcurrent]

/-- What the loop does not change while it goes on. -/
def SameDeadline (s s' : State h) : Prop :=
  s'.stopDue = s.stopDue ∧ s'.launched = s.launched ∧ s.now ≤ s'.now

/-- A step of the host goroutine leaves the loop or brings it nearer to its end. -/
private theorem inLoop_own {a : Action} (hpc : s.pc.inLoop = true) (ha : a.own = true)
    (hg : (system h).guard s a = true) :
    ((system h).effect s a).pc.afterLoop = true ∨
      ((system h).effect s a).pc.inLoop = true ∧ SameDeadline s ((system h).effect s a) ∧
        ((system h).effect s a).loopRank + 1 ≤ s.loopRank := by
  cases a with
  | host b =>
      obtain ⟨c, rfl, -⟩ := stop_of_inLoop (hostStep_of_can (hostCan_of_guard hg)) hpc
      have hcaller := caller_hostEffect s (.stop c)
      have hnow := (surroundings_hostEffect s (.stop c)).2.2
      obtain ⟨hdue, hafter | ⟨hin, hsteps, hcalls⟩⟩ := loop_step s c hpc (hostCan_of_guard hg)
      · exact Or.inl hafter
      · refine Or.inr ⟨hin, ⟨hdue, launched_stop s c, hnow.ge⟩, ?_⟩
        have hmul := Nat.mul_le_mul_right (2 * h.observers.length + 1) hsteps
        rw [Nat.add_mul, Nat.one_mul] at hmul
        simp only [State.loopRank, Caller.left, system, hcaller, caller_of_hostGuard hg,
          Caller.none, List.nil_append, List.length_nil, Option.elim]
        simp only [hostEffect]
        omega
  | call who b =>
      cases who with
      | sup i => cases ha
      | host =>
          right
          have hsame : SameDeadline s ((system h).effect s (.call .host b)) := by
            cases b <;> exact ⟨rfl, rfl, Int.le_refl _⟩
          cases b with
          | begins c =>
              simp only [system, callGuard, decide_eq_true_eq] at hg
              refine ⟨hpc, hsame, ?_⟩
              have hleft := left_begin hg.1 hg.2
              simp only [State.callerOf] at hleft
              simp only [system, callEffect, State.setCaller, State.callerOf, State.loopRank]
              omega
          | ends c panicked =>
              simp only [system, callGuard, decide_eq_true_eq] at hg
              refine ⟨hpc, hsame, ?_⟩
              have hleft := left_finish hg
              simp only [State.callerOf] at hleft
              simp only [system, callEffect, State.setCaller, State.callerOf, State.loopRank]
              omega
  | _ => cases ha

/-- Other steps leave the place and the calls of the host goroutine alone, and the
clock does not go back. -/
theorem inLoop_other {a : Action} (ha : a.own = false)
    (hg : (system h).guard s a = true) :
    ((system h).effect s a).pc = s.pc ∧ SameDeadline s ((system h).effect s a) ∧
      ((system h).effect s a).loopRank = s.loopRank := by
  have hnow : s.now ≤ s.now := Int.le_refl _
  cases a with
  | host b => cases ha
  | env a =>
      cases a with
      | tick d =>
          simp only [system, envGuard, decide_eq_true_eq] at hg
          exact ⟨rfl, ⟨rfl, rfl, Int.le_add_of_nonneg_right hg⟩, rfl⟩
      | _ => exact ⟨rfl, ⟨rfl, rfl, hnow⟩, rfl⟩
  | watch e => exact ⟨rfl, ⟨rfl, rfl, hnow⟩, rfl⟩
  | call who b =>
      cases who with
      | host => cases ha
      | sup i => cases b <;> exact ⟨rfl, ⟨rfl, rfl, hnow⟩, rfl⟩
  | sup i b => cases b <;> exact ⟨rfl, ⟨rfl, rfl, hnow⟩, rfl⟩
  | stopper i b => cases b <;> exact ⟨rfl, ⟨rfl, rfl, hnow⟩, rfl⟩

/-- The loop is entered by the step that sets the deadline. -/
theorem enter_of_inLoop {a : HostAct} {v v' : LoopVars} (hstep : HostStep h a v v')
    (hpc : v.pc.inLoop = false) (hpc' : v'.pc.inLoop = true) : a = .stop .enter := by
  cases hstep with
  | task hstep => cases hstep <;> cases hpc'
  | run hstep => cases hstep <;> cases hpc'
  | stop hstep =>
      cases hstep with
      | enter v => rfl
      | _ => cases hpc

/-- The steps left in the loop are bounded by what the host was built with. -/
private theorem loopRank_le (hr : RunIf h ok τ s) :
    s.pc.inLoop = true → s.loopRank ≤ loopBound h s.launched := by
  refine hr.invariant
    (fun (_ : List Action) (s : State h) =>
      s.pc.inLoop = true → s.loopRank ≤ loopBound h s.launched) ?_ ?_
  · intro hinit
    cases hinit
  · intro τ s a hr ih _ hg hpc'
    cases hown : a.own with
    | false =>
        obtain ⟨hpc, ⟨-, hlaunched, -⟩, hrank⟩ := inLoop_other hown hg
        rw [hrank, hlaunched]
        exact ih (hpc ▸ hpc')
    | true =>
        cases hpc : s.pc.inLoop with
        | true =>
            rcases inLoop_own hpc hown hg with hafter | ⟨-, ⟨-, hlaunched, -⟩, hrank⟩
            · rw [HostPC.inLoop_iff] at hpc'
              simp [hafter] at hpc'
            · rw [hlaunched]
              exact (Nat.le_of_succ_le hrank).trans (ih hpc)
        | false =>
            cases a with
            | host b =>
                obtain rfl := enter_of_inLoop (hostStep_of_can (hostCan_of_guard hg)) hpc hpc'
                have hcaller : s.caller = .none := caller_of_hostGuard hg
                simp [State.loopRank, loopBound, system, hostEffect, stopEffect,
                  HostPC.stopSteps, Caller.left, hcaller, Caller.none]
            | call who b =>
                have hsame := (loop_other s (.call who b) (by simp)).1
                rw [show ((system h).effect s (.call who b)).pc = s.pc from
                  congrArg LoopVars.pc hsame, hpc] at hpc'
                cases hpc'
            | _ => cases hown

/-- An overdue loop is not held up: a call in progress can end, the next call can
begin, and without calls both waits can be given up. -/
private theorem overdue_step (hs : s.overdue) :
    ∃ a, a.own = true ∧ (system h).guard s a = true := by
  cases hcurrent : s.caller.current with
  | some c =>
      exact ⟨.call .host (.ends c false), rfl,
        by simp [system, callGuard, State.callerOf, hcurrent]⟩
  | none =>
      cases hqueue : s.caller.queue with
      | cons c rest =>
          exact ⟨.call .host (.begins c), rfl,
            by simp [system, callGuard, State.callerOf, hcurrent, hqueue]⟩
      | nil =>
          suffices hcan : ∃ b, stopGuard s b = true by
            obtain ⟨b, hb⟩ := hcan
            exact ⟨.host (.stop b), rfl,
              by simp [system, hostGuard, hostCan, Caller.idle, hcurrent, hqueue, hb]⟩
          obtain ⟨hpc, hdue⟩ := hs
          cases hat : s.pc with
          | stopNext n =>
              cases n with
              | zero => exact ⟨.leave, by simp [stopGuard, hat]⟩
              | succ i => exact ⟨.cancel i, by simp [stopGuard, hat]⟩
          | issueStop i began => exact ⟨.issue i began, by simp [stopGuard, hat]⟩
          | waitStop i began =>
              exact ⟨.abandon i began, by simp [stopGuard, hat, HostPC.awaits, hdue]⟩
          | waitDone i began svcErr =>
              exact ⟨.abandon i began, by simp [stopGuard, hat, HostPC.awaits, hdue]⟩
          | _ => simp [hat, HostPC.inLoop] at hpc

/-- Behind the loop the host goroutine does not come back to it. -/
theorem afterLoop_step (hr : RunIf h ok τ s) {a : Action}
    (hg : (system h).guard s a = true) (hpc : s.pc.afterLoop = true) :
    ((system h).effect s a).pc.afterLoop = true := by
  by_cases ha : ∃ b, a = .host b
  · obtain ⟨b, rfl⟩ := ha
    have hstep := hostStep_of_can (hostCan_of_guard hg)
    have hhooked := (hooked_step hstep .onStopped (placed_of_run hr)).1
    simp only [LoopVars.hooked, State.loop, hpc, Bool.true_or] at hhooked
    exact hhooked
  · have hsame := (loop_other s a fun b hb => ha ⟨b, hb⟩).1
    rwa [show ((system h).effect s a).pc = s.pc from congrArg LoopVars.pc hsame]

/-- A loop that is overdue has ended, or it is still overdue with fewer steps left. -/
private theorem overdue_run (hr : Run h τ s) (hs : s.overdue) {post : List Action}
    {s' : State h} (hpost : (system h).Runs s post s') :
    s'.pc.afterLoop = true ∨
      s'.overdue ∧ post.countP Action.own + s'.loopRank ≤ loopBound h s.launched := by
  refine hpost.invariant (fun (post : List Action) (s' : State h) =>
    s'.pc.afterLoop = true ∨
      s'.overdue ∧ post.countP Action.own + s'.loopRank ≤ loopBound h s.launched) ?_ ?_
  · exact Or.inr ⟨hs, by simpa using loopRank_le hr hs.1⟩
  · rintro post s' a hpost (hafter | ⟨hover, hbound⟩) _ hg
    · exact Or.inl (afterLoop_step (hr.trans hpost) hg hafter)
    · cases hown : a.own with
      | false =>
          obtain ⟨hpc, ⟨hdue, -, hnow⟩, hrank⟩ := inLoop_other hown hg
          refine Or.inr ⟨⟨hpc ▸ hover.1, (hdue.trans_le hover.2).trans hnow⟩, ?_⟩
          rw [List.countP_append, List.countP_singleton, hown, hrank]
          simpa using hbound
      | true =>
          rcases inLoop_own hover.1 hown hg with hafter | ⟨hpc, ⟨hdue, -, hnow⟩, hrank⟩
          · exact Or.inl hafter
          · refine Or.inr ⟨⟨hpc, (hdue.trans_le hover.2).trans hnow⟩, ?_⟩
            rw [List.countP_append, List.countP_singleton, hown, if_pos rfl]
            omega

/-- The steps of the host goroutine alone bring an overdue loop to its end. -/
private theorem overdue_ends (hs : s.overdue) :
    ∃ post s', (system h).Runs s post s' ∧ (∀ a ∈ post, a.own = true) ∧
      s'.pc.afterLoop = true := by
  refine Lts.reaches_of_rank (P := State.overdue) State.loopRank ?_ s hs
  intro s hs
  obtain ⟨a, hown, hg⟩ := overdue_step hs
  refine ⟨a, hown, trivial, hg, ?_⟩
  rcases inLoop_own hs.1 hown hg with hafter | ⟨hpc, ⟨hdue, -, hnow⟩, hrank⟩
  · exact Or.inl hafter
  · exact Or.inr ⟨⟨hpc, (hdue.trans_le hs.2).trans hnow⟩, hrank⟩

/-! ## What has been called when the loop has ended -/

/-- The service and the error of a `ServiceStopped`. -/
def Callback.stopped : Callback → Option (Nat × Result)
  | .serviceStopped i _ err => some (i, err)
  | _ => none

/-- The `ServiceStopped` callbacks made to an observer, by whatever goroutine: the
service and the error of each. -/
def stoppedLog (o : Nat) (τ : List Action) : List (Nat × Result) :=
  τ.filterMap fun
    | .call _ (.begins (.callback o' c)) => if o' = o then c.stopped else none
    | _ => none

/-- Only the host goroutine makes `ServiceStopped` callbacks. -/
private theorem stoppedLog_eq (hr : RunIf h ok τ s) (o : Nat) :
    stoppedLog o τ = (onObserver o (hostCalls τ)).filterMap Callback.stopped := by
  refine hr.invariant (fun (τ : List Action) (_ : State h) =>
    stoppedLog o τ = (onObserver o (hostCalls τ)).filterMap Callback.stopped) rfl ?_
  intro τ s a hr ih _ hg
  simp only [stoppedLog, onObserver, hostCalls, List.filterMap_append] at ih ⊢
  rw [ih]
  congr 1
  cases a with
  | call who b =>
      cases b with
      | ends c panicked => cases who <;> rfl
      | begins c =>
          cases who with
          | host =>
              cases c with
              | hook kind f => rfl
              | callback o' c => by_cases ho : o' = o <;> simp [ho, List.filterMap_cons]
          | sup i =>
              simp only [system, callGuard, decide_eq_true_eq] at hg
              obtain ⟨o', attempt, delay, err, rfl⟩ :=
                (restarting_of_run hr i).restarting c (Or.inl (List.mem_of_mem_head? hg.2))
              simp [Callback.stopped]
  | _ => rfl

/-- No step outside the loop of `stopAll` announces a stopped service. -/
private theorem stopped_run (s : State h) (a : RunAct) (o : Nat) :
    ((announced s (.run a)).filter fun c => h.observes o c).toList.filterMap
      Callback.stopped = [] := by
  refine List.filterMap_eq_nil_iff.mpr fun c hc => ?_
  have hmem : announced s (.run a) = some c := (Option.filter_eq_some_iff.mp (by simpa using hc)).1
  cases a <;> cases hmem <;> rfl

/-- The service that a step announces as stopped is the one that it settles. -/
private theorem stopped_announced (s : State h) (a : HostAct) {o : Nat}
    (ho : ∀ i began err, h.observes o (.serviceStopped i began err) = true) :
    (((announced s a).filter fun c => h.observes o c).toList.filterMap
      Callback.stopped).map Prod.fst = settles [a] := by
  cases a with
  | task a => rfl
  | run a =>
      rw [stopped_run]
      rfl
  | stop a =>
      cases a with
      | takeDone i began svcErr r | abandon i began =>
          simp [announced, Option.filter, settles, stopLog, ho, Callback.stopped]
      | _ => rfl

private theorem settles_append (η η' : List HostAct) :
    settles (η ++ η') = settles η ++ settles η' := List.filterMap_append

/-- Every settled service has been announced, in order. -/
private theorem trail_stopped (hr : RunIf h ok τ s) {o : Nat}
    (ho : ∀ i began err, h.observes o (.serviceStopped i began err) = true) :
    ((trail o τ s).filterMap Callback.stopped).map Prod.fst = settles (hostActs τ) := by
  refine hr.invariant (fun (τ : List Action) (s : State h) =>
    ((trail o τ s).filterMap Callback.stopped).map Prod.fst = settles (hostActs τ)) rfl ?_
  intro τ s a _ ih _ hg
  by_cases ha : ∃ b, a = .host b
  · obtain ⟨b, rfl⟩ := ha
    have htrail := trail_host (τ := τ) o hg
    have hstep : trail o (τ ++ [.host b]) ((system h).effect s (.host b)) = _ := htrail
    rw [hstep, List.filterMap_append, List.map_append, ih, stopped_announced s b ho,
      hostActs_append, settles_append]
    rfl
  · have hother : ∀ b, a ≠ .host b := fun b hb => ha ⟨b, hb⟩
    rw [trail_other o hg hother, ih, hostActs_append, (loop_other s a hother).2,
      List.append_nil]

/-- The step out of the loop, and those behind it, ask for no `ServiceStopped`. -/
private theorem madeCalls_afterLoop (s : State h) (a : HostAct) (o : Nat)
    (hpc : (hostEffect s a).pc.afterLoop = true) :
    (onObserver o (madeCalls s a)).filterMap Callback.stopped = [] := by
  rw [onObserver_madeCalls]
  cases a with
  | task a => rfl
  | run a => exact stopped_run s a o
  | stop a =>
      cases a with
      | takeDone i began svcErr r => simp [hostEffect, HostPC.afterLoop] at hpc
      | abandon i began => cases hpc
      | _ => rfl

/-- Behind the loop no `ServiceStopped` is left to be made. -/
private theorem queue_afterLoop (hr : RunIf h ok τ s) (o : Nat) :
    s.pc.afterLoop = true → (onObserver o s.caller.queue).filterMap Callback.stopped = [] := by
  refine hr.invariant (fun (_ : List Action) (s : State h) => s.pc.afterLoop = true →
    (onObserver o s.caller.queue).filterMap Callback.stopped = []) ?_ ?_
  · intro hinit
    cases hinit
  · intro τ s a hr ih _ hg hpc
    cases a with
    | host b =>
        have hcaller := caller_hostEffect s b
        simp only [system, hcaller, caller_of_hostGuard hg, Caller.none, List.nil_append]
        exact madeCalls_afterLoop s b o hpc
    | env a => cases a <;> exact ih hpc
    | watch e => exact ih hpc
    | call who a =>
        cases who with
        | sup i => cases a <;> exact ih hpc
        | host =>
            cases a with
            | ends c panicked => exact ih hpc
            | begins c =>
                simp only [system, callGuard, decide_eq_true_eq] at hg
                obtain ⟨rest, hqueue⟩ : ∃ rest, s.caller.queue = c :: rest :=
                  List.head?_eq_some_iff.mp hg.2
                have hnil := ih hpc
                rw [hqueue, show c :: rest = [c] ++ rest from rfl, onObserver_append,
                  List.filterMap_append] at hnil
                simpa [system, callEffect, State.setCaller, State.callerOf, Caller.begin',
                  hqueue] using (List.append_eq_nil_iff.mp hnil).2
    | sup i a => cases a <;> exact ih hpc
    | stopper i a => cases a <;> exact ih hpc

/-- When the loop has ended every launched service has been announced once. -/
private theorem stoppedLog_afterLoop (hr : RunIf h ok τ s) (hpc : s.pc.afterLoop = true)
    {o : Nat} (ho : ∀ i began err, h.observes o (.serviceStopped i began err) = true) :
    (stoppedLog o τ).map Prod.fst = (List.range s.launched).reverse := by
  have htrail := trail_stopped hr ho
  rw [trail, issued, onObserver_append, List.filterMap_append, queue_afterLoop hr o hpc,
    List.append_nil, ← stoppedLog_eq hr o, settles_eq hr,
    (HostPC.after_counts hpc s.launched).2.2] at htrail
  exact htrail

/-- A service announced as stopped without an error is one whose `Start` has
returned. -/
private theorem takeDone_of_stopped (hr : RunIf h ok τ s) {o i : Nat} {began : Int}
    (hmem : .serviceStopped i began none ∈ trail o τ s) :
    ∃ began svcErr r, .stop (.takeDone i began svcErr r) ∈ hostActs τ := by
  revert hmem
  refine hr.invariant (fun (τ : List Action) (s : State h) =>
    .serviceStopped i began none ∈ trail o τ s →
      ∃ began svcErr r, .stop (.takeDone i began svcErr r) ∈ hostActs τ) ?_ ?_
  · intro hinit
    cases hinit
  · intro τ s a _ ih _ hg hmem
    by_cases ha : ∃ b, a = .host b
    · obtain ⟨b, rfl⟩ := ha
      have hmem : .serviceStopped i began none ∈ trail o (τ ++ [.host b]) (hostEffect s b) := hmem
      rw [trail_host o hg, List.mem_append, Option.mem_toList, Option.filter_eq_some_iff] at hmem
      rw [hostActs_append, hostActs_host]
      rcases hmem with hold | ⟨hann, -⟩
      · obtain ⟨began', svcErr, r, hdone⟩ := ih hold
        exact ⟨began', svcErr, r, List.mem_append_left _ hdone⟩
      · cases b with
        | task b => cases hann
        | run b => cases b <;> cases hann
        | stop b =>
            cases b with
            | takeDone k began' svcErr r =>
                obtain ⟨rfl, -⟩ : k = i ∧ _ := by simpa [announced] using hann
                exact ⟨began', svcErr, r, by simp⟩
            | _ => cases hann
    · have hother : ∀ b, a ≠ .host b := fun b hb => ha ⟨b, hb⟩
      rw [trail_other o hg hother] at hmem
      rw [hostActs_append, (loop_other s a hother).2, List.append_nil]
      exact ih hmem

/-- The result of `Start` is collected after that of `Stop`. -/
private theorem collected_of_takeDone (hr : RunIf h ok τ s) {i : Nat} {began : Int}
    {svcErr r : Result} (hdone : .stop (.takeDone i began svcErr r) ∈ hostActs τ) :
    BothCollected (svcActs i τ) := by
  obtain ⟨pre, post, s₁, rfl, hr₁, -, hg⟩ := hr.of_mem (mem_hostActs.mp hdone)
  have hcan : stopGuard s₁ (.takeDone i began svcErr r) = true := hostCan_of_guard hg
  simp only [stopGuard, decide_eq_true_eq] at hcan
  have hstop := waitDone_takeStop hr₁ i began svcErr hcan.1
  rw [bothCollected_iff]
  constructor
  · refine ⟨began, svcErr, List.mem_filter.mpr ⟨?_, by simp [HostAct.settling, StopAct.settling]⟩⟩
    rw [hostActs_append]
    exact List.mem_append_left _ hstop
  · exact ⟨began, svcErr, r,
      List.mem_filter.mpr ⟨hdone, by simp [HostAct.settling, StopAct.settling]⟩⟩

private theorem collected_of_stopped (hr : RunIf h ok τ s) {o i : Nat}
    (hmem : (i, none) ∈ stoppedLog o τ) : BothCollected (svcActs i τ) := by
  rw [stoppedLog_eq hr o, List.mem_filterMap] at hmem
  obtain ⟨c, hc, hstopped⟩ := hmem
  cases c with
  | serviceStopped k began err =>
      obtain ⟨rfl, rfl⟩ : k = i ∧ err = none := by simpa [Callback.stopped] using hstopped
      have hin : .serviceStopped k began none ∈ trail o τ s := by
        rw [trail, issued, onObserver_append]
        exact List.mem_append_left _ hc
      obtain ⟨began', svcErr, r, hdone⟩ := takeDone_of_stopped hr hin
      exact collected_of_takeDone hr hdone
  | _ => cases hstopped

/-! ## The call of `Stop` -/

/-- The goroutine that calls `Stop` has called it when it is past the call. -/
private theorem called_of_past (hr : RunIf h ok τ s) (i : Nat) :
    (s.svc i).stop = .running ∨ (s.svc i).stop = .finished → .stopper i .call ∈ τ := by
  suffices hacts : (s.svc i).stop = .running ∨ (s.svc i).stop = .finished →
      .stopper .call ∈ svcActs i τ from fun hpast => mem_svcActs.mp (hacts hpast)
  refine svc_invariant i (fun acts v => v.stop = .running ∨ v.stop = .finished →
    .stopper .call ∈ acts) (by simp [Svc.init]) ?_ hr
  intro τ s b hr ih hg
  rw [svc_action, List.mem_append]
  cases b with
  | launch => exact fun hpast => Or.inl (ih hpast)
  | issue began => simp [svcEffect]
  | sup a =>
      obtain ⟨sup, caller, attempts, delay, done, heq⟩ := svcEffect_sup s i a (s.svc i)
      rw [heq]
      exact fun hpast => Or.inl (ih hpast)
  | call a => cases a <;> exact fun hpast => Or.inl (ih hpast)
  | stopper a =>
      cases a with
      | call => exact fun _ => Or.inr (by simp)
      | result o =>
          have hcan : stopperGuard s i (.result o) = true := hg
          simp only [stopperGuard, decide_eq_true_eq] at hcan
          exact fun _ => Or.inl (ih (Or.inl hcan.1))
  | _ => exact fun hpast => Or.inl (ih hpast)

/-- A result of `Stop` is that of a call. -/
private theorem called_of_stopReads (hr : RunIf h ok τ s) {i : Nat}
    (hreads : stopReads (svcActs i τ) ≠ []) : .stopper i .call ∈ τ := by
  obtain ⟨r, hr'⟩ := List.exists_mem_of_ne_nil _ hreads
  have hends : r ∈ stopEnds (svcActs i τ) := by
    rw [stop_fifo hr i]
    exact List.mem_append_left _ hr'
  have hfinished := ((ended_of_run hr i).of_mem hends).1
  exact called_of_past hr i (Or.inr hfinished)

/-- When the loop has ended, every launched service has its `Stop` called, or a
goroutine that is about to call it. -/
private theorem called_or_spawned (hr : RunIf h ok τ s) (hpc : s.pc.afterLoop = true) {i : Nat}
    (hi : i < s.launched) : .stopper i .call ∈ τ ∨ stopperGuard s i .call = true := by
  have hissue : i ∈ issues (hostActs τ) := by
    rw [issues_eq hr, (HostPC.after_counts hpc s.launched).2.1, mem_lastDownTo]
    exact ⟨Nat.zero_le i, hi⟩
  obtain ⟨began, hmem⟩ := mem_issues.mp hissue
  have hborn : (s.svc i).stop ≠ .unborn :=
    (issued_iff hr i).mpr ⟨began, mem_svcActs.mpr (mem_hostActs.mp hmem)⟩
  cases hstop : (s.svc i).stop with
  | unborn => exact absurd hstop hborn
  | spawned => exact Or.inr (by simp [stopperGuard, hstop])
  | running => exact Or.inl (called_of_past hr i (Or.inl hstop))
  | finished => exact Or.inl (called_of_past hr i (Or.inr hstop))

/-! ## Shutdown with stuck services -/

/-- A stuck service cannot hang the shutdown. -/
structure Unstuck (h : Host) (τ : List Action) (s : State h) : Prop where
  /-- behind the deadline the host goroutine can take a step -/
  can_step : s.overdue → ∃ a, a.own = true ∧ (system h).guard s a = true
  /-- whatever happens from there on, the loop has ended, or it is still overdue and
  the host goroutine has taken a bounded number of steps -/
  bounded : s.overdue → ∀ post s', (system h).Runs s post s' → s'.pc.afterLoop = true ∨
    s'.overdue ∧ post.countP Action.own ≤ loopBound h s.launched
  /-- the steps of the host goroutine alone end the loop -/
  ends : s.overdue → ∃ post s', (system h).Runs s post s' ∧ (∀ a ∈ post, a.own = true) ∧
    s'.pc.afterLoop = true
  /-- at the end one goroutine has been started for each launched service, to call
  its `Stop` -/
  issued_once : s.pc.afterLoop = true →
    launches (hostActs τ) = List.range s.launched ∧
      issues (hostActs τ) = (List.range s.launched).reverse
  /-- which has called it, or does so in its next step -/
  called : s.pc.afterLoop = true → ∀ i < s.launched,
    .stopper i .call ∈ τ ∨ stopperGuard s i .call = true
  /-- `Stop` has been called where its result was received -/
  called_seen : ∀ i, stopReads (svcActs i τ) ≠ [] → .stopper i .call ∈ τ
  /-- at the end every observer has been told once of each launched service -/
  stopped_once : s.pc.afterLoop = true → ∀ o obs, h.observers[o]? = some obs →
    obs.serviceStopped = true →
      (stoppedLog o τ).map Prod.fst = (List.range s.launched).reverse
  /-- with an error unless `Stop` and `Start` were both seen to return -/
  stopped_error : ∀ o i err, (i, err) ∈ stoppedLog o τ → ¬ BothCollected (svcActs i τ) →
    err ≠ none

/-- No run is held up by a stuck service. -/
theorem unstuck_of_run (hr : Run h τ s) : Unstuck h τ s where
  can_step := overdue_step
  bounded := by
    intro hs post s' hpost
    rcases overdue_run hr hs hpost with hafter | ⟨hover, hbound⟩
    · exact Or.inl hafter
    · exact Or.inr ⟨hover, (Nat.le_add_right _ _).trans hbound⟩
  ends := overdue_ends
  issued_once := by
    intro hpc
    have hissues := issues_eq hr
    rw [(HostPC.after_counts hpc s.launched).2.1] at hissues
    exact ⟨launches_eq hr, hissues⟩
  called := fun hpc _ hi => called_or_spawned hr hpc hi
  called_seen := fun _ hreads => called_of_stopReads hr hreads
  stopped_once := by
    intro hpc o obs hobs hsets
    exact stoppedLog_afterLoop hr hpc fun i began err => by
      simpa [Host.observes, hobs, Observer.sets] using hsets
  stopped_error := by
    rintro o i err hmem hnot rfl
    exact hnot (collected_of_stopped hr hmem)

/-- `Stop` has been invoked for every launched service when `stopAll` has returned. -/
def StopInvoked (τ : List Action) (s : State h) : Prop :=
  s.pc.afterLoop = true → ∀ i < s.launched, .stopper i .call ∈ τ

/-- `Stop` of the second service does not return.  When its deadline has expired the
first one is told to stop, and abandoned before the goroutine has called `Stop`. -/
def stuckRun : List Action :=
  [.host (.run .enter), .host (.run (.launch 0)), .host (.run (.lookReadier 0)),
    .host (.run (.launch 1)), .host (.run (.lookReadier 1)), .host (.run (.started 2)),
    .sup 0 .start, .sup 1 .start, .env .shutdown, .host (.run .takeShutdown),
    .host (.run .beginStopping), .host (.stop .enter), .host (.stop (.cancel 1)),
    .host (.stop (.issue 1 0)), .stopper 1 .call, .env (.tick 30000000000),
    .host (.stop (.abandon 1 0)), .host (.stop (.cancel 0)),
    .host (.stop (.issue 0 30000000000)), .host (.stop (.abandon 0 30000000000)),
    .host (.stop .leave), .host (.run .join), .host (.run .ret)]

/-- The host can return before `Stop` is called. -/
theorem stop_not_invoked : ¬ ∀ (h : Host) (τ : List Action) (s : State h),
    Run h τ s → StopInvoked τ s := by
  intro hall
  have hr : Run pairHost stuckRun _ := Lts.Admits.run (by decide)
  have hinvoked := hall pairHost stuckRun _ hr (by decide) 0 (by decide)
  exact absurd hinvoked (by decide)

theorem unstuck_stuckRun :
    Unstuck pairHost stuckRun ((system pairHost).after (State.init pairHost) stuckRun) :=
  unstuck_of_run (Lts.Admits.run (by decide))

end Shost.Ports.Hosting
