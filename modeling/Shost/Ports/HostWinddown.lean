import Shost.Ports.HostContract
import Shost.Ports.HostChannels
import Shost.Ports.HostErrors
import Shost.Ports.HostStopAll

/-!
# No goroutine of a run is left behind

What becomes of the goroutines that a run has started.  Once `stoppingCh` is closed a
supervisor has a bounded number of steps left, and apart from the calls of the service's
own code none of them can block: the sends have room and the backoff select sees the
closed channel.  When `RunContext` has returned, the goroutines of every service that was
not abandoned have done their work.

## Main results

* `windsDown_of_run` — the bound, the absence of blocking, and the state on return.
-/

namespace Shost.Ports.Hosting

open Shost.Verified

variable {h : Host} {ok : State h → Action → Prop} {τ : List Action} {s : State h}

/-- A step of the supervisor of a service, its calls included. -/
def Action.ofSup (i : Nat) : Action → Bool
  | .sup k _ | .call (.sup k) _ => k == i
  | _ => false

/-- How many steps a supervisor has left when `stoppingCh` is closed, at most, its calls
apart. -/
def SupPC.left : SupPC → Nat
  | .unborn | .gone => 0
  | .sendExit _ => 1
  | .sendDone _ _ => 2
  | .exited _ _ => 3
  | .running _ => 4
  | .head => 5
  | .backoff _ => 6
  | .observing => 7

def Svc.left (v : Svc) : Nat := v.sup.left + v.caller.left

/-- A supervisor calls each observer once before a backoff. -/
private theorem callsLeft_le (hr : RunIf h ok τ s) (i : Nat) :
    (s.svc i).caller.left ≤ 2 * h.observers.length := by
  refine svc_invariant i (fun _ v => v.caller.left ≤ 2 * h.observers.length) (Nat.zero_le _)
    ?_ hr
  intro τ s b _ ih hg
  rw [svc_action]
  cases b with
  | sup a =>
      cases a with
      | check began err =>
          rcases checkExit_caller h i (s.supStops i) (s.now - began) err (s.svc i) with
            hsame | ⟨attempt, delay, -, hcaller, -⟩
          · rw [svcEffect, hsame]
            exact ih
          · have hlength : (h.observe (.serviceRestarting i attempt delay err)).length ≤
                h.observers.length := by
              rw [Host.observe, List.length_map]
              exact (List.length_filter_le _ _).trans (List.length_zipIdx ..).le
            rw [svcEffect, hcaller]
            show 2 * (h.observe (.serviceRestarting i attempt delay err)).length + 0 ≤ _
            omega
      | _ => exact ih
  | call a =>
      cases a with
      | begins c =>
          have hcan := (of_decide_eq_true hg :
            (s.svc i).caller.current = none ∧ (s.svc i).caller.queue.head? = some c)
          have hleft := left_begin hcan.1 hcan.2
          show (s.svc i).caller.begin'.left ≤ _
          omega
      | ends c panicked =>
          have hcan := (of_decide_eq_true hg : (s.svc i).caller.current = some c)
          have hleft := left_finish hcan
          show (s.svc i).caller.finish.left ≤ _
          omega
  | stopper a => cases a <;> exact ih
  | _ => exact ih

/-- After the shutdown has begun a step of a supervisor leaves it fewer steps. -/
private theorem left_sup {i : Nat} {a : SupAct} (hclosed : s.stoppingCh = true)
    (hg : supGuard s i a = true) :
    (svcEffect s i (.sup a) (s.svc i)).left + 1 ≤ (s.svc i).left := by
  cases a with
  | start =>
      have hpc : (s.svc i).sup = .head := of_decide_eq_true hg
      simp [svcEffect, Svc.left, SupPC.left, hpc]
  | result began o =>
      have hpc : (s.svc i).sup = .running began := of_decide_eq_true hg
      simp [svcEffect, Svc.left, SupPC.left, hpc]
  | check began err =>
      have hpc : (s.svc i).sup = .exited began err := of_decide_eq_true hg
      have hstops : s.supStops i = true := by rw [State.supStops, hclosed, Bool.or_true]
      simp [svcEffect, checkExit, hstops, Svc.left, SupPC.left, hpc]
  | wait =>
      have hpc := (of_decide_eq_true hg : (s.svc i).sup = .observing ∧ _).1
      simp [svcEffect, Svc.left, SupPC.left, hpc]
  | stopWaiting due =>
      have hpc := (of_decide_eq_true hg : (s.svc i).sup = .backoff due ∧ _).1
      simp [svcEffect, Svc.left, SupPC.left, hpc]
  | restart due raw =>
      have hpc := (of_decide_eq_true hg : (s.svc i).sup = .backoff due ∧ _).1
      simp [svcEffect, restartHead, Svc.left, SupPC.left, hpc]
  | sendDone err report =>
      have hpc := (of_decide_eq_true hg : (s.svc i).sup = .sendDone err report ∧ _).1
      cases report <;>
        simp [svcEffect, Svc.left, SupPC.left, hpc]
  | sendExit err =>
      have hpc := (of_decide_eq_true hg : (s.svc i).sup = .sendExit err ∧ _).1
      simp [svcEffect, Svc.left, SupPC.left, hpc]

/-- After the shutdown has begun no step leaves a supervisor more steps, and its own leave
it fewer. -/
private theorem left_step (hr : RunIf h ok τ s) (hclosed : s.stoppingCh = true) {a : Action}
    (hg : (system h).guard s a = true) (i : Nat) :
    (((system h).effect s a).svc i).left + (if a.ofSup i then 1 else 0) ≤ (s.svc i).left := by
  cases hab : a.svcAct i with
  | none =>
      have hnot : a.ofSup i = false := by
        cases a with
        | sup k a => simpa [Action.ofSup, Action.svcAct] using hab
        | call who a =>
            cases who with
            | host => rfl
            | sup k => simpa [Action.ofSup, Action.svcAct] using hab
        | _ => rfl
      rw [svc_other s hab, hnot]
      exact Nat.le_refl _
  | some b =>
      obtain rfl := svcAct_eq_some hab
      rw [svc_action]
      cases b with
      | launch =>
          have hopen := open_of_launch hr hg
          rw [hclosed] at hopen
          cases hopen
      | sup a =>
          rw [if_pos (by simp [SvcAct.action, Action.ofSup])]
          exact left_sup hclosed hg
      | call a =>
          rw [if_pos (by simp [SvcAct.action, Action.ofSup])]
          cases a with
          | begins c =>
              have hcan := (of_decide_eq_true hg :
                (s.svc i).caller.current = none ∧ (s.svc i).caller.queue.head? = some c)
              have hleft := left_begin hcan.1 hcan.2
              show (s.svc i).sup.left + (s.svc i).caller.begin'.left + 1 ≤ _
              rw [Svc.left]
              omega
          | ends c panicked =>
              have hcan := (of_decide_eq_true hg : (s.svc i).caller.current = some c)
              have hleft := left_finish hcan
              show (s.svc i).sup.left + (s.svc i).caller.finish.left + 1 ≤ _
              rw [Svc.left]
              omega
      | stopper a => cases a <;> exact Nat.le_refl _
      | _ => exact Nat.le_refl _

/-- A supervisor that is not in the code of its service can go on. -/
private theorem sup_step (hr : RunIf h ok τ s) (hclosed : s.stoppingCh = true) (i : Nat) :
    (s.svc i).sup = .unborn ∨ (s.svc i).sup = .gone ∨ (∃ began, (s.svc i).sup = .running began) ∨
      ∃ a, a.ofSup i = true ∧ (system h).guard s a = true := by
  have hstops : s.supStops i = true := by rw [State.supStops, hclosed, Bool.or_true]
  have hown (a : SupAct) (hg : supGuard s i a = true) :
      ∃ a : Action, a.ofSup i = true ∧ (system h).guard s a = true :=
    ⟨.sup i a, by simp [Action.ofSup], hg⟩
  cases hsup : (s.svc i).sup with
  | unborn => exact Or.inl rfl
  | gone => exact Or.inr (Or.inl rfl)
  | running began => exact Or.inr (Or.inr (Or.inl ⟨began, rfl⟩))
  | head => exact Or.inr (Or.inr (Or.inr (hown .start (by simp [supGuard, hsup]))))
  | exited began err =>
      exact Or.inr (Or.inr (Or.inr (hown (.check began err) (by simp [supGuard, hsup]))))
  | backoff due =>
      exact Or.inr (Or.inr (Or.inr (hown (.stopWaiting due) (by simp [supGuard, hsup, hstops]))))
  | sendDone err report =>
      have hroom := done_room hr hsup
      exact Or.inr (Or.inr (Or.inr (hown (.sendDone err report) (by simp [supGuard, hsup, hroom]))))
  | sendExit err =>
      have hroom := exits_room hr hsup
      exact Or.inr (Or.inr (Or.inr (hown (.sendExit err) (by simp [supGuard, hsup, hroom]))))
  | observing =>
      refine Or.inr (Or.inr (Or.inr ?_))
      cases hcurrent : (s.svc i).caller.current with
      | some c =>
          refine ⟨.call (.sup i) (.ends c false), by simp [Action.ofSup], ?_⟩
          simp [system, callGuard, State.callerOf, hcurrent]
      | none =>
          cases hqueue : (s.svc i).caller.queue with
          | cons c rest =>
              refine ⟨.call (.sup i) (.begins c), by simp [Action.ofSup], ?_⟩
              simp [system, callGuard, State.callerOf, hcurrent, hqueue]
          | nil => exact hown .wait (by simp [supGuard, hsup, Caller.idle, hcurrent, hqueue])

/-- What becomes of the goroutines of a run. -/
structure WindsDown (h : Host) (τ : List Action) (s : State h) : Prop where
  /-- from the closing of `stoppingCh` on each supervisor takes a bounded number of steps -/
  bounded : ∀ i pre post, τ = pre ++ .host (.run .beginStopping) :: post →
    post.countP (Action.ofSup i) ≤ 7 + 2 * h.observers.length
  /-- and can go on wherever it is, unless it is in a call of `Start` -/
  unblocked : s.stoppingCh = true → ∀ i,
    (s.svc i).sup = .unborn ∨ (s.svc i).sup = .gone ∨ (∃ began, (s.svc i).sup = .running began) ∨
      ∃ a, a.ofSup i = true ∧ (system h).guard s a = true
  /-- the result of a call of `Stop` can always be delivered -/
  stop_unblocked : ∀ i o, (s.svc i).stop = .running →
    (system h).guard s (.stopper i (.result o)) = true
  /-- on return the goroutines of a service that was not abandoned have delivered their
  results -/
  collected : s.pc = .returned → ∀ i < s.launched, ¬ Abandoned i (hostActs τ) →
    (s.svc i).stop = .finished ∧ ((s.svc i).sup = .gone ∨ ∃ r, (s.svc i).sup = .sendExit r)
  /-- the other services have none -/
  never_launched : ∀ i, s.launched ≤ i → (s.svc i).sup = .unborn ∧ (s.svc i).stop = .unborn

/-- Nothing is in the way of the result of `Stop`. -/
theorem stopResult_of_running (hr : RunIf h ok τ s) {i : Nat} (o : Outcome)
    (hstop : (s.svc i).stop = .running) :
    (system h).guard s (.stopper i (.result o)) = true := by
  have hended := ended_of_run hr i
  rw [hstop] at hended
  have hnone : stopEnds (svcActs i τ) = [] := hended
  have hfifo := stop_fifo hr i
  rw [hnone] at hfifo
  obtain ⟨-, hbuf⟩ := List.append_eq_nil_iff.mp hfifo.symm
  have hroom : (s.svc i).stopRes.hasRoom = true := by
    rw [Chan.hasRoom_iff, hbuf]
    decide
  show decide ((s.svc i).stop = .running ∧ (s.svc i).stopRes.hasRoom) = true
  rw [hstop, hroom]
  rfl

/-- A supervisor that has delivered a result has ended, but for its exit. -/
theorem sup_of_doneSends (hr : RunIf h ok τ s) {i : Nat} {r : Result}
    (hdone : r ∈ doneSends (svcActs i τ)) :
    (s.svc i).sup = .gone ∨ ∃ r, (s.svc i).sup = .sendExit r := by
  have hsent := sent_of_run hr i
  cases hsup : (s.svc i).sup with
  | gone => exact Or.inl rfl
  | sendExit r' => exact Or.inr ⟨r', rfl⟩
  | _ =>
      rw [hsup] at hsent
      have hnone : doneSends (svcActs i τ) = [] := hsent.1
      rw [hnone] at hdone
      cases hdone

theorem windsDown_of_run (hr : Run h τ s) : WindsDown h τ s where
  bounded := by
    rintro i pre post rfl
    obtain ⟨s₁, hr₁, -, hg₁, hpost⟩ := hr.split
    have hcalls := callsLeft_le hr₁ i
    have hclose := stoppingCh_step hr₁ hg₁
    rw [decide_eq_true rfl, Bool.or_true] at hclose
    have hsvc : ((system h).effect s₁ (.host (.run .beginStopping))).svc i = s₁.svc i :=
      svc_other s₁ rfl
    have hr₂ := hr₁.snoc trivial hg₁
    have hcount := hpost.count_add_rank_le (Action.ofSup i) (fun s => (s.svc i).left)
      fun τ' s' a hr' _ hg' => by
        have hrun := hr₂.trans hr'
        have hopen : s'.stoppingCh = true := by
          refine (stoppingCh_iff hrun).mpr (List.mem_append_left _ ?_)
          simp
        exact left_step hrun hopen hg' i
    have hplace : (s₁.svc i).sup.left ≤ 7 := by
      cases (s₁.svc i).sup <;> simp [SupPC.left]
    have hleft : (s₁.svc i).left = (s₁.svc i).sup.left + (s₁.svc i).caller.left := rfl
    rw [hsvc] at hcount
    omega
  unblocked := fun hclosed i => sup_step hr hclosed i
  stop_unblocked := fun _ o hstop => stopResult_of_running hr o hstop
  collected := by
    intro hpc i hi hnot
    obtain ⟨began, svcErr, r, -, hstop, hdone⟩ := collected_of_returned hr hpc hi hnot
    exact ⟨((ended_of_run hr i).of_mem hstop).1, sup_of_doneSends hr hdone⟩
  never_launched := by
    intro i hi
    constructor
    · by_contra hborn
      have hlt := launched_of_born hr hborn
      omega
    · by_contra hborn
      have hdone := (ctxDone_iff_toCancel hr i).mp (ctxDone_of_issued hr hborn)
      omega

/-- One of the two services is abandoned. -/
theorem windsDown_smallRun : WindsDown smallHost smallRun
    ((system smallHost).after (State.init smallHost) smallRun) :=
  windsDown_of_run (Lts.Admits.run (by decide))

end Shost.Ports.Hosting
