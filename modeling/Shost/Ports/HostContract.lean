import Shost.Ports.HostNoStart
import Shost.Ports.ServiceContract

/-!
# The host keeps the contract

What passes between the host and the service at a position, read off a history: the
calls of `Start` that its supervisor makes and their results, the closing of
`stoppingCh`, the end of its context, and the call of `Stop`.  Whatever the other
services do and however the goroutines are interleaved, this is a history that the
contract allows.

## Main results

* `contract_of_run` — a run shows each service a run of the contract.
-/

namespace Shost.Ports.Hosting

open Shost.Verified Lts

variable {h : Host} {ok : State h → Action → Prop} {τ : List Action} {s : State h}

/-- What an action on a service is in the contract. -/
def SvcAct.deed : SvcAct → Option Deed
  | .cancel => some .cancel
  | .sup .start => some .start
  | .sup (.result _ o) => some (.startReturns o)
  | .stopper .call => some .stop
  | .stopper (.result o) => some (.stopReturns o)
  | _ => none

/-- What an action is in the contract of the service at a position. -/
def Action.deed (i : Nat) (a : Action) : Option Deed :=
  if a = .host (.run .beginStopping) then some .shutdown else (a.svcAct i).bind SvcAct.deed

/-- What has passed between the host and the service at a position. -/
def deeds (i : Nat) (τ : List Action) : List Deed := τ.filterMap (Action.deed i)

/-- A call of `Start` is a step of the supervisor. -/
theorem deed_eq_start {i : Nat} {a : Action} (hdeed : a.deed i = some .start) :
    a = .sup i .start := by
  unfold Action.deed at hdeed
  split at hdeed
  · cases hdeed
  · obtain ⟨b, hb, hstart⟩ := Option.bind_eq_some_iff.mp hdeed
    rw [svcAct_eq_some hb]
    cases b with
    | sup b =>
        cases b with
        | start => rfl
        | _ => cases hstart
    | stopper b => cases b <;> cases hstart
    | _ => cases hstart

/-- A call of `Start` is in progress. -/
def SupPC.serving : SupPC → Bool
  | .running _ => true
  | _ => false

/-- The supervisor may come to call `Start`. -/
def SupPC.mayStart : SupPC → Bool
  | .unborn | .head | .observing | .backoff _ => true
  | _ => false

def StopPC.stage : StopPC → StopStage
  | .unborn | .spawned => .due
  | .running => .running
  | .finished => .over

/-- The state of the contract fits what belongs to the service. -/
structure Fits (stopping : Bool) (v : Svc) (d : Deal) : Prop where
  serving : d.serving = v.sup.serving
  closing : d.closing = stopping
  /-- the last call has been made -/
  spent : d.spent = true → stopping = true ∧ v.sup.mayStart = false
  canceled : d.canceled = v.ctxDone
  stop : d.stop = v.stop.stage

/-! ## What the steps find -/

/-- `stoppingCh` is closed by one step. -/
theorem stoppingCh_step (hr : RunIf h ok τ s) {a : Action}
    (hg : (system h).guard s a = true) :
    ((system h).effect s a).stoppingCh =
      (s.stoppingCh || decide (a = .host (.run .beginStopping))) := by
  by_cases ha : ∃ b, a = .host b
  · obtain ⟨b, rfl⟩ := ha
    have hstep : HostStep h b s.loop (hostEffect s b).loop :=
      hostStep_of_can (hostCan_of_guard hg)
    have hclose : b.runsHooks .onStopping = decide (Action.host b = .host (.run .beginStopping)) := by
      cases b with
      | task b => rfl
      | run b => cases b <;> rfl
      | stop b => cases b <;> rfl
    rw [← hclose]
    exact (hooked_step hstep .onStopping (placed_of_run hr)).1
  · have hother := (loop_other s a fun b hb => ha ⟨b, hb⟩).1
    have hnot : a ≠ .host (.run .beginStopping) := fun heq => ha ⟨_, heq⟩
    have hsame : ((system h).effect s a).loop.stoppingCh = s.loop.stoppingCh :=
      congrArg LoopVars.stoppingCh hother
    simpa [hnot] using hsame

/-- The service whose context is canceled next. -/
theorem ctxDone_iff_toCancel (hr : RunIf h ok τ s) (i : Nat) :
    (s.svc i).ctxDone = true ↔ s.pc.toCancel s.launched ≤ i ∧ i < s.launched := by
  rw [canceled_iff hr i, mem_svcActs, ← mem_lastDownTo, ← cancels_eq hr, cancels, mem_stopLog,
    SvcAct.action, ← mem_hostActs]
  constructor
  · exact fun hmem => ⟨_, hmem, rfl⟩
  · rintro ⟨a, hmem, hpick⟩
    split at hpick
    · obtain rfl : _ = i := by simpa using hpick
      exact hmem
    · cases hpick

/-- `Stop` is issued for services whose context is done. -/
theorem ctxDone_of_issued (hr : RunIf h ok τ s) {i : Nat} (hissued : (s.svc i).stop ≠ .unborn) :
    (s.svc i).ctxDone = true := by
  obtain ⟨began, hmem⟩ := (issued_iff hr i).mp hissued
  have hissue : i ∈ issues (hostActs τ) :=
    mem_issues.mpr ⟨began, mem_hostActs.mpr (mem_svcActs.mp hmem)⟩
  rw [issues_eq hr, mem_lastDownTo] at hissue
  have hle : s.pc.toCancel s.launched ≤ s.pc.toIssue s.launched := by
    cases s.pc <;> simp [HostPC.toCancel, HostPC.toIssue]
  exact (ctxDone_iff_toCancel hr i).mpr ⟨hle.trans hissue.1, hissue.2⟩

/-- A service is launched while `stoppingCh` is open. -/
theorem open_of_launch (hr : RunIf h ok τ s) {i : Nat}
    (hg : (system h).guard s (.host (.run (.launch i))) = true) : s.stoppingCh = false := by
  have hcan : runGuard s (.launch i) = true := hostCan_of_guard hg
  simp only [runGuard, decide_eq_true_eq] at hcan
  have hplaced := placed_of_run hr
  simp only [Placed, State.loop, hcan.1] at hplaced
  exact hplaced.2.2.2.1

/-! ## One step -/

/-- The shutdown begins. -/
private theorem fits_shutdown {v : Svc} {d : Deal} (hfits : Fits false v d) :
    Takes contract d (some .shutdown) (d.next .shutdown) ∧ Fits true v (d.next .shutdown) := by
  constructor
  · refine .takes ?_
    show (!d.closing) = true
    rw [hfits.closing]
    rfl
  · refine ⟨hfits.serving, rfl, fun hspent => ⟨rfl, ?_⟩, hfits.canceled, hfits.stop⟩
    have hon : v.sup.serving = true := hfits.serving.symm.trans hspent
    cases hsup : v.sup <;> simp_all [SupPC.serving, SupPC.mayStart]

/-- A step of the supervisor. -/
private theorem fits_sup {i : Nat} {a : SupAct} {d : Deal} (hg : supGuard s i a = true)
    (hfits : Fits s.stoppingCh (s.svc i) d) :
    ∃ d', Takes contract d (SvcAct.sup a).deed d' ∧
      Fits s.stoppingCh (svcEffect s i (.sup a) (s.svc i)) d' := by
  obtain ⟨hserving, hclosing, hspent, hcanceled, hstop⟩ := hfits
  cases a with
  | start =>
      have hpc : (s.svc i).sup = .head := of_decide_eq_true hg
      have hnot : ¬ d.spent = true := by
        intro hon
        have hmay := (hspent hon).2
        rw [hpc] at hmay
        cases hmay
      refine ⟨d.next .start, .takes ?_, rfl, hclosing, fun hon => ⟨?_, rfl⟩, hcanceled, hstop⟩
      · show (!d.serving && !d.spent) = true
        rw [hserving, hpc, Bool.eq_false_iff.mpr hnot]
        rfl
      · exact hclosing.symm.trans hon
  | result began o =>
      have hpc : (s.svc i).sup = .running began := of_decide_eq_true hg
      refine ⟨d.next (.startReturns o), .takes ?_, rfl, hclosing, fun hon => ?_, hcanceled, hstop⟩
      · show d.serving = true
        rw [hserving, hpc]
        rfl
      · exact ⟨(hspent hon).1, rfl⟩
  | check began err =>
      have hpc : (s.svc i).sup = .exited began err := of_decide_eq_true hg
      rw [hpc] at hserving
      -- a supervisor that sees the shutdown does not come back
      by_cases hstops : s.supStops i = true
      · have hcheck : checkExit h i (s.supStops i) (s.now - began) err (s.svc i) =
            { s.svc i with sup := .sendDone err false } := by
          rw [checkExit, if_pos hstops]
        refine ⟨d, .stays, ?_⟩
        rw [svcEffect, hcheck]
        exact ⟨hserving, hclosing, fun hon => ⟨(hspent hon).1, rfl⟩, hcanceled, hstop⟩
      · obtain ⟨sup, caller, attempts, delay, hcheck, hsup⟩ :=
          checkExit_eq h i (s.supStops i) (s.now - began) err (s.svc i)
        refine ⟨d, .stays, ?_⟩
        rw [svcEffect, hcheck]
        refine ⟨?_, hclosing, fun hon => ?_, hcanceled, hstop⟩
        · rcases hsup with rfl | ⟨report, rfl⟩ <;> exact hserving
        · exact absurd (by rw [State.supStops, (hspent hon).1, Bool.or_true]) hstops
  | wait =>
      have hpc := (of_decide_eq_true hg : (s.svc i).sup = .observing ∧ _).1
      rw [hpc] at hserving hspent
      exact ⟨d, .stays, hserving, hclosing, hspent, hcanceled, hstop⟩
  | stopWaiting due =>
      have hpc := (of_decide_eq_true hg : (s.svc i).sup = .backoff due ∧ _).1
      rw [hpc] at hserving hspent
      exact ⟨d, .stays, hserving, hclosing, fun hon => ⟨(hspent hon).1, rfl⟩, hcanceled, hstop⟩
  | restart due raw =>
      have hpc := (of_decide_eq_true hg : (s.svc i).sup = .backoff due ∧ _).1
      rw [hpc] at hserving hspent
      exact ⟨d, .stays, hserving, hclosing, hspent, hcanceled, hstop⟩
  | sendDone err report =>
      have hpc := (of_decide_eq_true hg : (s.svc i).sup = .sendDone err report ∧ _).1
      rw [hpc] at hserving
      refine ⟨d, .stays, ?_, hclosing, fun hon => ⟨(hspent hon).1, ?_⟩, hcanceled, hstop⟩
      · cases report <;> exact hserving
      · cases report <;> rfl
  | sendExit err =>
      have hpc := (of_decide_eq_true hg : (s.svc i).sup = .sendExit err ∧ _).1
      rw [hpc] at hserving
      exact ⟨d, .stays, hserving, hclosing, fun hon => ⟨(hspent hon).1, rfl⟩, hcanceled, hstop⟩

/-- A step that concerns the service. -/
private theorem fits_svc (hr : RunIf h ok τ s) {i : Nat} {b : SvcAct} {d : Deal}
    (hg : (system h).guard s (b.action i) = true) (hfits : Fits s.stoppingCh (s.svc i) d) :
    ∃ d', Takes contract d b.deed d' ∧
      Fits s.stoppingCh (svcEffect s i b (s.svc i)) d' := by
  cases b with
  | sup a => exact fits_sup hg hfits
  | launch =>
      have hopen := open_of_launch hr hg
      have hborn : (s.svc i).sup = .unborn := by
        by_contra hborn
        exact launch_fresh hr hg ((launched_iff hr i).mp hborn)
      have hoff := hfits.serving
      rw [hborn] at hoff
      refine ⟨d, .stays, hoff, hfits.closing, fun hon => ?_, hfits.canceled, hfits.stop⟩
      have hclosed := (hfits.spent hon).1
      rw [hopen] at hclosed
      cases hclosed
  | cancel =>
      have hcan : s.pc = .stopNext (i + 1) := of_decide_eq_true (hostCan_of_guard hg)
      have hplaced := placed_of_run hr
      simp only [Placed, State.loop, hcan] at hplaced
      have hnot : ¬ (s.svc i).ctxDone = true := by
        rw [ctxDone_iff_toCancel hr, hcan, HostPC.toCancel]
        omega
      refine ⟨d.next .cancel, .takes ?_, hfits.serving, hfits.closing, hfits.spent, rfl, hfits.stop⟩
      show (d.closing && !d.canceled) = true
      rw [hfits.closing, hplaced.2.2, hfits.canceled, Bool.eq_false_iff.mpr hnot]
      rfl
  | issue began =>
      have hborn : (s.svc i).stop = .unborn := by
        by_contra hborn
        obtain ⟨began', hissue⟩ := (issued_iff hr i).mp hborn
        exact issue_fresh hr hg began' hissue
      have hdue := hfits.stop
      rw [hborn] at hdue
      exact ⟨d, .stays, hfits.serving, hfits.closing, hfits.spent, hfits.canceled, hdue⟩
  | stopper a =>
      cases a with
      | call =>
          have hpc : (s.svc i).stop = .spawned := of_decide_eq_true hg
          refine ⟨d.next .stop, .takes ?_, hfits.serving, hfits.closing, hfits.spent,
            hfits.canceled, rfl⟩
          show (d.canceled && decide (d.stop = .due)) = true
          have hissued : (s.svc i).stop ≠ .unborn := by
            rw [hpc]
            decide
          rw [hfits.canceled, ctxDone_of_issued hr hissued, hfits.stop, hpc]
          rfl
      | result o =>
          have hpc := (of_decide_eq_true hg : (s.svc i).stop = .running ∧ _).1
          refine ⟨d.next (.stopReturns o), .takes ?_, hfits.serving, hfits.closing, hfits.spent,
            hfits.canceled, rfl⟩
          show decide (d.stop = .running) = true
          rw [hfits.stop, hpc]
          rfl
  | call a =>
      refine ⟨d, .stays, ?_⟩
      cases a <;>
        exact ⟨hfits.serving, hfits.closing, hfits.spent, hfits.canceled, hfits.stop⟩
  | _ =>
      exact ⟨d, .stays, hfits.serving, hfits.closing, hfits.spent, hfits.canceled, hfits.stop⟩

/-- The contract follows every run, with a state that fits the service. -/
theorem fits_of_run (hr : RunIf h ok τ s) (i : Nat) :
    ∃ d, contract.Runs Deal.init (deeds i τ) d ∧ Fits s.stoppingCh (s.svc i) d := by
  refine hr.simulates (fun (s : State h) d => Fits s.stoppingCh (s.svc i) d) (Action.deed i)
    ⟨rfl, rfl, nofun, rfl, rfl⟩ ?_
  intro τ s a d hr _ hg hfits
  show ∃ d', Takes contract d (a.deed i) d' ∧
    Fits ((system h).effect s a).stoppingCh (((system h).effect s a).svc i) d'
  rw [stoppingCh_step hr hg]
  by_cases hbegin : a = .host (.run .beginStopping)
  · subst hbegin
    have hpc : s.pc = .stopping := of_decide_eq_true (hostCan_of_guard hg)
    have hplaced := placed_of_run hr
    simp only [Placed, State.loop, hpc] at hplaced
    rw [hplaced.2] at hfits
    rw [decide_eq_true rfl, Bool.or_true]
    exact ⟨_, fits_shutdown hfits⟩
  · rw [decide_eq_false hbegin, Bool.or_false, Action.deed, if_neg hbegin]
    cases hab : a.svcAct i with
    | none =>
        rw [svc_other s hab]
        exact ⟨d, .stays, hfits⟩
    | some b =>
        obtain rfl := svcAct_eq_some hab
        rw [svc_action]
        exact fits_svc hr hg hfits

/-- Every run shows each service a run of the contract, and so calls of `Start` that do
not overlap, at most one of them after the shutdown has begun, and at most one call of
`Stop`, after the end of the service's context. -/
theorem contract_of_run (hr : Run h τ s) (i : Nat) :
    (∃ d, contract.Runs Deal.init (deeds i τ) d ∧ Fits s.stoppingCh (s.svc i) d) ∧
      Honors (deeds i τ) := by
  obtain ⟨d, hruns, hfits⟩ := fits_of_run hr i
  exact ⟨⟨d, hruns, hfits⟩, honors_of_runs hruns⟩

/-- The run that calls `Start` after `Stop`. -/
theorem contract_slowRun : Honors (deeds 0 slowRun) :=
  (contract_of_run (h := soloHost) (Lts.Admits.run (by decide)) 0).2

end Shost.Ports.Hosting
