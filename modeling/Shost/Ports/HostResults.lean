import Shost.Ports.HostErrors
import Shost.Ports.HostNoStart

/-!
# Where the errors of a service come from

What the host reports of a service goes back to the results of its `Start` and of its
`Stop`.  An exit that stops the host is the result of a call of `Start` that had returned
before the shutdown began.

## Main results

* `early_of_takeExit`, `result_of_failed`, `takeStop_of_stopping` — the call behind an exit
  and behind the errors of the shutdown.
-/

namespace Shost.Ports.Hosting

open Shost.Verified

variable {h : Host} {ok : State h → Action → Prop} {τ : List Action} {s : State h} {i : Nat}

/-- A call of `Start` has returned with a result. -/
def StartResult (i : Nat) (τ : List Action) (r : Result) : Prop :=
  ∃ began o, .sup i (.result began o) ∈ τ ∧ safeStart o = r

/-- It has done so before the shutdown began. -/
def EarlyResult (i : Nat) (τ : List Action) (r : Result) : Prop :=
  ∃ pre post began o, τ = pre ++ .sup i (.result began o) :: post ∧ safeStart o = r ∧
    .host (.run .beginStopping) ∉ pre

/-- What a supervisor carries of the results of `Start`, by its place. -/
def Carried (i : Nat) (τ : List Action) : SupPC → Prop
  | .exited _ r => StartResult i τ r
  | .sendDone r report =>
      (r = none ∨ StartResult i τ r) ∧ (report = true → EarlyResult i τ r)
  | .sendExit r => EarlyResult i τ r
  | _ => True

theorem StartResult.append {r : Result} (hr : StartResult i τ r) (a : Action) :
    StartResult i (τ ++ [a]) r := by
  obtain ⟨began, o, hmem, ho⟩ := hr
  exact ⟨began, o, List.mem_append_left _ hmem, ho⟩

theorem EarlyResult.append {r : Result} (hr : EarlyResult i τ r) (a : Action) :
    EarlyResult i (τ ++ [a]) r := by
  obtain ⟨pre, post, began, o, rfl, ho, hnone⟩ := hr
  exact ⟨pre, post ++ [a], began, o, by simp, ho, hnone⟩

private theorem Carried.append {pc : SupPC} (hpc : Carried i τ pc) (a : Action) :
    Carried i (τ ++ [a]) pc := by
  cases pc with
  | exited began r => exact StartResult.append hpc a
  | sendDone r report =>
      exact ⟨hpc.1.imp_right fun hres => hres.append a, fun hon => (hpc.2 hon).append a⟩
  | sendExit r => exact EarlyResult.append hpc a
  | _ => trivial

/-- A result that is there before the shutdown begins is early. -/
private theorem early_of_open (hr : RunIf h ok τ s) {r : Result} (hres : StartResult i τ r)
    (hopen : s.stoppingCh = false) : EarlyResult i τ r := by
  obtain ⟨began, o, hmem, ho⟩ := hres
  obtain ⟨pre, post, rfl⟩ := List.append_of_mem hmem
  refine ⟨pre, post, began, o, rfl, ho, fun hbegun => ?_⟩
  have hclosed := (stoppingCh_iff hr).mpr (List.mem_append_left _ hbegun)
  rw [hopen] at hclosed
  cases hclosed

/-- An exit is reported by a supervisor that does not see a shutdown. -/
private theorem checkExit_sup (h : Host) (i : Nat) (stops : Bool) (ran : Duration) (err : Result)
    (v : Svc) : (checkExit h i stops ran err v).sup = .observing ∨
      ∃ report, (checkExit h i stops ran err v).sup = .sendDone err report ∧
        (report = true → stops = false) := by
  cases stops with
  | true => exact Or.inr ⟨false, rfl, fun hoff => Bool.noConfusion hoff⟩
  | false =>
      obtain ⟨sup, caller, attempts, delay, heq, hsup⟩ := checkExit_eq h i false ran err v
      rw [heq]
      rcases hsup with rfl | ⟨report, rfl⟩
      · exact Or.inl rfl
      · exact Or.inr ⟨report, rfl, fun _ => rfl⟩

theorem carried_of_run (hr : RunIf h ok τ s) : Carried i τ (s.svc i).sup := by
  refine hr.invariant (fun τ (s : State h) => Carried i τ (s.svc i).sup) trivial ?_
  intro τ s a hr ih _ hg
  cases ha : a.svcAct i with
  | none =>
      rw [svc_other s ha]
      exact ih.append a
  | some b =>
      obtain rfl := svcAct_eq_some ha
      rw [svc_action]
      have hold := ih.append (b.action i)
      cases b with
      | launch => trivial
      | call a => cases a <;> exact hold
      | stopper a => cases a <;> exact hold
      | sup a =>
          cases a with
          | start | wait | restart due raw => trivial
          | result began o =>
              exact ⟨began, o, List.mem_append_right _ (List.mem_singleton_self _), rfl⟩
          | check began err =>
              have hpc : (s.svc i).sup = .exited began err := of_decide_eq_true hg
              rw [hpc] at ih
              have hres : StartResult i τ err := ih
              rw [svcEffect]
              rcases checkExit_sup h i (s.supStops i) (s.now - began) err (s.svc i) with
                hsup | ⟨report, hsup, hreport⟩
              · rw [hsup]
                trivial
              · rw [hsup]
                refine ⟨Or.inr (hres.append _), fun hon => EarlyResult.append ?_ _⟩
                refine early_of_open hr hres ?_
                exact (Bool.or_eq_false_iff.mp (hreport hon)).2
          | stopWaiting due => exact ⟨Or.inl rfl, fun hoff => Bool.noConfusion hoff⟩
          | sendDone err report =>
              have hpc := (of_decide_eq_true hg : (s.svc i).sup = .sendDone err report ∧ _).1
              rw [hpc] at hold
              cases report with
              | false => trivial
              | true => exact hold.2 rfl
          | sendExit err => trivial
      | _ => exact hold

/-- What a supervisor has delivered is a result of `Start`, or nil. -/
theorem result_of_doneSends (hr : RunIf h ok τ s) {r : Result}
    (hmem : r ∈ doneSends (svcActs i τ)) : r = none ∨ StartResult i τ r := by
  obtain ⟨b, hb, hbr⟩ := List.mem_filterMap.mp hmem
  split at hbr
  · next r' report =>
      obtain rfl := Option.some.inj hbr
      obtain ⟨pre, post, s₁, rfl, hr₁, -, hg⟩ := hr.of_mem (mem_svcActs.mp hb)
      have hpc := (of_decide_eq_true hg : (s₁.svc i).sup = .sendDone r' report ∧ _).1
      have hcarried := carried_of_run (i := i) hr₁
      rw [hpc] at hcarried
      refine hcarried.1.imp_right ?_
      rintro ⟨began, o, hin, ho⟩
      exact ⟨began, o, List.mem_append_left _ hin, ho⟩
  · cases hbr

/-- An exit that the host receives is the early result of a call of `Start`. -/
theorem early_of_takeExit (hr : RunIf h ok τ s) {r : Result}
    (hmem : .host (.run (.takeExit ⟨i, r⟩)) ∈ τ) : EarlyResult i τ r := by
  have hsend : .sup i (.sendExit r) ∈ τ := mem_sendExit_of_takeExit hr hmem
  obtain ⟨pre, post, s₁, rfl, hr₁, -, hg⟩ := hr.of_mem hsend
  have hpc := (of_decide_eq_true hg : (s₁.svc i).sup = .sendExit r ∧ _).1
  have hcarried := carried_of_run (i := i) hr₁
  rw [hpc] at hcarried
  obtain ⟨pre', post', began, o, rfl, ho, hnone⟩ := hcarried
  exact ⟨pre', post' ++ .sup i (.sendExit r) :: post, began, o, by simp, ho, hnone⟩

/-! ## Errors of the shutdown -/

/-- What `stopAll` reports of a service is reported by one of its steps. -/
private theorem stop_of_report {c : Option Nat} {a : HostAct} {e : HostError}
    (he : e.fromStop i = true) (ha : e ∈ report c a) : ∃ b, a = .stop b := by
  cases a with
  | task a =>
      cases a with
      | result k o ctxDone =>
          obtain ⟨err, -, rfl⟩ := Option.map_eq_some_iff.mp (Option.mem_toList.mp ha)
          cases he
      | _ => cases ha
  | run a =>
      cases a with
      | startTimeout k =>
          rw [List.mem_singleton.mp ha] at he
          cases he
      | takeExit exit =>
          rw [List.mem_singleton.mp ha, exitError] at he
          split at he <;> cases he
      | _ => cases ha
  | stop a => exact ⟨a, rfl⟩

/-- A failure during the shutdown is a result of `Start` that is not a cancellation. -/
theorem result_of_failed (hr : RunIf h ok τ s) {err : Error}
    (hmem : .failedDuringShutdown i err ∈ s.errs) :
    err.canceled = false ∧ StartResult i τ (some err) := by
  rw [errs_eq hr] at hmem
  obtain ⟨a, ha, hreport⟩ := List.mem_flatMap.mp hmem
  obtain ⟨b, rfl⟩ := stop_of_report (i := i) (by simp [HostError.fromStop]) hreport
  cases b with
  | takeDone k began svcErr r =>
      obtain ⟨err', hfail, heq⟩ := Option.map_eq_some_iff.mp (Option.mem_toList.mp hreport)
      cases heq
      have hsent := mem_doneSends_of_takeDone hr ha
      cases r with
      | none => cases hfail
      | some err' =>
          rw [shutdownFailure] at hfail
          split at hfail
          · next hclean =>
              rw [Option.some.inj hfail] at hsent hclean
              exact ⟨hclean.2, (result_of_doneSends hr hsent).resolve_left (Option.some_ne_none _)⟩
          · cases hfail
  | _ => simp [report] at hreport

/-- An error of the stopping is a result of `Stop` that `stopAll` has received. -/
theorem takeStop_of_stopping (hr : RunIf h ok τ s) {err : Error}
    (hmem : .stopping i err ∈ s.errs) :
    ∃ began, .host (.stop (.takeStop i began (some err))) ∈ τ := by
  rw [errs_eq hr] at hmem
  obtain ⟨a, ha, hreport⟩ := List.mem_flatMap.mp hmem
  obtain ⟨b, rfl⟩ := stop_of_report (i := i) (by simp [HostError.fromStop]) hreport
  cases b with
  | takeStop k began r =>
      obtain ⟨err', rfl, heq⟩ := Option.map_eq_some_iff.mp (Option.mem_toList.mp hreport)
      cases heq
      exact ⟨began, mem_hostActs.mp ha⟩
  | _ => simp [report] at hreport

/-- What `stopAll` receives of `Stop` was returned by a call of it before. -/
theorem returned_of_takeStop (hr : RunIf h ok τ s) {began : Int} {r : Result}
    (hg : (system h).guard s (.host (.stop (.takeStop i began r))) = true) :
    ∃ o, .stopper i (.result o) ∈ τ ∧ safeStop o = r := by
  have hcan : stopGuard s (.takeStop i began r) = true := hostCan_of_guard hg
  obtain ⟨rest, hrest⟩ := (Chan.next_eq_some_iff _ _).mp
    (of_decide_eq_true hcan : _ ∧ (s.svc i).stopRes.next = some r).2
  have hsent : r ∈ stopEnds (svcActs i τ) := by
    rw [stop_fifo hr, hrest]
    exact List.mem_append_right _ List.mem_cons_self
  obtain ⟨b, hb, hbr⟩ := List.mem_filterMap.mp hsent
  split at hbr
  · next o => exact ⟨o, mem_svcActs.mp hb, Option.some.inj hbr⟩
  · cases hbr

/-- Of a service that was stopped in time both results have been sent. -/
theorem sent_of_stopped (hr : RunIf h ok τ s) (hpc : s.pc = .returned) (hi : i < s.launched)
    (hstopped : .didNotStop i ∉ s.errs) :
    (∃ r, r ∈ stopEnds (svcActs i τ)) ∧ ∃ r, r ∈ doneSends (svcActs i τ) := by
  have hcount := didNotStop_of_run hr hpc i
  rw [List.count_eq_zero_of_not_mem hstopped] at hcount
  have hlaunch : i ∈ launches (hostActs τ) := by
    rw [launches_eq hr]
    exact List.mem_range.mpr hi
  obtain ⟨hstops, hdones⟩ : BothCollected (svcActs i τ) := by
    by_contra hnot
    rw [if_pos ⟨hlaunch, hnot⟩] at hcount
    cases hcount
  obtain ⟨r, hread⟩ := List.exists_mem_of_ne_nil _ hstops
  obtain ⟨r', hread'⟩ := List.exists_mem_of_ne_nil _ hdones
  constructor
  · refine ⟨r, ?_⟩
    rw [stop_fifo hr]
    exact List.mem_append_left _ hread
  · refine ⟨r', ?_⟩
    rw [done_fifo hr]
    exact List.mem_append_left _ hread'

/-- When `RunContext` has returned, `Stop` was issued for every launched service. -/
theorem issued_of_returned (hr : RunIf h ok τ s) (hpc : s.pc = .returned) (hi : i < s.launched) :
    (s.svc i).stop ≠ .unborn := by
  have hissue : i ∈ issues (hostActs τ) := by
    rw [issues_eq hr, hpc, mem_lastDownTo]
    exact ⟨Nat.zero_le i, hi⟩
  obtain ⟨began, hmem⟩ := mem_issues.mp hissue
  exact (issued_iff hr i).mpr ⟨began, mem_svcActs.mpr (mem_hostActs.mp hmem)⟩

end Shost.Ports.Hosting
