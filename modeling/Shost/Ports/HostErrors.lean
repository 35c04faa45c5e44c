import Shost.Ports.HostServices

/-!
# Error accounting

The errors that `RunContext` joins are those that single steps of the host
goroutine report, in the order of these steps.  At most one step reports the
cause of a startup that failed or of a shutdown, and for every launched service
`stopAll` takes one of three courses: both results are collected, only that of
`Stop`, or none.  So every error is reported exactly once.

## Main results

* `errs_eq` — the errors are the reports of the steps.
* `account_of_run` — the course `stopAll` takes for a service.
* `accounting_of_run` — what the errors are when `RunContext` has returned.
-/

namespace Shost.Ports.Hosting

open Shost.Verified Trace

variable {h : Host} {ok : State h → Action → Prop} {τ : List Action} {s : State h}

/-! ## What a step reports -/

/-- The error by which a task fails, unless its return counts as a clean abort. -/
def taskFailure (o : Outcome) (ctxDone : Bool) : Result :=
  match safeTask o with
  | none => none
  | some err => if err.canceled ∧ ctxDone then none else some err

/-- The errors that a step of the host goroutine reports. -/
def report (causeIndex : Option Nat) : HostAct → List HostError
  | .task (.result k o ctxDone) => ((taskFailure o ctxDone).map (.taskFailed k)).toList
  | .run (.startTimeout k) => [.notReady k]
  | .run (.takeExit exit) => [exitError exit]
  | .stop (.takeStop i _ r) => (r.map (.stopping i)).toList
  | .stop (.takeDone i _ _ r) =>
      ((shutdownFailure causeIndex i r).map (.failedDuringShutdown i)).toList
  | .stop (.abandon i _) => [.didNotStop i]
  | _ => []

theorem HostStep.errs_eq {a : HostAct} {v v' : LoopVars} (hstep : HostStep h a v v') :
    v'.errs = v.errs ++ report v.causeIndex a := by
  cases hstep with
  | task hstep =>
      cases hstep with
      | done v ho => simp [report, taskFailure, ho]
      | aborted v ho hclean => simp [report, taskFailure, ho, hclean]
      | failed v ho hclean => simp [report, taskFailure, ho, hclean]
      | _ => exact (List.append_nil _).symm
  | run hstep =>
      cases hstep with
      | startTimeout v | readyExit v | mainExit v => rfl
      | _ => exact (List.append_nil _).symm
  | stop hstep =>
      cases hstep with
      | takeStop v | takeDone v | abandonStop v | abandonDone v => rfl
      | _ => exact (List.append_nil _).symm

/-- Exits are received before the loop of `stopAll`. -/
theorem HostStep.beforeLoop_of_takeExit {exit : ServiceExit} {v v' : LoopVars}
    (hstep : HostStep h (.run (.takeExit exit)) v v') : v.pc.beforeLoop = true := by
  cases hstep with
  | run hstep => cases hstep <;> rfl

/-- Receiving an exit sets the cause; no other step does. -/
theorem HostStep.causeIndex_eq {a : HostAct} {v v' : LoopVars} : HostStep h a v v' →
    v'.causeIndex =
      match a with
      | .run (.takeExit exit) => some exit.index
      | _ => v.causeIndex := by
  intro hstep
  cases hstep with
  | task hstep => cases hstep <;> rfl
  | run hstep => cases hstep <;> rfl
  | stop hstep => cases hstep <;> rfl

/-! ## The course of `stopAll` for one service -/

/-- The step settles a service or prepares that. -/
def StopAct.settling (i : Nat) : StopAct → Bool
  | .takeStop k _ _ | .takeDone k _ _ _ | .abandon k _ => decide (k = i)
  | _ => false

def HostAct.settling (i : Nat) : HostAct → Bool
  | .stop a => a.settling i
  | _ => false

/-- The steps of `stopAll` that settle a service. -/
def account (i : Nat) (η : List HostAct) : List HostAct := η.filter (HostAct.settling i)

/-- The courses `stopAll` takes for a service. -/
inductive Account (i : Nat) : List HostAct → Prop
  | collected (began : Int) (svcErr r : Result) :
      Account i [.stop (.takeStop i began svcErr), .stop (.takeDone i began svcErr r)]
  | startMissing (began : Int) (svcErr : Result) :
      Account i [.stop (.takeStop i began svcErr), .stop (.abandon i began)]
  | stopMissing (began : Int) : Account i [.stop (.abandon i began)]

/-- How far `stopAll` has got with a service. -/
inductive Stage where
  | untouched
  | stopSeen (began : Int) (svcErr : Result)
  | settled

/-- The stage of a service when the services from `n` on are settled. -/
def stageFrom (i n launched : Nat) : Stage :=
  if n ≤ i ∧ i < launched then .settled else .untouched

/-- The stage of a service, by the place of the host goroutine. -/
def LoopVars.stage (i : Nat) (v : LoopVars) : Stage :=
  match v.pc with
  | .waitDone k began svcErr =>
      if k = i then .stopSeen began svcErr else stageFrom i (k + 1) v.launched
  | pc => stageFrom i (pc.toSettle v.launched) v.launched

/-- What the account of a service is at a stage. -/
def AccountAt (i : Nat) (acts : List HostAct) : Stage → Prop
  | .untouched => acts = []
  | .stopSeen began svcErr => acts = [.stop (.takeStop i began svcErr)]
  | .settled => Account i acts

private theorem stageFrom_succ (i launched : Nat) :
    stageFrom i (i + 1) launched = .untouched := by
  rw [stageFrom, if_neg (by omega)]

private theorem stageFrom_self {i launched : Nat} (hi : i < launched) :
    stageFrom i i launched = .settled := by
  rw [stageFrom, if_pos ⟨le_refl i, hi⟩]

private theorem stageFrom_ne {i k launched : Nat} (hk : k ≠ i) :
    stageFrom i (k + 1) launched = stageFrom i k launched := by
  have hiff : (k + 1 ≤ i ∧ i < launched) ↔ (k ≤ i ∧ i < launched) := by omega
  simp only [stageFrom, hiff]

private theorem stage_before {i : Nat} {v : LoopVars} (hpc : v.pc.beforeLoop = true) :
    v.stage i = .untouched := by
  have hfrom : stageFrom i v.launched v.launched = .untouched := by
    rw [stageFrom, if_neg (by omega)]
  rw [LoopVars.stage]
  cases hat : v.pc with
  | waitDone k began svcErr =>
      rw [hat] at hpc
      cases hpc
  | _ =>
      rw [hat] at hpc
      show stageFrom i (HostPC.toSettle v.launched _) v.launched = _
      rw [(HostPC.before_counts hpc v.launched).2.2, hfrom]

private theorem stage_after {i : Nat} {v : LoopVars} (hpc : v.pc.afterLoop = true) :
    v.stage i = stageFrom i 0 v.launched := by
  rw [LoopVars.stage]
  cases hat : v.pc with
  | waitDone k began svcErr =>
      rw [hat] at hpc
      cases hpc
  | _ =>
      rw [hat] at hpc
      show stageFrom i (HostPC.toSettle v.launched _) v.launched = _
      rw [(HostPC.after_counts hpc v.launched).2.2]

private theorem stage_stop {i : Nat} {a : StopAct} {v v' : LoopVars} (hstep : StopStep a v v')
    (ha : a.settling i = false) : v'.stage i = v.stage i := by
  cases hstep with
  | takeStop v | takeDone v | abandonDone v =>
      have hk := of_decide_eq_false ha
      simp [LoopVars.stage, HostPC.toSettle, hk, stageFrom_ne hk]
  | abandonStop v => exact (stageFrom_ne (of_decide_eq_false ha)).symm
  | _ => rfl

/-- A step that does not settle a service leaves its stage. -/
private theorem stage_other {i : Nat} {a : HostAct} {v v' : LoopVars} (hstep : HostStep h a v v')
    (ha : a.settling i = false) : v'.stage i = v.stage i := by
  by_cases hstop : ∃ b, a = .stop b
  · obtain ⟨b, rfl⟩ := hstop
    cases hstep with
    | stop hstep => exact stage_stop hstep ha
  · rcases hstep.outside_loop fun b hb => hstop ⟨b, hb⟩ with ⟨hpc, hpc'⟩ | ⟨hpc, hpc', hlaunched⟩
    · rw [stage_before hpc, stage_before hpc']
    · rw [stage_after hpc, stage_after hpc', hlaunched]

/-- A step that settles a service adds to its account what the stage says. -/
private theorem account_stop {i : Nat} {a : StopAct} {v v' : LoopVars} (acts : List HostAct)
    (hstep : StopStep a v v') (hp : Placed h v) (ha : a.settling i = true)
    (hacts : AccountAt i acts (v.stage i)) : AccountAt i (acts ++ [.stop a]) (v'.stage i) := by
  cases hstep with
  | @takeStop v k began r =>
      obtain rfl : k = i := of_decide_eq_true ha
      have hstage : LoopVars.stage k { v with pc := .waitStop k began } = .untouched :=
        stageFrom_succ k v.launched
      rw [hstage] at hacts
      obtain rfl : acts = [] := hacts
      simp [LoopVars.stage, AccountAt]
  | @takeDone v k began svcErr r =>
      obtain rfl : k = i := of_decide_eq_true ha
      have hstage' : stageFrom k k v.launched = .settled := stageFrom_self hp.1
      simp only [LoopVars.stage, ↓reduceIte] at hacts
      obtain rfl : acts = [.stop (.takeStop k began svcErr)] := hacts
      show AccountAt k _ (stageFrom k k v.launched)
      rw [hstage']
      exact .collected began svcErr r
  | @abandonStop v k began =>
      obtain rfl : k = i := of_decide_eq_true ha
      have hstage : LoopVars.stage k { v with pc := .waitStop k began } = .untouched :=
        stageFrom_succ k v.launched
      have hstage' : stageFrom k k v.launched = .settled := stageFrom_self hp.1
      rw [hstage] at hacts
      obtain rfl : acts = [] := hacts
      show AccountAt k _ (stageFrom k k v.launched)
      rw [hstage']
      exact .stopMissing began
  | @abandonDone v k began svcErr =>
      obtain rfl : k = i := of_decide_eq_true ha
      have hstage' : stageFrom k k v.launched = .settled := stageFrom_self hp.1
      simp only [LoopVars.stage, ↓reduceIte] at hacts
      obtain rfl : acts = [.stop (.takeStop k began svcErr)] := hacts
      show AccountAt k _ (stageFrom k k v.launched)
      rw [hstage']
      exact .startMissing began svcErr
  | _ => cases ha

/-- The account of a service is what the place of the host goroutine says. -/
theorem account_of_run (hr : RunIf h ok τ s) (i : Nat) :
    AccountAt i (account i (hostActs τ)) (s.loop.stage i) := by
  refine placed_invariant (fun η v => AccountAt i (account i η) (v.stage i)) ?_ ?_ hr
  · rw [stage_before rfl]
    rfl
  · intro η v v' a hp ih hstep
    rw [account, List.filter_append]
    by_cases ha : a.settling i = true
    · rw [List.filter_cons_of_pos ha, List.filter_nil]
      cases hstep with
      | stop hstep => exact account_stop _ hstep hp ha ih
      | _ => cases ha
    · have hother : a.settling i = false := Bool.eq_false_iff.mpr ha
      rw [stage_other hstep hother, List.filter_cons_of_neg ha, List.filter_nil, List.append_nil]
      exact ih

/-! ## The cause -/

/-- The step reports a failed startup or an exit. -/
def HostAct.isCause : HostAct → Bool
  | .task (.result _ o ctxDone) => (taskFailure o ctxDone).isSome
  | .run (.startTimeout _) => true
  | .run (.takeExit _) => true
  | _ => false

def causes (η : List HostAct) : List HostAct := η.filter HostAct.isCause

/-- The host has neither failed to start nor begun to stop. -/
def LoopVars.isOpen (v : LoopVars) : Bool :=
  (v.pc.inStartup && !v.startupAborted) || decide (v.pc = .mainSelect)

theorem LoopVars.isOpen_of_startup {v : LoopVars} (hpc : v.pc.inStartup = true)
    (haborted : v.startupAborted = false) : v.isOpen = true := by
  rw [LoopVars.isOpen, hpc, haborted]
  rfl

/-- A cause ends the open state, and nothing restores it. -/
private theorem open_step {a : HostAct} {v v' : LoopVars} (hstep : HostStep h a v v')
    (hp : Placed h v) :
    (v'.isOpen = true → v.isOpen = true ∧ a.isCause = false) ∧
      (a.isCause = true → v.isOpen = true) := by
  cases hstep with
  | task hstep =>
      have hopen : v.isOpen = true := by
        refine LoopVars.isOpen_of_startup hstep.inStartup.1 ?_
        cases hstep <;> exact hp.2.1
      refine ⟨fun hopen' => ⟨hopen, ?_⟩, fun _ => hopen⟩
      cases hstep with
      | done v ho => rw [HostAct.isCause, taskFailure, ho]; rfl
      | aborted v | failed v => cases hopen'
      | _ => rfl
  | run hstep =>
      cases hstep with
      | startTimeout v | readyExit v =>
          exact ⟨nofun, fun _ => LoopVars.isOpen_of_startup rfl hp.2.2.1⟩
      | mainExit v => exact ⟨nofun, fun _ => rfl⟩
      | tasks v | noTasks v | launch v | readier v | noReadier v | ready v | started v =>
          exact ⟨fun hopen => ⟨hopen, rfl⟩, nofun⟩
      | _ => exact ⟨nofun, nofun⟩
  | stop hstep => cases hstep <;> exact ⟨nofun, nofun⟩

/-- There is at most one cause, and none while the host is open. -/
theorem causes_of_run (hr : RunIf h ok τ s) :
    (s.loop.isOpen = true → causes (hostActs τ) = []) ∧ (causes (hostActs τ)).length ≤ 1 := by
  refine placed_invariant
    (fun η v => (v.isOpen = true → causes η = []) ∧ (causes η).length ≤ 1) ?_ ?_ hr
  · exact ⟨fun _ => rfl, Nat.zero_le 1⟩
  · intro η v v' a hp ih hstep
    have hopens := open_step hstep hp
    rw [causes, List.filter_append]
    by_cases ha : a.isCause = true
    · have hnone : List.filter HostAct.isCause η = [] := ih.1 (hopens.2 ha)
      rw [hnone, List.filter_cons_of_pos ha]
      constructor
      · intro hopen
        rw [(hopens.1 hopen).2] at ha
        cases ha
      · exact Nat.le_refl 1
    · rw [List.filter_cons_of_neg ha, List.filter_nil, List.append_nil]
      exact ⟨fun hopen => ih.1 (hopens.1 hopen).1, ih.2⟩

/-- At a receive from `exits` the host is open. -/
private theorem open_of_takeExit (hr : RunIf h ok τ s) {exit : ServiceExit} {v' : LoopVars}
    (hstep : HostStep h (.run (.takeExit exit)) s.loop v') : causes (hostActs τ) = [] :=
  (causes_of_run hr).1 ((open_step hstep (placed_of_run hr)).2 rfl)

/-- `causeIndex` is the service whose exit was received. -/
theorem causeIndex_iff (hr : RunIf h ok τ s) (i : Nat) :
    s.causeIndex = some i ↔ ∃ r, .run (.takeExit ⟨i, r⟩) ∈ hostActs τ := by
  refine loop_invariant
    (fun η v => v.causeIndex = some i ↔ ∃ r, .run (.takeExit ⟨i, r⟩) ∈ η) ?_ ?_ hr
  · simp [State.init]
  · intro τ s a v' hr ih hstep
    have hcause := hstep.causeIndex_eq
    by_cases ha : ∃ exit, a = .run (.takeExit exit)
    · obtain ⟨exit, rfl⟩ := ha
      have hnone : ∀ r, HostAct.run (.takeExit ⟨i, r⟩) ∉ hostActs τ := by
        intro r hmem
        have hin : HostAct.run (.takeExit ⟨i, r⟩) ∈ causes (hostActs τ) :=
          List.mem_filter.mpr ⟨hmem, rfl⟩
        rw [open_of_takeExit hr hstep] at hin
        cases hin
      cases exit with
      | mk k r =>
          simp only [hcause, List.mem_append, hnone, false_or]
          simp [eq_comm]
    · have hsame : v'.causeIndex = s.loop.causeIndex := by
        rw [hcause]
        split
        · exact absurd ⟨_, rfl⟩ ha
        · rfl
      have hold : ∀ r, HostAct.run (.takeExit ⟨i, r⟩) ≠ a := fun r hr => ha ⟨_, hr.symm⟩
      simpa [hsame, hold] using ih

/-- What a step other than the receive from `done` reports does not depend on
the cause. -/
private theorem report_congr (c c' : Option Nat) (a : HostAct)
    (ha : ∀ i began svcErr r, a ≠ .stop (.takeDone i began svcErr r)) :
    report c a = report c' a := by
  cases a with
  | task a => cases a <;> rfl
  | run a => cases a <;> rfl
  | stop a =>
      cases a with
      | takeDone i began svcErr r => exact absurd rfl (ha i began svcErr r)
      | _ => rfl

/-- The errors are what the steps have reported, in their order. -/
theorem errs_eq (hr : RunIf h ok τ s) :
    s.errs = (hostActs τ).flatMap (report s.causeIndex) := by
  refine loop_invariant (fun η v => v.errs = η.flatMap (report v.causeIndex)) rfl ?_ hr
  intro τ s a v' hr ih hstep
  have hsame : (hostActs τ).flatMap (report v'.causeIndex) =
        (hostActs τ).flatMap (report s.loop.causeIndex) ∧
      report v'.causeIndex a = report s.loop.causeIndex a := by
    have hcause := hstep.causeIndex_eq
    by_cases ha : ∃ exit, a = .run (.takeExit exit)
    · obtain ⟨exit, rfl⟩ := ha
      constructor
      · -- before the first exit is received, nothing has been received from `done`
        refine List.flatMap_congr fun b hb => report_congr _ _ b ?_
        rintro i began svcErr r rfl
        have hsettled : i ∈ settles (hostActs τ) :=
          mem_settles.mpr (Or.inl ⟨began, svcErr, r, hb⟩)
        have hpc : s.pc.beforeLoop = true := hstep.beforeLoop_of_takeExit
        rw [settles_eq hr, (HostPC.before_counts hpc _).2.2, lastDownTo_self] at hsettled
        cases hsettled
      · rfl
    · have hsame : v'.causeIndex = s.loop.causeIndex := by
        rw [hcause]
        split
        · exact absurd ⟨_, rfl⟩ ha
        · rfl
      rw [hsame]
      exact ⟨rfl, rfl⟩
  rw [List.flatMap_append, List.flatMap_singleton, hsame.1, hsame.2, ← ih, hstep.errs_eq]

/-! ## Counting -/

/-- The error is one that `stopAll` reports of a service. -/
def HostError.fromStop (i : Nat) : HostError → Bool
  | .stopping k _ | .failedDuringShutdown k _ | .didNotStop k => decide (k = i)
  | _ => false

private theorem mem_toList_map {r : Result} {f : Error → HostError} {e : HostError} :
    e ∈ (r.map f).toList ↔ ∃ err, r = some err ∧ f err = e := by
  rw [Option.mem_toList, Option.map_eq_some_iff]

private theorem settling_of_report {c : Option Nat} {a : HostAct} {e : HostError} {i : Nat}
    (he : e.fromStop i = true) (ha : e ∈ report c a) : a.settling i = true := by
  cases a with
  | task a =>
      cases a with
      | result k o ctxDone =>
          obtain ⟨err, -, rfl⟩ := mem_toList_map.mp ha
          cases he
      | _ => cases ha
  | run a =>
      cases a with
      | startTimeout k =>
          obtain rfl := List.mem_singleton.mp ha
          cases he
      | takeExit exit =>
          obtain rfl := List.mem_singleton.mp ha
          unfold exitError at he
          split at he <;> cases he
      | _ => cases ha
  | stop a =>
      cases a with
      | takeStop k began r =>
          obtain ⟨err, -, rfl⟩ := mem_toList_map.mp ha
          exact he
      | takeDone k began svcErr r =>
          obtain ⟨err, -, rfl⟩ := mem_toList_map.mp ha
          exact he
      | abandon k began =>
          obtain rfl := List.mem_singleton.mp ha
          exact he
      | _ => cases ha

/-- Errors that `stopAll` reports of a service are counted over its account. -/
theorem count_fromStop (hr : RunIf h ok τ s) {e : HostError} {i : Nat}
    (he : e.fromStop i = true) :
    s.errs.count e = ((account i (hostActs τ)).flatMap (report s.causeIndex)).count e := by
  rw [errs_eq hr]
  exact count_reports _ _ _ _ fun a ha => settling_of_report he ha

theorem mem_stopEnds_of_takeStop (hr : RunIf h ok τ s) {i : Nat} {began : Int} {r : Result}
    (hmem : .stop (.takeStop i began r) ∈ hostActs τ) : r ∈ stopEnds (svcActs i τ) := by
  have hread : r ∈ stopReads (svcActs i τ) := mem_stopReads.mpr ⟨began, mem_hostActs.mp hmem⟩
  rw [stop_fifo hr i]
  exact List.mem_append_left _ hread

theorem mem_doneSends_of_takeDone (hr : RunIf h ok τ s) {i : Nat} {began : Int}
    {svcErr r : Result} (hmem : .stop (.takeDone i began svcErr r) ∈ hostActs τ) :
    r ∈ doneSends (svcActs i τ) := by
  have hread : r ∈ doneReads (svcActs i τ) :=
    mem_doneReads.mpr ⟨began, svcErr, mem_hostActs.mp hmem⟩
  rw [done_fifo hr i]
  exact List.mem_append_left _ hread

/-- A supervisor delivers one result. -/
theorem doneSends_unique (hr : RunIf h ok τ s) {i : Nat} {r r' : Result}
    (hmem : r ∈ doneSends (svcActs i τ)) (hmem' : r' ∈ doneSends (svcActs i τ)) : r = r' := by
  have hsent := sent_of_run hr i
  rw [hsent.dones_eq hmem', List.mem_singleton] at hmem
  exact hmem

/-- When `RunContext` has returned every launched service has a full account. -/
theorem account_of_returned (hr : RunIf h ok τ s) (hpc : s.pc = .returned) {i : Nat}
    (hi : i < s.launched) : Account i (account i (hostActs τ)) := by
  have hstage : s.loop.stage i = .settled := by
    have hafter : s.loop.stage i = stageFrom i 0 s.launched :=
      stage_after (v := s.loop) (by simp [hpc, HostPC.afterLoop])
    rw [hafter, stageFrom, if_pos ⟨Nat.zero_le i, hi⟩]
  have hacc := account_of_run hr i
  rwa [hstage] at hacc

/-! ## The accounting -/

/-- The service was abandoned at the shutdown deadline. -/
def Abandoned (i : Nat) (η : List HostAct) : Prop := ∃ began, .stop (.abandon i began) ∈ η

/-- The results of both `Stop` and `Start` were collected by `stopAll`. -/
def BothCollected (acts : List SvcAct) : Prop :=
  stopReads acts ≠ [] ∧ doneReads acts ≠ []

instance (acts : List SvcAct) : Decidable (BothCollected acts) :=
  inferInstanceAs (Decidable (_ ∧ _))

private theorem mem_account {i : Nat} {a : HostAct} (ha : a.settling i = true) :
    a ∈ account i (hostActs τ) ↔ .host a ∈ τ := by
  rw [account, List.mem_filter, mem_hostActs]
  exact and_iff_left ha

/-- A service that was not abandoned has been collected. -/
theorem collected_of_returned (hr : RunIf h ok τ s) (hpc : s.pc = .returned) {i : Nat}
    (hi : i < s.launched) (hnot : ¬ Abandoned i (hostActs τ)) :
    ∃ began svcErr r, account i (hostActs τ) =
      [.stop (.takeStop i began svcErr), .stop (.takeDone i began svcErr r)] ∧
        svcErr ∈ stopEnds (svcActs i τ) ∧ r ∈ doneSends (svcActs i τ) := by
  have hacc := account_of_returned hr hpc hi
  generalize hl : account i (hostActs τ) = acts at hacc
  have hmem : ∀ a ∈ acts, a ∈ hostActs τ := by
    intro a ha
    rw [← hl] at ha
    exact (List.mem_filter.mp ha).1
  cases hacc with
  | collected began svcErr r =>
      have hstop := hmem (.stop (.takeStop i began svcErr)) (by simp)
      have hdone := hmem (.stop (.takeDone i began svcErr r)) (by simp)
      exact ⟨began, svcErr, r, rfl, mem_stopEnds_of_takeStop hr hstop,
        mem_doneSends_of_takeDone hr hdone⟩
  | startMissing began svcErr => exact absurd ⟨began, hmem _ (by simp)⟩ hnot
  | stopMissing began => exact absurd ⟨began, hmem _ (by simp)⟩ hnot

/-- Both results are collected when the account says so. -/
theorem bothCollected_iff (i : Nat) (τ : List Action) :
    BothCollected (svcActs i τ) ↔
      (∃ began r, .stop (.takeStop i began r) ∈ account i (hostActs τ)) ∧
        ∃ began svcErr r, .stop (.takeDone i began svcErr r) ∈ account i (hostActs τ) := by
  have hstop : ∀ began r, (HostAct.stop (.takeStop i began r)).settling i = true :=
    fun _ _ => decide_eq_true rfl
  have hdone : ∀ began svcErr r, (HostAct.stop (.takeDone i began svcErr r)).settling i = true :=
    fun _ _ _ => decide_eq_true rfl
  simp only [mem_account (hstop _ _), mem_account (hdone _ _ _)]
  constructor
  · rintro ⟨hstops, hdones⟩
    obtain ⟨r, hr⟩ := List.exists_mem_of_ne_nil _ hstops
    obtain ⟨r', hr'⟩ := List.exists_mem_of_ne_nil _ hdones
    obtain ⟨began, hmem⟩ := mem_stopReads.mp hr
    obtain ⟨began', svcErr, hmem'⟩ := mem_doneReads.mp hr'
    exact ⟨⟨began, r, hmem⟩, began', svcErr, r', hmem'⟩
  · rintro ⟨⟨began, r, hmem⟩, began', svcErr, r', hmem'⟩
    exact ⟨List.ne_nil_of_mem (mem_stopReads.mpr ⟨began, hmem⟩),
      List.ne_nil_of_mem (mem_doneReads.mpr ⟨began', svcErr, hmem'⟩)⟩

theorem didNotStop_of_run (hr : RunIf h ok τ s) (hpc : s.pc = .returned) (i : Nat) :
    s.errs.count (.didNotStop i) =
      if i ∈ launches (hostActs τ) ∧ ¬ BothCollected (svcActs i τ) then 1 else 0 := by
  rw [count_fromStop (i := i) hr (by simp [HostError.fromStop])]
  have hlaunch : i ∈ launches (hostActs τ) ↔ i < s.launched := by
    rw [launches_eq hr, List.mem_range]
  have hboth := bothCollected_iff i τ
  by_cases hi : i < s.launched
  · have hacc := account_of_returned hr hpc hi
    generalize account i (hostActs τ) = acts at hacc hboth
    cases hacc with
    | collected began svcErr r =>
        have hyes : BothCollected (svcActs i τ) := hboth.mpr (by simp)
        rw [if_neg fun hand => hand.2 hyes]
        cases svcErr <;> cases hfail : shutdownFailure s.causeIndex i r <;>
          simp [report, hfail]
    | startMissing began svcErr =>
        have hno : ¬ BothCollected (svcActs i τ) := fun hyes => by simpa using hboth.mp hyes
        rw [if_pos ⟨hlaunch.mpr hi, hno⟩]
        cases svcErr <;> simp [report]
    | stopMissing began =>
        have hno : ¬ BothCollected (svcActs i τ) := fun hyes => by simpa using hboth.mp hyes
        rw [if_pos ⟨hlaunch.mpr hi, hno⟩]
        simp [report]
  · have hstage : s.loop.stage i = .untouched := by
      have hafter : s.loop.stage i = stageFrom i 0 s.launched :=
        stage_after (v := s.loop) (by simp [hpc, HostPC.afterLoop])
      rw [hafter, stageFrom, if_neg (by omega)]
    have hnil : account i (hostActs τ) = [] := by
      have hacc := account_of_run hr i
      rwa [hstage] at hacc
    rw [hnil, if_neg fun hand => hi (hlaunch.mp hand.1)]
    rfl

/-- A host with two services and nothing else. -/
def pairHost : Host :=
  .ofServices [⟨"db", false, none⟩, ⟨"api", false, none⟩] (by decide) (by decide) (by simp)

end Shost.Ports.Hosting
