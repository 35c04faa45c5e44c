import Shost.Ports.HostServices

/-!
# What the supervisors send

Every supervisor has a channel `done` of its own, with room for one result, and
all share the channel `exits`, with room for one exit of each service.  A
supervisor ends by sending its result to `done`; only when it gives up by itself
does it send an exit too.  Nobody needs to receive: there is room for
everything that is ever sent.

## Main results

* `discipline_of_run` — what is sent on the two channels in a run, and that no
  send blocks.
-/

namespace Shost.Ports.Hosting

open Shost.Verified Trace

variable {h : Host} {ok : State h → Action → Prop} {τ : List Action} {s : State h}

/-- The supervisor of a service finds its context or `stoppingCh` closed. -/
def seesStop (i : Nat) (s : State h) : Action → Bool
  | .sup k (.check _ _) => decide (k = i) && s.supStops i
  | .sup k (.stopWaiting _) => decide (k = i)
  | _ => false

/-- The supervisor of a service has observed the shutdown. -/
def StopSeen (h : Host) (i : Nat) (τ : List Action) : Prop :=
  ∃ x ∈ (system h).steps (State.init h) τ, seesStop i x.1 x.2 = true

/-- The shutdown has been observed before the last step or is observed there. -/
theorem stopSeen_snoc (hr : RunIf h ok τ s) (i : Nat) (a : Action) :
    StopSeen h i (τ ++ [a]) ↔ StopSeen h i τ ∨ seesStop i s a = true := by
  unfold StopSeen
  rw [hr.steps_snoc]
  constructor
  · rintro ⟨x, hx, hsees⟩
    rcases List.mem_append.mp hx with hold | hnew
    · exact Or.inl ⟨x, hold, hsees⟩
    · rw [List.mem_singleton.mp hnew] at hsees
      exact Or.inr hsees
  · rintro (⟨x, hx, hsees⟩ | hsees)
    · exact ⟨x, List.mem_append_left _ hx, hsees⟩
    · exact ⟨(s, a), List.mem_append_right _ (List.mem_singleton.mpr rfl), hsees⟩

/-- What holds of `exits` and of the channels `done` in a run. -/
structure ChannelDiscipline (h : Host) (τ : List Action) (s : State h) : Prop where
  done_once : ∀ i, (doneSends (svcActs i τ)).length ≤ 1
  done_of_gone : ∀ i, (s.svc i).sup = .gone → (doneSends (svcActs i τ)).length = 1
  exit_once : ∀ i, (exitSends (svcActs i τ)).length ≤ 1
  exit_after_done :
    Guarded (fun pre a => ∀ i r, a = .sup i (.sendExit r) → doneSends (svcActs i pre) = [r]) τ
  /-- who sends an exit has not observed the shutdown, and ends -/
  exit_unstopped : ∀ i r, .sup i (.sendExit r) ∈ τ → ¬ StopSeen h i τ ∧ (s.svc i).sup = .gone
  /-- a supervisor that is to send can send, whatever the host goroutine does -/
  never_blocks : ∀ i,
    (∀ r report, (s.svc i).sup = .sendDone r report →
      (system h).guard s (.sup i (.sendDone r report)) = true) ∧
    (∀ r, (s.svc i).sup = .sendExit r → (system h).guard s (.sup i (.sendExit r)) = true)
  /-- what the host goroutine receives is the result sent to `done` -/
  exit_matches : ∀ exit, .host (.run (.takeExit exit)) ∈ τ →
    doneSends (svcActs exit.index τ) = [exit.err]

/-! ## The two channels -/

private theorem doneSends_length {acts : List SvcAct} {pc : SupPC} (hsent : Sent acts pc) :
    (doneSends acts).length ≤ 1 ∧ (pc = .gone → (doneSends acts).length = 1) ∧
      (exitSends acts).length ≤ 1 := by
  cases pc with
  | gone =>
      obtain ⟨r, hdone, hnil | hone⟩ := hsent
      · simp [hdone, hnil]
      · simp [hdone, hone]
  | sendExit r => simp [hsent.1, hsent.2]
  | _ => simp [hsent.1, hsent.2]

/-- Before its last send a supervisor has not sent to `done`, so there is room. -/
theorem done_room (hr : RunIf h ok τ s) {i : Nat} {r : Result} {report : Bool}
    (hsup : (s.svc i).sup = .sendDone r report) : (s.svc i).done.hasRoom = true := by
  have hsent := sent_of_run hr i
  rw [hsup] at hsent
  have hnone : doneSends (svcActs i τ) = [] := hsent.1
  have hfifo := done_fifo hr i
  rw [hnone] at hfifo
  obtain ⟨-, hbuf⟩ := List.append_eq_nil_iff.mp hfifo.symm
  rw [Chan.hasRoom_iff, hbuf]
  decide

private theorem count_exitLog_single (i : Nat) (a : Action) :
    ((exitLog [a]).map ServiceExit.index).count i = (exitSends (svcActs i [a])).length := by
  by_cases ha : ∃ k r, a = .sup k (.sendExit r)
  · obtain ⟨k, r, rfl⟩ := ha
    by_cases hk : k = i <;> simp [exitLog, exitSends, svcActs, Action.svcAct, hk]
  · have hlog : exitLog [a] = [] := by
      refine List.eq_nil_iff_forall_not_mem.mpr fun exit hmem => ha ⟨exit.index, exit.err, ?_⟩
      exact (List.mem_singleton.mp (mem_exitLog.mp hmem)).symm
    have hsends : exitSends (svcActs i [a]) = [] := by
      refine List.eq_nil_iff_forall_not_mem.mpr fun r hmem => ha ⟨i, r, ?_⟩
      exact (List.mem_singleton.mp (mem_exitSends.mp hmem)).symm
    rw [hlog, hsends]
    rfl

/-- The exits of a service among all exits sent. -/
private theorem count_exitLog (i : Nat) (τ : List Action) :
    ((exitLog τ).map ServiceExit.index).count i = (exitSends (svcActs i τ)).length := by
  induction τ with
  | nil => rfl
  | cons a rest ih =>
      have hsingle := count_exitLog_single i a
      rw [exitLog, svcActs, exitSends] at *
      rw [← List.singleton_append, List.filterMap_append, List.filterMap_append,
        List.filterMap_append, List.map_append, List.count_append, List.length_append, ih, hsingle]

/-- Before a supervisor sends its exit there is room: at most one exit has been
sent for each of the other services. -/
theorem exits_room (hr : RunIf h ok τ s) {i : Nat} {r : Result}
    (hsup : (s.svc i).sup = .sendExit r) : s.exits.hasRoom = true := by
  have hsent := sent_of_run hr i
  rw [hsup] at hsent
  have hnone : exitSends (svcActs i τ) = [] := hsent.2
  have honce : ((exitLog τ).map ServiceExit.index).Nodup := by
    refine List.nodup_iff_count_le_one.mpr fun k => ?_
    rw [count_exitLog]
    exact (doneSends_length (sent_of_run hr k)).2.2
  have hlaunched : ∀ k ∈ (exitLog τ).map ServiceExit.index, k < h.services.length ∧ k ≠ i := by
    intro k hk
    obtain ⟨exit, hmem, rfl⟩ := List.mem_map.mp hk
    refine ⟨?_, ?_⟩
    · have hdone := mem_doneSends_of_sendExit hr (mem_exitLog.mp hmem)
      exact lt_of_lt_of_le (launched_of_doneSends hr hdone) (placed_of_run hr).launched_le
    · rintro rfl
      have hcount := count_exitLog exit.index τ
      rw [hnone, List.length_nil, List.count_eq_zero] at hcount
      exact hcount hk
  have hi : i < h.services.length :=
    lt_of_lt_of_le (launched_of_born hr (by simp [hsup])) (placed_of_run hr).launched_le
  have hsubset : (exitLog τ).map ServiceExit.index ⊆ (List.range h.services.length).erase i := by
    intro k hk
    obtain ⟨hlt, hne⟩ := hlaunched k hk
    exact (List.mem_erase_of_ne hne).mpr (List.mem_range.mpr hlt)
  have hlength : (exitLog τ).length ≤ h.services.length - 1 := by
    have hle := (honce.subperm hsubset).length_le
    rwa [List.length_map, List.length_erase_of_mem (List.mem_range.mpr hi),
      List.length_range] at hle
  have hfifo := congrArg List.length (exits_fifo hr)
  rw [List.length_append] at hfifo
  rw [Chan.hasRoom_iff]
  omega

/-! ## The shutdown observed -/

/-- The supervisor has observed the shutdown: it sends its result and no exit. -/
def Stopped (acts : List SvcAct) (pc : SupPC) : Prop :=
  (∃ r, pc = .sendDone r false) ∨ (pc = .gone ∧ exitSends acts = [])

/-- The supervisor observes the shutdown at this step. -/
private theorem stopped_of_sees {i : Nat} {b : SvcAct} (acts : List SvcAct)
    (hsees : seesStop i s (b.action i) = true) : Stopped acts (svcEffect s i b (s.svc i)).sup := by
  cases b with
  | sup a =>
      cases a with
      | check began err =>
          have hstops : s.supStops i = true := by simpa [seesStop, SvcAct.action] using hsees
          exact Or.inl ⟨err, by simp [svcEffect, checkExit, hstops]⟩
      | stopWaiting due => exact Or.inl ⟨none, rfl⟩
      | _ => cases hsees
  | _ => cases hsees

/-- The supervisor has observed the shutdown before. -/
private theorem supStops_step (hr : RunIf h ok τ s) {i : Nat} {b : SvcAct}
    (hg : (system h).guard s (b.action i) = true) (hold : Stopped (svcActs i τ) (s.svc i).sup) :
    Stopped (svcActs i τ ++ [b]) (svcEffect s i b (s.svc i)).sup := by
  cases b with
  | launch =>
      have hborn : (s.svc i).sup ≠ .unborn := by
        rcases hold with ⟨r, hpc⟩ | ⟨hpc, -⟩ <;> simp [hpc]
      exact absurd ((launched_iff hr i).mp hborn) (launch_fresh hr hg)
  | sup a =>
      have hcan : supGuard s i a = true := hg
      rcases hold with ⟨r, hpc⟩ | ⟨hpc, -⟩
      · cases a with
        | sendDone r' report =>
            simp only [supGuard, hpc, decide_eq_true_eq, SupPC.sendDone.injEq] at hcan
            obtain ⟨⟨rfl, rfl⟩, -⟩ := hcan
            have hsent := sent_of_run hr i
            rw [hpc] at hsent
            have hnone : exitSends (svcActs i τ) = [] := hsent.2
            refine Or.inr ⟨by simp [svcEffect], ?_⟩
            simpa [exitSends] using hnone
        | _ => simp [supGuard, hpc] at hcan
      · cases a <;> simp [supGuard, hpc] at hcan
  | call a => cases a <;> simpa [Stopped, svcEffect, exitSends] using hold
  | stopper a => cases a <;> simpa [Stopped, svcEffect, exitSends] using hold
  | _ => simpa [Stopped, svcEffect, exitSends] using hold

/-- A supervisor that has observed the shutdown does not send an exit. -/
private theorem stopped_of_seen (hr : RunIf h ok τ s) (i : Nat) :
    StopSeen h i τ → Stopped (svcActs i τ) (s.svc i).sup := by
  refine hr.invariant (fun (τ : List Action) (s : State h) =>
    StopSeen h i τ → Stopped (svcActs i τ) (s.svc i).sup) ?_ ?_
  · rintro ⟨x, hx, -⟩
    cases hx
  · intro τ s a hr ih _ hg hseen
    have hseen : StopSeen h i τ ∨ seesStop i s a = true := (stopSeen_snoc hr i a).mp hseen
    rw [svcActs, List.filterMap_append]
    cases hab : a.svcAct i with
    | none =>
        have hnow : seesStop i s a = false := by
          cases a with
          | sup k a => cases a <;> simp_all [seesStop, Action.svcAct]
          | _ => rfl
        have hold := ih (hseen.resolve_right (by simp [hnow]))
        rw [svc_other s hab]
        simpa [hab, svcActs] using hold
    | some b =>
        obtain rfl := svcAct_eq_some hab
        rw [svc_action]
        rcases hseen with hold | hnow
        · simpa [svcActs] using supStops_step hr hg (ih hold)
        · exact stopped_of_sees _ hnow

/-- The discipline of the channels, in every run. -/
theorem discipline_of_run (hr : Run h τ s) : ChannelDiscipline h τ s where
  done_once := fun i => (doneSends_length (sent_of_run hr i)).1
  done_of_gone := fun i => (doneSends_length (sent_of_run hr i)).2.1
  exit_once := fun i => (doneSends_length (sent_of_run hr i)).2.2
  exit_after_done := by
    refine hr.guarded ?_
    intro τ s a hr _ hg i r ha
    subst ha
    have hcan : supGuard s i (.sendExit r) = true := hg
    simp only [supGuard, decide_eq_true_eq] at hcan
    have hsent := sent_of_run hr i
    rw [hcan.1] at hsent
    exact hsent.1
  exit_unstopped := by
    intro i r hmem
    refine ⟨fun hseen => ?_, (gone_of_sendExit hr hmem).1⟩
    have hexit := mem_exitSends.mpr hmem
    rcases stopped_of_seen hr i hseen with ⟨r', hpc⟩ | ⟨-, hnone⟩
    · rw [(gone_of_sendExit hr hmem).1] at hpc
      cases hpc
    · rw [hnone] at hexit
      cases hexit
  never_blocks := by
    intro i
    refine ⟨fun r report hpc => ?_, fun r hpc => ?_⟩
    · simp [system, supGuard, hpc, done_room hr hpc]
    · simp [system, supGuard, hpc, exits_room hr hpc]
  exit_matches := by
    intro exit hmem
    exact (gone_of_sendExit hr (mem_sendExit_of_takeExit hr hmem)).2

/-- The only service fails, and the host receives its exit. -/
def exitingRun : List Action :=
  [.host (.run .enter), .host (.run (.launch 0)), .host (.run (.lookReadier 0)),
    .host (.run (.started 1)), .sup 0 .start,
    .sup 0 (.result 0 (.returned (some (newError "lost")))),
    .sup 0 (.check 0 (some (newError "lost"))),
    .sup 0 (.sendDone (some (newError "lost")) true),
    .sup 0 (.sendExit (some (newError "lost"))),
    .host (.run (.takeExit ⟨0, some (newError "lost")⟩))]

theorem discipline_exitingRun :
    ChannelDiscipline soloHost exitingRun
      ((system soloHost).after (State.init soloHost) exitingRun) :=
  discipline_of_run (Lts.Admits.run (by decide))

end Shost.Ports.Hosting
