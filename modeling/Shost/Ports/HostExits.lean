import Shost.Ports.HostErrors

/-!
# Premature exits

A service without restart policy that returns from `Start` before any shutdown
trigger is to stop the host, and `RunContext` is to return an error that names
it.  The exit waits in `exits`; when a trigger occurs before the host loop has
come to its select, the select may take the trigger instead, and `stopAll` then
drops a nil result and one that wraps `context.Canceled`.

## Main results

* `exit_forgotten` — a run in which a premature exit is lost.
* `exits_reported` — no exit is lost in a run in which no trigger is taken while
  the exit at the head of the queue carries nil or a cancellation.
-/

namespace Shost.Ports.Hosting

open Shost.Verified

variable {h : Host} {ok : State h → Action → Prop} {τ : List Action} {s : State h}

/-- A shutdown trigger occurs: the context is done, `Shutdown` is called, the
start timeout fires, or an exit is queued. -/
def Action.isTrigger : Action → Bool
  | .env (.cancelCtx _) | .env .shutdown => true
  | .host (.run (.startTimeout _)) => true
  | .sup _ (.sendExit _) => true
  | _ => false

/-- A service without restart policy whose exit was queued before any trigger is
named by the error that `RunContext` returns. -/
def NoExitForgotten (h : Host) (τ : List Action) (s : State h) : Prop :=
  ∀ i r pre post, τ = pre ++ .sup i (.sendExit r) :: post → h.restart i = none →
    (∀ a ∈ pre, a.isTrigger = false) → s.pc = .returned →
      ∀ showDuration, ∃ err,
        joinErrors (s.errs.map (HostError.toError h showDuration)) = some err ∧
          Mentions h i err.text

/-- The step by which the host loop leaves one of its two selects. -/
def HostAct.leaves : HostAct → Bool
  | .run (.startTimeout _) | .run .takeCtx | .run .takeShutdown | .run (.takeExit _) => true
  | _ => false

/-- The host loop leaves its select for another reason than an exit. -/
def Action.takesTrigger : Action → Bool
  | .host (.run (.startTimeout _)) | .host (.run .takeCtx) | .host (.run .takeShutdown) => true
  | _ => false

private theorem leave_step {a : HostAct} {v v' : LoopVars} (hstep : HostStep h a v v')
    (hp : Placed h v) (hopen : v'.isOpen = false) (hlaunched : v'.launched ≠ 0) :
    a.leaves = true ∨ (v.isOpen = false ∧ v.launched ≠ 0) := by
  cases hstep with
  | task hstep => cases hstep <;> exact absurd hp.1 hlaunched
  | run hstep =>
      cases hstep with
      | startTimeout v | readyCtx v | mainCtx v | readyShutdown v | mainShutdown v
      | readyExit v | mainExit v => exact Or.inl rfl
      | launch v => cases hopen
      | started v => cases hopen
      | _ => exact Or.inr ⟨hopen, hlaunched⟩
  | stop hstep => cases hstep <;> exact Or.inr ⟨rfl, hlaunched⟩

/-- A host that has launched services stops because of a trigger. -/
theorem leaves_of_run (hr : RunIf h ok τ s) (hopen : s.loop.isOpen = false)
    (hlaunched : s.launched ≠ 0) : ∃ a ∈ hostActs τ, a.leaves = true := by
  refine placed_invariant
    (fun η v => v.isOpen = false → v.launched ≠ 0 → ∃ a ∈ η, a.leaves = true) ?_ ?_ hr
    hopen hlaunched
  · intro _ hzero
    exact absurd rfl hzero
  · intro η v v' a hp ih hstep hopen hlaunched
    rcases leave_step hstep hp hopen hlaunched with ha | ⟨hopen', hlaunched'⟩
    · exact ⟨a, by simp, ha⟩
    · obtain ⟨b, hb, hleaves⟩ := ih hopen' hlaunched'
      exact ⟨b, List.mem_append_left _ hb, hleaves⟩

/-- No trigger is taken while the exit at the head of the queue carries nil or a
cancellation. -/
def ExitsFirst (s : State h) (a : Action) : Prop :=
  a.takesTrigger = true →
    ∀ exit ∈ s.exits.next, ∃ err ∈ exit.err, err.canceled = false

instance (s : State h) (a : Action) : Decidable (ExitsFirst s a) :=
  inferInstanceAs (Decidable (_ → ∀ exit ∈ s.exits.next, ∃ err ∈ exit.err, _))

private theorem exitLog_append (τ τ' : List Action) :
    exitLog (τ ++ τ') = exitLog τ ++ exitLog τ' := List.filterMap_append

private theorem exitReads_append (η η' : List HostAct) :
    exitReads (η ++ η') = exitReads η ++ exitReads η' := List.filterMap_append

/-- Before the first trigger nothing is in `exits`. -/
private theorem exitLog_of_no_trigger {pre : List Action}
    (hfirst : ∀ a ∈ pre, a.isTrigger = false) : exitLog pre = [] := by
  refine List.filterMap_eq_nil_iff.mpr fun a ha => ?_
  have hnot := hfirst a ha
  split
  · cases hnot
  · rfl

/-- A trigger is not taken before it occurs: when a queued exit is the first
trigger, the host loop leaves its select after it. -/
private theorem queued_before_leave {i : Nat} {r : Result} {pre post p q : List Action}
    {a : HostAct} {s₁ : State h}
    (hτ : pre ++ .sup i (.sendExit r) :: post = p ++ .host a :: q)
    (hfirst : ∀ b ∈ pre, b.isTrigger = false) (hr : RunIf h ok p s₁)
    (hg : (system h).guard s₁ (.host a) = true)
    (ha : Action.takesTrigger (.host a) = true) :
    ∃ mid, p = pre ++ .sup i (.sendExit r) :: mid := by
  rcases List.append_eq_append_iff.mp hτ with ⟨mid, rfl, hmid⟩ | ⟨mid, rfl, hmid⟩
  · cases mid with
    | nil => cases hmid
    | cons x mid =>
        obtain ⟨rfl, -⟩ := List.cons.inj hmid
        exact ⟨mid, rfl⟩
  · exfalso
    have hcan := hostCan_of_guard hg
    unfold Action.takesTrigger at ha
    split at ha
    · rename_i k heq
      obtain rfl : a = .run (.startTimeout k) := by simpa using heq
      cases mid with
      | nil => cases hmid
      | cons x mid =>
          obtain ⟨rfl, -⟩ := List.cons.inj hmid
          cases hfirst (.host (.run (.startTimeout k))) (by simp)
    · rename_i heq
      obtain rfl : a = .run .takeCtx := by simpa using heq
      simp only [hostCan, runGuard, decide_eq_true_eq] at hcan
      obtain ⟨e, he⟩ := (ctx_iff hr).mp hcan.2
      cases hfirst _ (List.mem_append_left _ he)
    · rename_i heq
      obtain rfl : a = .run .takeShutdown := by simpa using heq
      simp only [hostCan, runGuard, decide_eq_true_eq] at hcan
      cases hfirst _ (List.mem_append_left _ ((shutdownCh_iff hr).mp hcan.2))
    · cases ha

/-- When no exit has been received and the host has returned, the first exit
queued carries an error that is not a cancellation. -/
private theorem failed_of_unread (hr : RunIf h ExitsFirst τ s) {i : Nat} {r : Result}
    {pre post : List Action} (hτ : τ = pre ++ .sup i (.sendExit r) :: post)
    (hfirst : ∀ b ∈ pre, b.isTrigger = false) (hreads : exitReads (hostActs τ) = [])
    (hopen : s.loop.isOpen = false) (hlaunched : s.launched ≠ 0) :
    ∃ err, r = some err ∧ err.canceled = false := by
  obtain ⟨a, ha, hleaves⟩ := leaves_of_run hr hopen hlaunched
  have htake : Action.takesTrigger (.host a) = true := by
    cases a with
    | task a => cases hleaves
    | stop a => cases hleaves
    | run a =>
        cases a with
        | takeExit exit =>
            have hin : exit ∈ exitReads (hostActs τ) := mem_exitReads.mpr ha
            rw [hreads] at hin
            cases hin
        | startTimeout k | takeCtx | takeShutdown => rfl
        | _ => cases hleaves
  obtain ⟨p, q, s₁, hsplit, hr₁, hok, hg⟩ := hr.of_mem (mem_hostActs.mp ha)
  obtain ⟨mid, rfl⟩ := queued_before_leave (hτ.symm.trans hsplit) hfirst hr₁ hg htake
  have hnone : exitReads (hostActs (pre ++ .sup i (.sendExit r) :: mid)) = [] := by
    rw [hsplit, hostActs_append, exitReads_append] at hreads
    exact (List.append_eq_nil_iff.mp hreads).1
  have hfifo := exits_fifo hr₁
  rw [hnone, exitLog_append, exitLog_of_no_trigger hfirst] at hfifo
  have hnext : s₁.exits.next = some ⟨i, r⟩ :=
    (Chan.next_eq_some_iff _ _).mpr ⟨exitLog mid, hfifo.symm⟩
  exact hok htake _ hnext

/-- A failure that is no cancellation is named by `stopAll` when no exit has been
received. -/
private theorem named_of_unread (hr : RunIf h ok τ s) (hpc : s.pc = .returned)
    (hreads : exitReads (hostActs τ) = []) {i : Nat} {err : Error}
    (hdone : some err ∈ doneSends (svcActs i τ)) (hcanceled : err.canceled = false) :
    ∃ e ∈ s.errs, e.service = some i := by
  have hcause : s.causeIndex = none := by
    by_contra hsome
    obtain ⟨k, hk⟩ := Option.ne_none_iff_exists'.mp hsome
    obtain ⟨r', htake⟩ := (causeIndex_iff hr k).mp hk
    have hin := mem_exitReads.mpr htake
    rw [hreads] at hin
    cases hin
  have hacc := account_of_returned hr hpc (launched_of_doneSends hr hdone)
  rw [errs_eq hr]
  generalize hl : account i (hostActs τ) = acts at hacc
  have hmem : ∀ a ∈ acts, a ∈ hostActs τ := by
    intro a ha
    rw [← hl] at ha
    exact (List.mem_filter.mp ha).1
  cases hacc with
  | collected began svcErr r' =>
      have hin := hmem (.stop (.takeDone i began svcErr r')) (by simp)
      obtain rfl : r' = some err :=
        doneSends_unique hr (mem_doneSends_of_takeDone hr hin) hdone
      exact ⟨.failedDuringShutdown i err, List.mem_flatMap.mpr
        ⟨_, hin, by simp [report, shutdownFailure, hcause, hcanceled]⟩, rfl⟩
  | startMissing began svcErr =>
      have hin := hmem (.stop (.abandon i began)) (by simp)
      exact ⟨.didNotStop i, List.mem_flatMap.mpr ⟨_, hin, by simp [report]⟩, rfl⟩
  | stopMissing began =>
      have hin := hmem (.stop (.abandon i began)) (by simp)
      exact ⟨.didNotStop i, List.mem_flatMap.mpr ⟨_, hin, by simp [report]⟩, rfl⟩

/-- In a run in which no trigger is taken while the exit at the head of the queue
carries nil or a cancellation, no premature exit is forgotten. -/
theorem exits_reported (hr : RunIf h ExitsFirst τ s) : NoExitForgotten h τ s := by
  intro i r pre post hτ _ hfirst hpc showDuration
  suffices hnamed : ∃ e ∈ s.errs, e.service = some i by
    obtain ⟨e, he, hi⟩ := hnamed
    exact joinErrors_names h showDuration he hi
  have hfifo := exits_fifo hr
  have hlog : exitLog τ = ⟨i, r⟩ :: exitLog post := by
    rw [hτ, exitLog_append, exitLog_of_no_trigger hfirst]
    rfl
  rw [hlog] at hfifo
  cases hreads : exitReads (hostActs τ) with
  | cons exit rest =>
      rw [hreads, List.cons_append] at hfifo
      obtain ⟨rfl, -⟩ := List.cons.inj hfifo
      have hin : HostAct.run (.takeExit ⟨i, r⟩) ∈ hostActs τ :=
        mem_exitReads.mp (by rw [hreads]; exact List.mem_cons_self)
      rw [errs_eq hr]
      exact ⟨exitError ⟨i, r⟩, List.mem_flatMap.mpr ⟨_, hin, by simp [report]⟩,
        exitError_service _⟩
  | nil =>
      have hdone : r ∈ doneSends (svcActs i τ) :=
        mem_doneSends_of_sendExit hr (by rw [hτ]; simp)
      have hi : i < s.launched := launched_of_doneSends hr hdone
      obtain ⟨err, rfl, hcanceled⟩ := failed_of_unread hr hτ hfirst hreads
        (by simp [LoopVars.isOpen, hpc, HostPC.inStartup]) (by omega)
      exact named_of_unread hr hpc hreads hdone hcanceled

/-- The service returns nil and its exit is queued; then `Shutdown` is called,
and the select takes that. -/
def forgettingRun : List Action :=
  [.host (.run .enter), .host (.run (.launch 0)), .host (.run (.lookReadier 0)),
    .host (.run (.started 1)), .sup 0 .start, .sup 0 (.result 0 (.returned none)),
    .sup 0 (.check 0 none), .sup 0 (.sendDone none true), .sup 0 (.sendExit none),
    .env .shutdown, .host (.run .takeShutdown), .host (.run .beginStopping),
    .host (.stop .enter), .host (.stop (.cancel 0)), .host (.stop (.issue 0 0)),
    .stopper 0 .call, .stopper 0 (.result (.returned none)),
    .host (.stop (.takeStop 0 0 none)), .host (.stop (.takeDone 0 0 none none)),
    .host (.stop .leave), .host (.run .join), .host (.run .ret)]

/-- A premature exit can be forgotten. -/
theorem exit_forgotten : ¬ ∀ (h : Host) (τ : List Action) (s : State h),
    Run h τ s → NoExitForgotten h τ s := by
  intro hall
  have hr : Run soloHost forgettingRun _ := Lts.Admits.run (by decide)
  have hnamed := hall soloHost forgettingRun _ hr 0 none (forgettingRun.take 8)
    (forgettingRun.drop 9) (by decide) (by decide) (by decide) (by decide) (fun _ => "")
  have hnil : ((system soloHost).after (State.init soloHost) forgettingRun).errs = [] := by
    decide
  obtain ⟨err, herr, -⟩ := hnamed
  rw [hnil] at herr
  cases herr

/-- The service fails and its exit is queued; then `Shutdown` is called, and the
select takes that. -/
def rememberingRun : List Action :=
  [.host (.run .enter), .host (.run (.launch 0)), .host (.run (.lookReadier 0)),
    .host (.run (.started 1)), .sup 0 .start,
    .sup 0 (.result 0 (.returned (some (newError "lost")))),
    .sup 0 (.check 0 (some (newError "lost"))),
    .sup 0 (.sendDone (some (newError "lost")) true),
    .sup 0 (.sendExit (some (newError "lost"))), .env .shutdown,
    .host (.run .takeShutdown), .host (.run .beginStopping), .host (.stop .enter),
    .host (.stop (.cancel 0)), .host (.stop (.issue 0 0)), .stopper 0 .call,
    .stopper 0 (.result (.returned none)), .host (.stop (.takeStop 0 0 none)),
    .host (.stop (.takeDone 0 0 none (some (newError "lost")))), .host (.stop .leave),
    .host (.run .join), .host (.run .ret)]

theorem exits_reported_rememberingRun :
    NoExitForgotten soloHost rememberingRun
      ((system soloHost).after (State.init soloHost) rememberingRun) :=
  exits_reported (Lts.Admits.run (by decide))

end Shost.Ports.Hosting
