import Shost.Ports.HostSteps
import Shost.Ports.HostSystem

/-!
# What the host goroutine has done, from where it stands

The variables of the host loop are changed by the host goroutine alone, so
what they say about its history is an invariant of its own steps.  This file
states these invariants: `Placed` relates the variables to the place, and the
theorems after it read off the history which services have been launched,
canceled and told to stop, in which order.

## Main results

* `placed_of_run` — the variables fit the place.
* `launches_eq`, `cancels_eq`, `issues_eq` — the launches, cancellations and
  calls of `Stop` so far, as lists.
-/

namespace Shost.Ports.Hosting

open Shost.Verified

variable {h : Host} {ok : State h → Action → Prop} {τ : List Action} {s : State h}

/-- The steps of the host goroutine in a history. -/
def hostActs (τ : List Action) : List HostAct :=
  τ.filterMap fun
    | .host a => some a
    | _ => none

theorem mem_hostActs {a : HostAct} : a ∈ hostActs τ ↔ .host a ∈ τ := by
  constructor
  · intro ha
    obtain ⟨b, hb, hba⟩ := List.mem_filterMap.mp ha
    cases b <;> simp_all
  · intro ha
    exact List.mem_filterMap.mpr ⟨_, ha, rfl⟩

@[simp] theorem hostActs_append (τ τ' : List Action) :
    hostActs (τ ++ τ') = hostActs τ ++ hostActs τ' := List.filterMap_append

@[simp] theorem hostActs_host (a : HostAct) : hostActs [.host a] = [a] := rfl

theorem hostCan_of_guard {a : HostAct} (hg : (system h).guard s (.host a) = true) :
    hostCan s a = true := (Bool.and_eq_true_iff.mp hg).2

/-- `runStartupTasks` changes its place, the errors and whether the startup goes on. -/
theorem taskEffect_frame (s : State h) (a : TaskAct) :
    ∃ pc errs aborted,
      taskEffect s a = { s with pc := pc, errs := errs, startupAborted := aborted } := by
  cases a with
  | result k o ctxDone =>
      cases hres : safeTask o with
      | none => exact ⟨_, _, _, by rw [taskEffect, hres]; rfl⟩
      | some err =>
          by_cases hclean : err.canceled = true ∧ ctxDone = true
          · exact ⟨_, _, _, by simp only [taskEffect, hres, if_pos hclean, abortStartup]; rfl⟩
          · exact ⟨_, _, _, by simp only [taskEffect, hres, if_neg hclean, abortStartup]; rfl⟩
  | _ => exact ⟨_, _, _, rfl⟩

/-- `stopAll` changes its place, the errors, its deadline, the calls to be made and
what belongs to the services. -/
theorem stopEffect_frame (s : State h) (a : StopAct) :
    ∃ pc errs caller stopDue svc, stopEffect s a =
      { s with pc := pc, errs := errs, caller := caller, stopDue := stopDue, svc := svc } := by
  cases a with
  | takeStop i began r => cases r <;> exact ⟨_, _, _, _, _, rfl⟩
  | takeDone i began svcErr r =>
      simp only [stopEffect]
      split <;> exact ⟨_, _, _, _, _, rfl⟩
  | _ => exact ⟨_, _, _, _, _, rfl⟩

/-- Steps of other goroutines and of the surroundings leave the loop alone. -/
theorem loop_other (s : State h) (a : Action) (ha : ∀ b, a ≠ .host b) :
    ((system h).effect s a).loop = s.loop ∧ hostActs [a] = [] := by
  cases a with
  | host b => exact absurd rfl (ha b)
  | env a => cases a <;> exact ⟨rfl, rfl⟩
  | watch e => exact ⟨rfl, rfl⟩
  | call who a => cases who <;> cases a <;> exact ⟨rfl, rfl⟩
  | sup i a => cases a <;> exact ⟨rfl, rfl⟩
  | stopper i a => cases a <;> exact ⟨rfl, rfl⟩

/-- Induction for a property of the host loop and its own steps. -/
theorem loop_invariant (I : List HostAct → LoopVars → Prop)
    (h₀ : I [] (State.init h).loop)
    (hstep : ∀ τ (s : State h) a v', RunIf h ok τ s → I (hostActs τ) s.loop →
      HostStep h a s.loop v' → I (hostActs τ ++ [a]) v')
    (hr : RunIf h ok τ s) : I (hostActs τ) s.loop := by
  refine hr.invariant (fun (τ : List Action) (s : State h) => I (hostActs τ) s.loop) h₀ ?_
  intro τ s a hr ih _ hg
  rw [hostActs_append]
  by_cases ha : ∃ b, a = .host b
  · obtain ⟨b, rfl⟩ := ha
    exact hstep τ s b _ hr ih (hostStep_of_can (hostCan_of_guard hg))
  · have hother := loop_other s a fun b hb => ha ⟨b, hb⟩
    rw [hother.1, hother.2, List.append_nil]
    exact ih

/-! ## The variables fit the place -/

/-- The launch loop has ended: all services are launched, unless the startup was
aborted. -/
def LaunchDone (h : Host) (launched : Nat) (aborted : Bool) : Prop :=
  launched ≤ h.services.length ∧ (aborted = false → launched = h.services.length)

/-- What the variables of the host loop are at each place. -/
def Placed (h : Host) (v : LoopVars) : Prop :=
  match v.pc with
  | .entry | .taskHead _ | .inTask _ =>
      v.launched = 0 ∧ v.startupAborted = false ∧ v.stoppingCh = false ∧ v.causeIndex = none
  | .launchHead k =>
      v.launched = k ∧ k ≤ h.services.length ∧ (v.startupAborted = true → k = 0) ∧
        v.stoppingCh = false ∧ v.causeIndex = none
  | .readierCheck k =>
      v.launched = k + 1 ∧ k < h.services.length ∧ v.startupAborted = false ∧
        v.stoppingCh = false ∧ v.causeIndex = none
  | .waitReady k =>
      v.launched = k + 1 ∧ k < h.services.length ∧ v.startupAborted = false ∧
        v.stoppingCh = false ∧ v.causeIndex = none
  | .mainSelect =>
      v.launched = h.services.length ∧ v.startupAborted = false ∧
        v.stoppingCh = false ∧ v.causeIndex = none
  | .stopping => LaunchDone h v.launched v.startupAborted ∧ v.stoppingCh = false
  | .stopAll | .join | .ret | .returned => LaunchDone h v.launched v.startupAborted ∧ v.stoppingCh = true
  | .stopNext n => n ≤ v.launched ∧ LaunchDone h v.launched v.startupAborted ∧ v.stoppingCh = true
  | .issueStop i _ | .waitStop i _ | .waitDone i _ _ =>
      i < v.launched ∧ LaunchDone h v.launched v.startupAborted ∧ v.stoppingCh = true

theorem TaskStep.placed {a : TaskAct} {v v' : LoopVars} (hstep : TaskStep h a v v')
    (hp : Placed h v) : Placed h v' := by
  cases hstep with
  | call v | done v => exact hp
  | canceled v | aborted v | failed v | allDone v =>
      obtain ⟨hlaunched, -, hstopping, hcause⟩ := hp
      exact ⟨hlaunched, Nat.zero_le _, fun _ => rfl, hstopping, hcause⟩

theorem RunStep.placed {a : RunAct} {v v' : LoopVars} (hstep : RunStep h a v v')
    (hp : Placed h v) : Placed h v' := by
  cases hstep with
  | noTasks v =>
      obtain ⟨hlaunched, -, hstopping, hcause⟩ := hp
      exact ⟨hlaunched, Nat.zero_le _, fun _ => rfl, hstopping, hcause⟩
  | launch v hk =>
      obtain ⟨hlaunched, -, -, hstopping, hcause⟩ := hp
      exact ⟨congrArg Nat.succ hlaunched, hk, rfl, hstopping, hcause⟩
  | noReadier v | ready v =>
      obtain ⟨hlaunched, hk, haborted, hstopping, hcause⟩ := hp
      have hgoes : v.startupAborted ≠ true := Bool.eq_false_iff.mp haborted
      exact ⟨hlaunched, hk, fun habort => absurd habort hgoes, hstopping, hcause⟩
  | startTimeout v | readyCtx v | readyShutdown v | readyExit v =>
      obtain ⟨hlaunched, hk, -, hstopping, -⟩ := hp
      exact ⟨⟨hlaunched.trans_le hk, nofun⟩, hstopping⟩
  | mainCtx v | mainShutdown v | mainExit v =>
      obtain ⟨hlaunched, -, hstopping, -⟩ := hp
      exact ⟨⟨hlaunched.le, fun _ => hlaunched⟩, hstopping⟩
  | abortLaunch v =>
      obtain ⟨hlaunched, hk, -, hstopping, -⟩ := hp
      exact ⟨⟨hlaunched.trans_le hk, nofun⟩, hstopping⟩
  | started v hk =>
      obtain ⟨hlaunched, hle, -, hstopping, hcause⟩ := hp
      exact ⟨hlaunched.trans (hle.antisymm hk), rfl, hstopping, hcause⟩
  | beginStopping v => exact ⟨hp.1, rfl⟩
  | tasks v | readier v | join v | ret v => exact hp

theorem StopStep.placed {a : StopAct} {v v' : LoopVars} (hstep : StopStep a v v')
    (hp : Placed h v) : Placed h v' := by
  cases hstep with
  | enter v => exact ⟨Nat.le_refl _, hp⟩
  | cancel v | issue v | takeStop v => exact hp
  | takeDone v | abandonStop v | abandonDone v => exact ⟨hp.1.le, hp.2⟩
  | leave v => exact hp.2

/-- A step of the host goroutine keeps the variables in place. -/
theorem HostStep.placed {a : HostAct} {v v' : LoopVars} (hstep : HostStep h a v v')
    (hp : Placed h v) : Placed h v' := by
  cases hstep with
  | task hstep => exact hstep.placed hp
  | run hstep => exact hstep.placed hp
  | stop hstep => exact hstep.placed hp

/-- The variables of the host loop fit its place in every run. -/
theorem placed_of_run (hr : RunIf h ok τ s) : Placed h s.loop := by
  refine loop_invariant (fun _ v => Placed h v) ?_ (fun _ _ _ _ _ hp hstep => hstep.placed hp) hr
  exact ⟨rfl, rfl, rfl, rfl⟩

/-- Induction for a property of the host loop, with its variables in place. -/
theorem placed_invariant (I : List HostAct → LoopVars → Prop)
    (h₀ : I [] (State.init h).loop)
    (hstep : ∀ η v v' a, Placed h v → I η v → HostStep h a v v' → I (η ++ [a]) v')
    (hr : RunIf h ok τ s) : I (hostActs τ) s.loop :=
  loop_invariant I h₀
    (fun τ s a v' hr hI ha => hstep (hostActs τ) s.loop v' a (placed_of_run hr) hI ha) hr

theorem Placed.launched_le {v : LoopVars} (hp : Placed h v) :
    v.launched ≤ h.services.length := by
  cases v with
  | mk pc errs causeIndex launched aborted stoppingCh =>
      change launched ≤ h.services.length
      cases pc <;> simp only [Placed, LaunchDone] at hp <;> omega

/-! ## Launches, cancellations and calls of `Stop` -/

/-- The services launched, in order. -/
def launches (η : List HostAct) : List Nat :=
  η.filterMap fun
    | .run (.launch k) => some k
    | _ => none

theorem mem_launches {k : Nat} {η : List HostAct} :
    k ∈ launches η ↔ .run (.launch k) ∈ η := by
  simp only [launches, List.mem_filterMap]
  constructor
  · rintro ⟨a, ha, hak⟩
    split at hak <;> simp_all
  · intro hk
    exact ⟨_, hk, rfl⟩

/-- The services that the steps of `stopAll` picked out by `pick` are about,
in order. -/
def stopLog (pick : StopAct → Option Nat) (η : List HostAct) : List Nat :=
  η.filterMap fun
    | .stop a => pick a
    | _ => none

/-- The services whose context was canceled, in order. -/
def cancels : List HostAct → List Nat :=
  stopLog fun
    | .cancel i => some i
    | _ => none

/-- The services whose `Stop` was issued, in order. -/
def issues : List HostAct → List Nat :=
  stopLog fun
    | .issue i _ => some i
    | _ => none

/-- The services that were settled, in order: the result of `Start` was
collected after that of `Stop`, or the service was abandoned. -/
def settles : List HostAct → List Nat :=
  stopLog fun
    | .takeDone i _ _ _ => some i
    | .abandon i _ => some i
    | _ => none

theorem mem_stopLog {pick : StopAct → Option Nat} {i : Nat} {η : List HostAct} :
    i ∈ stopLog pick η ↔ ∃ a, .stop a ∈ η ∧ pick a = some i := by
  simp only [stopLog, List.mem_filterMap]
  constructor
  · rintro ⟨a, ha, hai⟩
    split at hai
    · rename_i b
      exact ⟨b, ha, hai⟩
    · cases hai
  · rintro ⟨a, ha, hai⟩
    exact ⟨_, ha, hai⟩

theorem mem_issues {i : Nat} {η : List HostAct} :
    i ∈ issues η ↔ ∃ began, .stop (.issue i began) ∈ η := by
  rw [issues, mem_stopLog]
  constructor
  · rintro ⟨a, ha, hai⟩
    split at hai <;> simp_all
    exact ⟨_, ha⟩
  · rintro ⟨began, hi⟩
    exact ⟨_, hi, rfl⟩

theorem mem_settles {i : Nat} {η : List HostAct} :
    i ∈ settles η ↔ (∃ began svcErr r, .stop (.takeDone i began svcErr r) ∈ η) ∨
      ∃ began, .stop (.abandon i began) ∈ η := by
  rw [settles, mem_stopLog]
  constructor
  · rintro ⟨a, ha, hai⟩
    split at hai
    · obtain rfl : _ = i := by simpa using hai
      exact Or.inl ⟨_, _, _, ha⟩
    · obtain rfl : _ = i := by simpa using hai
      exact Or.inr ⟨_, ha⟩
    · cases hai
  · rintro (⟨began, svcErr, r, hi⟩ | ⟨began, hi⟩)
    · exact ⟨_, hi, rfl⟩
    · exact ⟨_, hi, rfl⟩

/-- The place is before the end of the startup. -/
def HostPC.inStartup : HostPC → Bool
  | .entry | .taskHead _ | .inTask _ | .launchHead _ | .readierCheck _ | .waitReady _ => true
  | _ => false

/-- The place is before the loop of `stopAll`. -/
def HostPC.beforeLoop : HostPC → Bool
  | .stopNext _ | .issueStop _ _ | .waitStop _ _ | .waitDone _ _ _
  | .join | .ret | .returned => false
  | _ => true

/-- The place is behind the loop of `stopAll`. -/
def HostPC.afterLoop : HostPC → Bool
  | .join | .ret | .returned => true
  | _ => false

/-- How many services have yet to be canceled. -/
def HostPC.toCancel (launched : Nat) : HostPC → Nat
  | .stopNext n => n
  | .issueStop i _ | .waitStop i _ | .waitDone i _ _ => i
  | .join | .ret | .returned => 0
  | _ => launched

/-- How many services have yet to be told to stop. -/
def HostPC.toIssue (launched : Nat) : HostPC → Nat
  | .stopNext n => n
  | .issueStop i _ => i + 1
  | .waitStop i _ | .waitDone i _ _ => i
  | .join | .ret | .returned => 0
  | _ => launched

/-- How many services have yet to be settled. -/
def HostPC.toSettle (launched : Nat) : HostPC → Nat
  | .stopNext n => n
  | .issueStop i _ | .waitStop i _ | .waitDone i _ _ => i + 1
  | .join | .ret | .returned => 0
  | _ => launched

theorem HostPC.before_counts {pc : HostPC} (hpc : pc.beforeLoop = true) (n : Nat) :
    pc.toCancel n = n ∧ pc.toIssue n = n ∧ pc.toSettle n = n := by
  cases pc with
  | stopNext | issueStop | waitStop | waitDone | join | ret | returned => cases hpc
  | _ => exact ⟨rfl, rfl, rfl⟩

theorem HostPC.after_counts {pc : HostPC} (hpc : pc.afterLoop = true) (n : Nat) :
    pc.toCancel n = 0 ∧ pc.toIssue n = 0 ∧ pc.toSettle n = 0 := by
  cases pc with
  | join | ret | returned => exact ⟨rfl, rfl, rfl⟩
  | _ => cases hpc

theorem HostPC.selects_before {pc : HostPC} (hpc : pc.selects = true) :
    pc.beforeLoop = true := by
  cases pc with
  | waitReady | mainSelect => rfl
  | _ => cases hpc

@[simp] theorem launched_stop (s : State h) (a : StopAct) :
    (stopEffect s a).launched = s.launched := by
  obtain ⟨pc, errs, caller, stopDue, svc, hstop⟩ := stopEffect_frame s a
  rw [hstop]

@[simp] theorem pc_takeDone (s : State h) (i : Nat) (began : Int) (svcErr r : Result) :
    (stopEffect s (.takeDone i began svcErr r)).pc = .stopNext i := by
  simp only [stopEffect]
  split <;> rfl

/-- `runStartupTasks` is part of the startup. -/
theorem TaskStep.inStartup {a : TaskAct} {v v' : LoopVars} (hstep : TaskStep h a v v') :
    v.pc.inStartup = true ∧ v'.pc.inStartup = true := by
  cases hstep <;> exact ⟨rfl, rfl⟩

/-- Steps that are not of `stopAll` stay on their side of its loop. -/
theorem HostStep.outside_loop {a : HostAct} {v v' : LoopVars} (hstep : HostStep h a v v')
    (ha : ∀ b, a ≠ .stop b) :
    (v.pc.beforeLoop = true ∧ v'.pc.beforeLoop = true) ∨
      (v.pc.afterLoop = true ∧ v'.pc.afterLoop = true ∧ v'.launched = v.launched) := by
  cases hstep with
  | task hstep => cases hstep <;> exact Or.inl ⟨rfl, rfl⟩
  | run hstep =>
      cases hstep with
      | join v | ret v => exact Or.inr ⟨rfl, rfl, rfl⟩
      | _ => exact Or.inl ⟨rfl, rfl⟩
  | stop hstep => exact absurd rfl (ha _)

/-- `RunContext` returns in one step. -/
theorem HostStep.eq_ret {a : HostAct} {v v' : LoopVars} (hstep : HostStep h a v v')
    (hpc : v'.pc = .returned) : a = .run .ret := by
  cases hstep with
  | task hstep => cases hstep <;> cases hpc
  | run hstep =>
      cases hstep with
      | ret v => rfl
      | _ => cases hpc
  | stop hstep => cases hstep <;> cases hpc

/-- Behind its return the host goroutine takes no step. -/
theorem HostStep.not_returned {a : HostAct} {v v' : LoopVars} (hstep : HostStep h a v v') :
    v.pc ≠ .returned := by
  cases hstep with
  | task hstep => cases hstep <;> exact nofun
  | run hstep => cases hstep <;> exact nofun
  | stop hstep => cases hstep <;> exact nofun

theorem launches_eq (hr : RunIf h ok τ s) :
    launches (hostActs τ) = List.range s.launched := by
  refine placed_invariant (fun η v => launches η = List.range v.launched) rfl ?_ hr
  intro η v v' a hp ih hstep
  rw [launches, List.filterMap_append, ← launches, ih]
  cases hstep with
  | task hstep => cases hstep <;> exact List.append_nil _
  | stop hstep => cases hstep <;> exact List.append_nil _
  | run hstep =>
      cases hstep with
      | launch v hk =>
          obtain rfl : v.launched = _ := hp.1
          exact List.range_succ.symm
      | _ => exact List.append_nil _

/-- The services from the last launched one down to `i`. -/
def lastDownTo (i launched : Nat) : List Nat := ((List.range launched).drop i).reverse

@[simp] theorem lastDownTo_self (n : Nat) : lastDownTo n n = [] := by
  simp [lastDownTo]

theorem mem_lastDownTo {i j n : Nat} : j ∈ lastDownTo i n ↔ i ≤ j ∧ j < n := by
  rw [lastDownTo, List.mem_reverse, List.mem_drop_iff_getElem]
  constructor
  · rintro ⟨k, hk, rfl⟩
    rw [List.length_range] at hk
    simp
    omega
  · rintro ⟨hij, hj⟩
    exact ⟨j - i, by simp; omega, by simp; omega⟩

theorem lastDownTo_pred {i n : Nat} (hi : i < n) :
    lastDownTo i n = lastDownTo (i + 1) n ++ [i] := by
  rw [lastDownTo, List.drop_eq_getElem_cons (by simpa using hi)]
  simp [lastDownTo]

/-- A log of `stopAll` that gains service `i` exactly when the count of the
services still to come falls to `i` lists the launched services from the last
one down to the count. -/
private theorem countdown (pick : StopAct → Option Nat) (count : Nat → HostPC → Nat)
    (hbefore : ∀ n pc, pc.beforeLoop = true → count n pc = n)
    (hafter : ∀ n pc, pc.afterLoop = true → count n pc = 0)
    (hstop : ∀ a v v', Placed h v → StopStep a v v' →
      lastDownTo (count v'.launched v'.pc) v'.launched =
        lastDownTo (count v.launched v.pc) v.launched ++ (pick a).toList)
    (hr : RunIf h ok τ s) :
    stopLog pick (hostActs τ) = lastDownTo (count s.launched s.pc) s.launched := by
  refine placed_invariant
    (fun η v => stopLog pick η = lastDownTo (count v.launched v.pc) v.launched) ?_ ?_ hr
  · rw [hbefore _ _ rfl, lastDownTo_self]
    rfl
  · intro η v v' a hp ih hstep
    rw [stopLog, List.filterMap_append, ← stopLog, ih]
    by_cases ha : ∃ b, a = .stop b
    · obtain ⟨b, rfl⟩ := ha
      cases hstep with
      | stop hstep =>
          rw [hstop b v v' hp hstep]
          cases hpick : pick b <;> simp [hpick]
    · have hother : ∀ b, a ≠ .stop b := fun b hb => ha ⟨b, hb⟩
      have hlog : stopLog pick [a] = [] := by
        cases a with
        | stop b => exact absurd rfl (hother b)
        | task a => rfl
        | run a => rfl
      rw [← stopLog, hlog, List.append_nil]
      rcases hstep.outside_loop hother with ⟨hpc, hpc'⟩ | ⟨hpc, hpc', hlaunched⟩
      · rw [hbefore _ _ hpc, hbefore _ _ hpc', lastDownTo_self, lastDownTo_self]
      · rw [hafter _ _ hpc, hafter _ _ hpc', hlaunched]

/-- The cancellations so far: the launched services from the last one down. -/
theorem cancels_eq (hr : RunIf h ok τ s) :
    cancels (hostActs τ) = lastDownTo (s.pc.toCancel s.launched) s.launched := by
  refine countdown _ HostPC.toCancel (fun n _ hpc => (HostPC.before_counts hpc n).1)
    (fun n _ hpc => (HostPC.after_counts hpc n).1) ?_ hr
  intro a v v' hp hstep
  cases hstep with
  | cancel v => exact lastDownTo_pred hp.1
  | _ => exact (List.append_nil _).symm

/-- The calls of `Stop` so far: the launched services from the last one down. -/
theorem issues_eq (hr : RunIf h ok τ s) :
    issues (hostActs τ) = lastDownTo (s.pc.toIssue s.launched) s.launched := by
  refine countdown _ HostPC.toIssue (fun n _ hpc => (HostPC.before_counts hpc n).2.1)
    (fun n _ hpc => (HostPC.after_counts hpc n).2.1) ?_ hr
  intro a v v' hp hstep
  cases hstep with
  | issue v => exact lastDownTo_pred hp.1
  | _ => exact (List.append_nil _).symm

/-- The services settled so far: the launched services from the last one down. -/
theorem settles_eq (hr : RunIf h ok τ s) :
    settles (hostActs τ) = lastDownTo (s.pc.toSettle s.launched) s.launched := by
  refine countdown _ HostPC.toSettle (fun n _ hpc => (HostPC.before_counts hpc n).2.2)
    (fun n _ hpc => (HostPC.after_counts hpc n).2.2) ?_ hr
  intro a v v' hp hstep
  cases hstep with
  | takeDone v | abandonStop v | abandonDone v => exact lastDownTo_pred hp.1
  | _ => exact (List.append_nil _).symm

/-! ## Shutdown triggers -/

/-- The host goroutine changes neither the clock nor the triggers. -/
theorem surroundings_hostEffect (s : State h) (a : HostAct) :
    (hostEffect s a).ctx = s.ctx ∧ (hostEffect s a).shutdownCh = s.shutdownCh ∧
      (hostEffect s a).now = s.now := by
  cases a with
  | task a =>
      obtain ⟨pc, errs, aborted, htask⟩ := taskEffect_frame s a
      rw [hostEffect, htask]
      exact ⟨rfl, rfl, rfl⟩
  | run a => cases a <;> exact ⟨rfl, rfl, rfl⟩
  | stop a =>
      obtain ⟨pc, errs, caller, stopDue, svc, hstop⟩ := stopEffect_frame s a
      rw [hostEffect, hstop]
      exact ⟨rfl, rfl, rfl⟩

/-- The context of `RunContext` is done when it was canceled or has expired. -/
theorem ctx_iff (hr : RunIf h ok τ s) :
    s.ctx.isSome = true ↔ ∃ e, .env (.cancelCtx e) ∈ τ := by
  refine hr.invariant (fun (τ : List Action) (s : State h) =>
    s.ctx.isSome = true ↔ ∃ e, .env (.cancelCtx e) ∈ τ) ?_ ?_
  · simp [State.init]
  · intro τ s a _ ih _ _
    simp only [List.mem_append, exists_or, ← ih]
    cases a with
    | env a => cases a <;> simp [system, envEffect]
    | watch e => simp [system]
    | call who a => cases who <;> cases a <;> simp [system, callEffect, State.setCaller]
    | host a => simp [system, (surroundings_hostEffect s a).1]
    | sup i a => cases a <;> simp [system, supEffect]
    | stopper i a => cases a <;> simp [system, stopperEffect]

/-- `shutdownCh` is closed by `Shutdown`. -/
theorem shutdownCh_iff (hr : RunIf h ok τ s) :
    s.shutdownCh = true ↔ .env .shutdown ∈ τ := by
  refine hr.invariant (fun (τ : List Action) (s : State h) =>
    s.shutdownCh = true ↔ .env .shutdown ∈ τ) ?_ ?_
  · simp [State.init]
  · intro τ s a _ ih _ _
    simp only [List.mem_append, ← ih]
    cases a with
    | env a => cases a <;> simp [system, envEffect]
    | watch e => simp [system]
    | call who a => cases who <;> cases a <;> simp [system, callEffect, State.setCaller]
    | host a => simp [system, (surroundings_hostEffect s a).2.1]
    | sup i a => cases a <;> simp [system, supEffect]
    | stopper i a => cases a <;> simp [system, stopperEffect]

end Shost.Ports.Hosting
