import Shost.Ports.HostErrors
import Shost.Ports.HostProgress

/-!
# The start timer

`WithStartTimeout` is to bound the total time spent waiting for the readiness of
services.  The timer is created on entry of `RunContext`, before the startup tasks, and
runs through the tasks, the launches and the callbacks as well.

## Main results

* `elapsed_of_run` — when the timer runs out, the time since then and the start
  timeout make up the time waited and the time spent elsewhere.
* `notReady_without_wait` — a run that reports a service as not ready without
  having waited for it.
* `readinessOnly_iff` — the report is made after enough waiting in the runs in which no
  time passes elsewhere in the startup while the timer is running and a service may still
  be waited for, and any other passing of time can lead to a report too early.
-/

namespace Shost.Ports.Hosting

open Shost.Verified Trace

variable {h : Host} {ok : State h → Action → Prop} {τ : List Action} {s : State h}

/-- How long an action takes. -/
def Action.duration : Action → Duration
  | .env (.tick d) => d
  | _ => 0

/-- The host goroutine is in a readiness select. -/
def HostPC.inReadiness : HostPC → Bool
  | .waitReady _ => true
  | _ => false

/-- The host goroutine is in the startup, but not in a readiness select. -/
def HostPC.elsewhere : HostPC → Bool
  | .taskHead _ | .inTask _ | .launchHead _ | .readierCheck _ => true
  | _ => false

/-- The total time spent in the readiness selects. -/
def waited (h : Host) (τ : List Action) : Duration :=
  (system h).spent (fun s => s.pc.inReadiness) Action.duration (State.init h) τ

/-- The total time the startup has spent outside the readiness selects. -/
def spentElsewhere (h : Host) (τ : List Action) : Duration :=
  (system h).spent (fun s => s.pc.elsewhere) Action.duration (State.init h) τ

/-- The host reports that a service was not ready within the start timeout only
when it has waited that long for the readiness of services. -/
def ReadinessOnly (h : Host) (τ : List Action) (s : State h) : Prop :=
  ∀ i, .notReady i ∈ s.errs → h.startTimeout ≤ waited h τ

/-- A service from a position on implements `Readier`. -/
def Host.readierFrom (h : Host) (k : Nat) : Bool := (h.services.drop k).any Registration.readier

/-- The host goroutine is in a readiness select or can still come to one: no task that
is left will be canceled, the startup is not aborted, and a service that implements
`Readier` is left. -/
def State.mayWait (s : State h) : Bool :=
  match s.pc with
  | .taskHead k => decide (h.tasks.length ≤ k ∨ s.taskCtx = none) && h.readierFrom 0
  | .inTask k => decide (h.tasks.length ≤ k + 1 ∨ s.taskCtx = none) && h.readierFrom 0
  | .launchHead k => !s.startupAborted && h.readierFrom k
  | .readierCheck k => h.readierFrom k
  | .waitReady _ => true
  | _ => false

/-- The start timer has been set and has not run out. -/
def State.timerRuns (s : State h) : Bool := s.startDue.any fun due => decide (s.now < due)

/-- While the start timer is running and a service may still be waited for, no time
passes in the startup but in the readiness selects. -/
def OnlyWaiting (s : State h) (a : Action) : Prop :=
  0 < a.duration → s.pc.elsewhere = true → s.timerRuns = true → s.mayWait = false

instance (s : State h) (a : Action) : Decidable (OnlyWaiting s a) :=
  inferInstanceAs (Decidable (_ → _))

theorem waited_snoc (hr : RunIf h ok τ s) (a : Action) :
    waited h (τ ++ [a]) = waited h τ + if s.pc.inReadiness then a.duration else 0 :=
  hr.spent_snoc _ _ a

theorem spentElsewhere_snoc (hr : RunIf h ok τ s) (a : Action) :
    spentElsewhere h (τ ++ [a]) =
      spentElsewhere h τ + if s.pc.elsewhere then a.duration else 0 :=
  hr.spent_snoc _ _ a

/-- Behind the entry the startup is either in a readiness select or elsewhere. -/
theorem HostPC.inStartup_cases {pc : HostPC} (hpc : pc.inStartup = true) :
    pc = .entry ∨ (pc.inReadiness = true ∧ pc.elsewhere = false) ∨
      (pc.inReadiness = false ∧ pc.elsewhere = true) := by
  cases pc <;> simp_all [HostPC.inStartup, HostPC.inReadiness, HostPC.elsewhere]

theorem HostPC.inReadiness_of_left {pc : HostPC} (hpc : pc.inStartup = false) :
    pc.inReadiness = false := by
  cases pc <;> simp_all [HostPC.inStartup, HostPC.inReadiness]

/-! ## The clock and the timer -/

/-- What passes the time. -/
theorem now_step (s : State h) (a : Action) :
    ((system h).effect s a).now = s.now + a.duration := by
  cases a with
  | env a => cases a <;> simp [system, envEffect, Action.duration]
  | watch e => simp [system, Action.duration]
  | call who a =>
      cases who <;> cases a <;> simp [system, callEffect, State.setCaller, Action.duration]
  | host a => simp [system, (surroundings_hostEffect s a).2.2, Action.duration]
  | sup i a => cases a <;> simp [system, supEffect, Action.duration]
  | stopper i a => cases a <;> simp [system, stopperEffect, Action.duration]

/-- The timer is set on entry. -/
theorem startDue_step (s : State h) (a : Action) (ha : a ≠ .host (.run .enter)) :
    ((system h).effect s a).startDue = s.startDue := by
  cases a with
  | env a => cases a <;> rfl
  | watch e => rfl
  | call who a => cases who <;> cases a <;> rfl
  | sup i a => cases a <;> rfl
  | stopper i a => cases a <;> rfl
  | host a =>
      cases a with
      | task a =>
          obtain ⟨pc, errs, aborted, htask⟩ := taskEffect_frame s a
          simp [system, hostEffect, htask]
      | run a =>
          cases a with
          | enter => exact absurd rfl ha
          | _ => rfl
      | stop a =>
          obtain ⟨pc, errs, caller, stopDue, svc, hstop⟩ := stopEffect_frame s a
          simp [system, hostEffect, hstop]

/-- `RunContext` is entered once. -/
private theorem pc_of_enter (hg : (system h).guard s (.host (.run .enter)) = true) :
    s.pc = .entry := by
  have hcan : runGuard s .enter = true := hostCan_of_guard hg
  simpa [runGuard] using hcan

/-- Only `enter` leaves the entry, and nothing returns to it or to the startup. -/
private theorem inStartup_host {a : HostAct} {v v' : LoopVars} (hstep : HostStep h a v v')
    (ha : a ≠ .run .enter) :
    v.pc ≠ .entry ∧ v'.pc ≠ .entry ∧ (v.pc.inStartup = false → v'.pc.inStartup = false) := by
  cases hstep with
  | task hstep => cases hstep <;> exact ⟨nofun, nofun, nofun⟩
  | run hstep =>
      cases hstep with
      | tasks v | noTasks v => exact absurd rfl ha
      | launch v | readier v | noReadier v | ready v => exact ⟨nofun, nofun, nofun⟩
      | _ => exact ⟨nofun, nofun, fun _ => rfl⟩
  | stop hstep => cases hstep <;> exact ⟨nofun, nofun, fun _ => rfl⟩

theorem inStartup_step (s : State h) (a : Action) (hg : (system h).guard s a = true)
    (ha : a ≠ .host (.run .enter)) :
    (((system h).effect s a).pc = .entry ↔ s.pc = .entry) ∧
      (s.pc.inStartup = false → ((system h).effect s a).pc.inStartup = false) := by
  by_cases hb : ∃ b, a = .host b
  · obtain ⟨b, rfl⟩ := hb
    have hstep := hostStep_of_can (hostCan_of_guard hg)
    obtain ⟨hbefore, hafter, hstartup⟩ := inStartup_host hstep fun hb => ha (hb ▸ rfl)
    exact ⟨iff_of_false hafter hbefore, hstartup⟩
  · have hloop := (loop_other s a fun b hab => hb ⟨b, hab⟩).1
    have hpc : ((system h).effect s a).pc = s.pc := congrArg LoopVars.pc hloop
    rw [hpc]
    exact ⟨Iff.rfl, id⟩

/-- The start timer fits the time spent since the entry. -/
structure Timed (h : Host) (τ : List Action) (s : State h) : Prop where
  at_entry : s.pc = .entry → waited h τ = 0 ∧ spentElsewhere h τ = 0
  since_entry : s.pc ≠ .entry → s.pc.inStartup = true → ∀ due ∈ s.startDue,
    s.now + h.startTimeout = due + waited h τ + spentElsewhere h τ

private theorem timed_enter (hr : RunIf h ok τ s) (ht : Timed h τ s)
    (hpc : s.pc = .entry) :
    Timed h (τ ++ [.host (.run .enter)]) (runEffect s .enter) where
  at_entry := by
    intro hentry
    by_cases htasks : h.tasks = [] <;> simp [runEffect, htasks] at hentry
  since_entry := by
    intro _ _ due hdue
    have hzero := ht.at_entry hpc
    rw [waited_snoc hr, spentElsewhere_snoc hr, hzero.1, hzero.2]
    by_cases hpos : h.startTimeout > 0
    · simp only [runEffect, if_pos hpos, Option.mem_def, Option.some.injEq] at hdue
      simp [runEffect, Action.duration, ← hdue]
    · simp [runEffect, hpos] at hdue

private theorem timed_other (hr : RunIf h ok τ s) (ht : Timed h τ s) {a : Action}
    (hg : (system h).guard s a = true) (ha : a ≠ .host (.run .enter)) :
    Timed h (τ ++ [a]) ((system h).effect s a) where
  at_entry := by
    intro hpc
    have hbefore := (inStartup_step s a hg ha).1.mp hpc
    have hzero := ht.at_entry hbefore
    rw [waited_snoc hr, spentElsewhere_snoc hr, hzero.1, hzero.2, hbefore]
    exact ⟨rfl, rfl⟩
  since_entry := by
    intro hpc hstartup due hdue
    obtain ⟨hentry, hleft⟩ := inStartup_step s a hg ha
    have hne : s.pc ≠ .entry := fun hbefore => hpc (hentry.mpr hbefore)
    have hin : s.pc.inStartup = true := by
      by_contra hout
      simp [hleft (Bool.eq_false_of_not_eq_true hout)] at hstartup
    rw [startDue_step s a ha] at hdue
    have htimed := ht.since_entry hne hin due hdue
    rw [waited_snoc hr, spentElsewhere_snoc hr, now_step]
    -- the time passes in exactly one of the two counts
    rcases HostPC.inStartup_cases hin with hbefore | ⟨hready, helse⟩ | ⟨hready, helse⟩
    · exact absurd hbefore hne
    · simp only [hready, helse, Bool.false_eq_true, ↓reduceIte]
      omega
    · simp only [hready, helse, Bool.false_eq_true, ↓reduceIte]
      omega

/-- When the timer is running, the time since the entry is the time waited and
the time spent elsewhere. -/
theorem elapsed_of_run (hr : RunIf h ok τ s) : Timed h τ s := by
  refine hr.invariant (fun (τ : List Action) (s : State h) => Timed h τ s) ?_ ?_
  · exact ⟨fun _ => ⟨rfl, rfl⟩, fun hpc => absurd rfl hpc⟩
  · intro τ s a hr ih _ hg
    by_cases ha : a = .host (.run .enter)
    · subst ha
      exact timed_enter hr ih (pc_of_enter hg)
    · exact timed_other hr ih hg ha

/-! ## The report -/

private theorem eq_startTimeout_of_report {c : Option Nat} {a : HostAct} {i : Nat}
    (hreport : .notReady i ∈ report c a) : a = .run (.startTimeout i) := by
  cases a with
  | task a => cases a <;> simp [report] at hreport
  | run a =>
      cases a with
      | startTimeout k =>
          have hik : i = k := by simpa [report] using hreport
          rw [hik]
      | takeExit exit => cases hexit : exit.err <;> simp [report, exitError, hexit] at hreport
      | _ => simp [report] at hreport
  | stop a => cases a <;> simp [report] at hreport

/-- The report of a service that is not ready is made by taking the timer. -/
theorem notReady_iff (hr : RunIf h ok τ s) (i : Nat) :
    .notReady i ∈ s.errs ↔ .host (.run (.startTimeout i)) ∈ τ := by
  rw [errs_eq hr, List.mem_flatMap, ← mem_hostActs]
  constructor
  · rintro ⟨a, ha, hreport⟩
    obtain rfl := eq_startTimeout_of_report hreport
    exact ha
  · intro ha
    exact ⟨_, ha, by simp [report]⟩

/-- After the startup nothing more is waited for. -/
private theorem spent_of_left {s₁ : State h} (hr : (system h).Run ok s₁ τ s)
    (hleft : s₁.pc.inStartup = false) :
    (system h).spent (fun s => s.pc.inReadiness) Action.duration s₁ τ = 0 := by
  refine (hr.invariant (fun (τ : List Action) (s : State h) => s.pc.inStartup = false ∧
    (system h).spent (fun s => s.pc.inReadiness) Action.duration s₁ τ = 0) ⟨hleft, rfl⟩ ?_).2
  rintro τ s a hr ⟨hout, hzero⟩ _ hg
  have ha : a ≠ .host (.run .enter) := by
    rintro rfl
    rw [pc_of_enter hg] at hout
    cases hout
  refine ⟨(inStartup_step s a hg ha).2 hout, ?_⟩
  rw [hr.spent_snoc, hzero, HostPC.inReadiness_of_left hout]
  rfl

theorem waited_of_timeout {pre post : List Action} {i : Nat}
    (hr : RunIf h ok (pre ++ .host (.run (.startTimeout i)) :: post) s) :
    waited h (pre ++ .host (.run (.startTimeout i)) :: post) = waited h pre := by
  obtain ⟨s₁, hr₁, -, -, hr₂⟩ := hr.split
  have hpost := spent_of_left hr₂ rfl
  rw [waited, Lts.spent_append, hr₁.after_eq, Lts.spent, hpost]
  simp [waited, Action.duration]

/-! ## When a service may still be waited for -/

theorem readierFrom_succ {k : Nat} (hk : k < h.services.length) :
    h.readierFrom k = (h.readier k || h.readierFrom (k + 1)) := by
  rw [Host.readierFrom, List.drop_eq_getElem_cons hk, List.any_cons, Host.readier,
    List.getElem?_eq_getElem hk]
  rfl

theorem lt_of_readierFrom {k : Nat} (hfrom : h.readierFrom k = true) :
    k < h.services.length := by
  by_contra hk
  rw [Host.readierFrom, List.drop_eq_nil_of_le (not_lt.mp hk)] at hfrom
  cases hfrom

theorem readierFrom_of_readier {k : Nat} (hreadier : h.readier k = true) :
    h.readierFrom k = true := by
  have hk : k < h.services.length := by
    by_contra hk
    simp [Host.readier, List.getElem?_eq_none (not_lt.mp hk)] at hreadier
  rw [readierFrom_succ hk, hreadier, Bool.true_or]

/-- The parts of the state that decide whether a service may still be waited for. -/
private theorem mayWait_congr {s s' : State h} (hpc : s'.pc = s.pc)
    (haborted : s'.startupAborted = s.startupAborted)
    (hctx : s'.taskCtx = none → s.taskCtx = none) (hmay : s'.mayWait = true) :
    s.mayWait = true := by
  unfold State.mayWait at hmay ⊢
  rw [hpc, haborted] at hmay
  cases hat : s.pc with
  | taskHead k | inTask k =>
      simp only [hat, Bool.and_eq_true, decide_eq_true_eq] at hmay ⊢
      exact ⟨hmay.1.imp_right hctx, hmay.2⟩
  | waitReady k => rfl
  | _ =>
      rw [hat] at hmay
      exact hmay

private theorem mayWait_task {a : TaskAct} (hg : taskGuard s a = true)
    (hmay : (taskEffect s a).mayWait = true) : s.mayWait = true := by
  cases a with
  | canceled k => simp [taskEffect, State.mayWait] at hmay
  | call k =>
      simp only [taskGuard, decide_eq_true_eq] at hg
      simp only [taskEffect, State.goto, State.mayWait, Bool.and_eq_true] at hmay
      simp [State.mayWait, hg.1, hg.2.2, hmay.2]
  | result k o ctxDone =>
      simp only [taskGuard, decide_eq_true_eq] at hg
      cases herr : safeTask o with
      | none =>
          simp only [taskEffect, herr, State.goto, State.mayWait] at hmay
          simp only [State.mayWait, hg.1]
          exact hmay
      | some taskErr =>
          by_cases hctx : taskErr.canceled = true ∧ ctxDone = true <;>
            simp [taskEffect, herr, hctx, State.mayWait] at hmay
  | allDone k =>
      simp only [taskGuard, decide_eq_true_eq, not_lt] at hg
      simp only [taskEffect, State.goto, State.mayWait, Bool.and_eq_true] at hmay
      simp [State.mayWait, hg.1, hg.2, hmay.2]

private theorem mayWait_run {a : RunAct} (hg : runGuard s a = true) (ha : a ≠ .enter)
    (hmay : (runEffect s a).mayWait = true) : s.mayWait = true := by
  cases a with
  | enter => exact absurd rfl ha
  | launch k =>
      simp only [runGuard, decide_eq_true_eq] at hg
      simp only [runEffect, State.issue, State.mayWait] at hmay
      simp [State.mayWait, hg.1, hg.2.2, hmay]
  | lookReadier k =>
      simp only [runGuard, decide_eq_true_eq] at hg
      simp only [State.mayWait, hg]
      cases hreadier : h.readier k with
      | true => exact readierFrom_of_readier hreadier
      | false =>
          simp only [runEffect, hreadier, Bool.false_eq_true, ↓reduceIte, State.goto,
            State.mayWait, Bool.and_eq_true] at hmay
          have hk := lt_of_readierFrom hmay.2
          rw [readierFrom_succ (by omega), hmay.2, Bool.or_true]
  | ready k =>
      simp only [runGuard, decide_eq_true_eq] at hg
      simp only [State.mayWait, hg.1]
  | _ => simp [runEffect, State.mayWait] at hmay

/-- A service that may still be waited for could have been before. -/
theorem mayWait_step (s : State h) (a : Action) (hg : (system h).guard s a = true)
    (ha : a ≠ .host (.run .enter)) (hmay : ((system h).effect s a).mayWait = true) :
    s.mayWait = true := by
  cases a with
  | host b =>
      have hcan := hostCan_of_guard hg
      cases b with
      | task b => exact mayWait_task hcan hmay
      | run b => exact mayWait_run hcan (fun hb => ha (hb ▸ rfl)) hmay
      | stop b =>
          have hleft : (stopEffect s b).mayWait = false := by
            cases b with
            | takeStop i began r => cases r <;> rfl
            | takeDone i began svcErr r =>
                simp only [stopEffect]
                split <;> rfl
            | _ => rfl
          have hmay' : (stopEffect s b).mayWait = true := hmay
          rw [hleft] at hmay'
          cases hmay'
  | env b => cases b <;> exact hmay
  | watch e =>
      have hsome (hnone : some e = none) : s.taskCtx = none := absurd hnone (Option.some_ne_none e)
      exact @mayWait_congr h s { s with taskCtx := some e } rfl rfl hsome hmay
  | call who b => cases who <;> cases b <;> exact hmay
  | sup i b => cases b <;> exact hmay
  | stopper i b => cases b <;> exact hmay

theorem Action.duration_nonneg {a : Action} (hg : (system h).guard s a = true) :
    0 ≤ a.duration := by
  cases a with
  | env b =>
      cases b with
      | tick d => exact of_decide_eq_true hg
      | _ => exact le_rfl
  | _ => exact le_rfl

/-! ## No time but in the readiness selects -/

/-- As long as a service may still be waited for, no time has been spent elsewhere but
after the timer has run out. -/
theorem elsewhere_le (hr : RunIf h OnlyWaiting τ s) (hpc : s.pc ≠ .entry)
    (hmay : s.mayWait = true) {due : Int} (hdue : due ∈ s.startDue) :
    spentElsewhere h τ ≤ 0 ∨ spentElsewhere h τ ≤ s.now - due := by
  refine hr.invariant (fun (τ : List Action) (s : State h) => s.pc ≠ .entry →
    s.mayWait = true → ∀ due ∈ s.startDue,
      spentElsewhere h τ ≤ 0 ∨ spentElsewhere h τ ≤ s.now - due)
    (fun hpc => absurd rfl hpc) ?_ hpc hmay due hdue
  intro τ s a hr ih honly hg hpc hmay due hdue
  rw [spentElsewhere_snoc hr, now_step]
  by_cases ha : a = .host (.run .enter)
  · subst ha
    have hentry := pc_of_enter hg
    rw [((elapsed_of_run hr).at_entry hentry).2, hentry]
    exact Or.inl le_rfl
  · have hentry := (inStartup_step s a hg ha).1
    have hbefore := mayWait_step s a hg ha hmay
    rw [startDue_step s a ha] at hdue
    have hle := ih (fun hne => hpc (hentry.mpr hne)) hbefore due hdue
    have hnonneg := Action.duration_nonneg hg
    by_cases helse : s.pc.elsewhere = true
    · rw [if_pos helse]
      by_cases hpos : 0 < a.duration
      · -- the timer has run out, so that it is overdue by the time that passes here
        have hout : due ≤ s.now := by
          by_contra hearly
          have hruns : s.timerRuns = true := by
            rw [State.timerRuns, Option.mem_def.mp hdue]
            exact decide_eq_true (not_le.mp hearly)
          rw [honly hpos helse hruns] at hbefore
          cases hbefore
        refine Or.inr ?_
        rcases hle with hle | hle <;> linarith
      · have hzero : a.duration = 0 := le_antisymm (not_lt.mp hpos) hnonneg
        rw [hzero, add_zero, add_zero]
        exact hle
    · rw [if_neg helse, add_zero]
      exact hle.imp_right fun hle => by linarith

/-- Without other time the report is made after enough waiting. -/
private theorem readinessOnly_of_run (hr : RunIf h OnlyWaiting τ s) : ReadinessOnly h τ s := by
  intro i hmem
  obtain ⟨pre, post, rfl⟩ := List.append_of_mem ((notReady_iff hr i).mp hmem)
  obtain ⟨s₁, hr₁, -, hg, -⟩ := hr.split
  have hcan : runGuard s₁ (.startTimeout i) = true := hostCan_of_guard hg
  simp only [runGuard, decide_eq_true_eq] at hcan
  obtain ⟨hpc, due, hdue, hout⟩ := hcan
  have hne : s₁.pc ≠ .entry := by simp [hpc]
  have hmay : s₁.mayWait = true := by rw [State.mayWait, hpc]
  have helsewhere := elsewhere_le hr₁ hne hmay hdue
  have helapsed := (elapsed_of_run hr₁).since_entry hne (by simp [hpc, HostPC.inStartup]) due hdue
  rw [waited_of_timeout hr]
  rcases helsewhere with helsewhere | helsewhere <;> linarith

/-! ## Other time can lead to a report too early -/

theorem Action.duration_own {a : Action} (ha : a.own = true) : a.duration = 0 := by
  cases a with
  | env b => cases ha
  | _ => rfl

/-- The readiness select is reached, and there is nothing to call. -/
def State.atReadiness (s : State h) : Prop := ∃ k, s.pc = .waitReady k ∧ s.caller = .none

/-- The host goroutine can go on to a service that may be waited for. -/
private theorem toward_readiness (hr : RunIf h ok τ s) (hmay : s.mayWait = true)
    (helse : s.pc.elsewhere = true) :
    ∃ a, a.own = true ∧ (system h).guard s a = true ∧
      (((system h).effect s a).atReadiness ∨
        ((system h).effect s a).mayWait = true ∧
          ((system h).effect s a).pc.elsewhere = true) := by
  by_cases hidle : s.caller = .none
  · have hguard (b : HostAct) (hcan : hostCan s b = true) :
        (system h).guard s (.host b) = true := by
      show (s.caller.idle && hostCan s b) = true
      rw [(Caller.idle_iff _).mpr hidle, hcan]
      rfl
    unfold State.mayWait at hmay
    cases hat : s.pc with
    | taskHead k =>
        simp only [hat, Bool.and_eq_true, decide_eq_true_eq] at hmay
        obtain ⟨hctx, hfrom⟩ := hmay
        by_cases hk : k < h.tasks.length
        · have hnone : s.taskCtx = none := hctx.resolve_left (not_le.mpr hk)
          refine ⟨.host (.task (.call k)), rfl, hguard _ ?_, Or.inr ⟨?_, rfl⟩⟩
          · simp [hostCan, taskGuard, hat, hk, hnone]
          · simp [system, hostEffect, taskEffect, State.mayWait, hnone, hfrom]
        · refine ⟨.host (.task (.allDone k)), rfl, hguard _ ?_, Or.inr ⟨?_, rfl⟩⟩
          · simpa [hostCan, taskGuard, hat] using hk
          · have hplaced : Placed h s.loop := placed_of_run hr
            simp only [Placed, State.loop, hat] at hplaced
            have haborted : s.startupAborted = false := hplaced.2.1
            simp [system, hostEffect, taskEffect, State.mayWait, haborted, hfrom]
    | inTask k =>
        refine ⟨.host (.task (.result k (.returned none) s.taskCtx.isSome)), rfl, hguard _ ?_,
          Or.inr ⟨?_, rfl⟩⟩
        · simp [hostCan, taskGuard, hat]
        · simp only [hat] at hmay
          exact hmay
    | launchHead k =>
        simp only [hat, Bool.and_eq_true, Bool.not_eq_true'] at hmay
        have hk := lt_of_readierFrom hmay.2
        refine ⟨.host (.run (.launch k)), rfl, hguard _ ?_, Or.inr ⟨hmay.2, rfl⟩⟩
        simp [hostCan, runGuard, hat, hk, hmay.1]
    | readierCheck k =>
        refine ⟨.host (.run (.lookReadier k)), rfl, hguard _ ?_, ?_⟩
        · simp [hostCan, runGuard, hat]
        · cases hreadier : h.readier k with
          | true => exact Or.inl ⟨k, by simp [system, hostEffect, runEffect, hreadier], hidle⟩
          | false =>
              have hfrom : h.readierFrom (k + 1) = true := by
                have hk := lt_of_readierFrom (hat ▸ hmay)
                simpa [hat, readierFrom_succ hk, hreadier] using hmay
              have hplaced : Placed h s.loop := placed_of_run hr
              simp only [Placed, State.loop, hat] at hplaced
              have haborted : s.startupAborted = false := hplaced.2.2.1
              refine Or.inr ?_
              simp [system, hostEffect, runEffect, hreadier, State.mayWait, HostPC.elsewhere,
                haborted, hfrom]
    | _ => simp [hat, HostPC.elsewhere] at helse
  · obtain ⟨a, hown, hg⟩ := (call_or_idle s).resolve_right hidle
    refine ⟨a, hown, hg, Or.inr ?_⟩
    cases a with
    | host b => exact absurd (caller_of_hostGuard hg) hidle
    | call who b =>
        cases who with
        | host => cases b <;> exact ⟨hmay, helse⟩
        | sup i => cases hown
    | _ => cases hown


/-- A service that may be waited for is waited for after steps of the host goroutine. -/
private theorem reaches_readiness (hr : Run h τ s) (hmay : s.mayWait = true)
    (helse : s.pc.elsewhere = true) :
    ∃ post s', (system h).Runs s post s' ∧ (∀ a ∈ post, a.own = true) ∧
      s'.atReadiness ∧ s'.now = s.now ∧ s'.startDue = s.startDue := by
  refine Lts.reaches_of_rank
    (P := fun t => (∃ σ, Run h σ t) ∧ t.mayWait = true ∧ t.pc.elsewhere = true ∧
      t.now = s.now ∧ t.startDue = s.startDue)
    State.rank ?_ s ⟨⟨τ, hr⟩, hmay, helse, rfl, rfl⟩
  rintro t ⟨⟨σ, hrt⟩, hmay, helse, hnow, hdue⟩
  obtain ⟨a, hown, hg, hnext⟩ := toward_readiness hrt hmay helse
  have ha : a ≠ .host (.run .enter) := by
    rintro rfl
    rw [pc_of_enter hg] at helse
    cases helse
  have hnow' : ((system h).effect t a).now = s.now := by
    rw [now_step, Action.duration_own hown, add_zero, hnow]
  have hdue' := (startDue_step t a ha).trans hdue
  have hrank := rank_step hrt hg
  rw [if_pos hown] at hrank
  refine ⟨a, hown, trivial, hg, hnext.imp (fun hat => ⟨hat, hnow', hdue'⟩) fun hon => ?_⟩
  exact ⟨⟨⟨_, hrt.snoc trivial hg⟩, hon.1, hon.2, hnow', hdue'⟩, hrank⟩

/-- Time that passes elsewhere is never made up for. -/
private theorem spentElsewhere_le {post : List Action} {s' : State h} (hr : Run h τ s)
    (hpost : (system h).Runs s post s') : spentElsewhere h τ ≤ spentElsewhere h (τ ++ post) := by
  refine hpost.invariant (fun (post : List Action) (_ : State h) =>
    spentElsewhere h τ ≤ spentElsewhere h (τ ++ post)) (by rw [List.append_nil]) ?_
  intro post t a hrt ih _ hg
  have hnonneg := Action.duration_nonneg hg
  rw [← List.append_assoc, spentElsewhere_snoc (hr.trans hrt)]
  split <;> linarith

theorem spentElsewhere_nonneg (hr : Run h τ s) : 0 ≤ spentElsewhere h τ :=
  spentElsewhere_le (Lts.Run.nil (M := system h)) hr

/-- Time that passes elsewhere while a service may still be waited for can lead to its
report, made before it has been waited for long enough. -/
private theorem early_report (hr : Run h τ s) {a : Action} (hg : (system h).guard s a = true)
    (hother : ¬ OnlyWaiting s a) :
    ∃ post s', Run h (τ ++ a :: post) s' ∧ ¬ ReadinessOnly h (τ ++ a :: post) s' := by
  simp only [OnlyWaiting, Classical.not_imp, Bool.not_eq_false] at hother
  obtain ⟨hpos, helse, hruns, hmay⟩ := hother
  obtain ⟨due, hdue, hearly⟩ : ∃ due, s.startDue = some due ∧ s.now < due := by
    cases hset : s.startDue with
    | none => simp [State.timerRuns, hset] at hruns
    | some due => exact ⟨due, rfl, by simpa [State.timerRuns, hset] using hruns⟩
  obtain ⟨d, rfl⟩ : ∃ d, a = .env (.tick d) := by
    cases a with
    | env b =>
        cases b with
        | tick d => exact ⟨d, rfl⟩
        | _ => exact absurd hpos (lt_irrefl _)
    | _ => exact absurd hpos (lt_irrefl _)
  have hr₁ : Run h (τ ++ [.env (.tick d)]) _ := hr.snoc trivial hg
  obtain ⟨post, s₂, hpost, -, ⟨k, hpc, hcaller⟩, hnow, hdue₂⟩ := reaches_readiness hr₁ hmay helse
  have hr₂ := hr₁.trans hpost
  -- the readiness select waits until the timer has run out, if it has not yet
  obtain ⟨rest, hrest, hend⟩ : ∃ rest : Duration, 0 ≤ rest ∧
      (s₂.now + rest = due ∨ due ≤ s₂.now ∧ rest = 0) := by
    rcases lt_or_ge s₂.now due with hlt | hge
    · exact ⟨due - s₂.now, sub_nonneg.mpr hlt.le, Or.inl (add_sub_cancel ..)⟩
    · exact ⟨0, le_rfl, Or.inr ⟨hge, rfl⟩⟩
  have htick : (system h).guard s₂ (.env (.tick rest)) = true := decide_eq_true hrest
  have hr₃ := hr₂.snoc trivial htick
  have hdue₃ : s₂.startDue = some due := hdue₂.trans hdue
  have htake : (system h).guard ((system h).effect s₂ (.env (.tick rest)))
      (.host (.run (.startTimeout k))) = true := by
    have hout : due ≤ s₂.now + rest := by rcases hend with hend | ⟨hge, rfl⟩ <;> linarith
    simp [system, hostGuard, hostCan, runGuard, envEffect, hpc, hcaller, hdue₃, hout, Caller.idle,
      Caller.none]
  have hr₄ := hr₃.snoc trivial htake
  refine ⟨post ++ [.env (.tick rest), .host (.run (.startTimeout k))], _,
    by simpa using hr₄, fun honly => ?_⟩
  have hwaited : h.startTimeout ≤ waited h (τ ++ [.env (.tick d)] ++ post ++ [.env (.tick rest)] ++
      [.host (.run (.startTimeout k))]) := by
    simpa using honly k ((notReady_iff (by simpa using hr₄) k).mpr (by simp))
  rw [waited_snoc hr₃] at hwaited
  have helapsed := (elapsed_of_run hr₃).since_entry (by simp [system, envEffect, hpc])
    (by simp [system, envEffect, hpc, HostPC.inStartup]) due hdue₃
  -- the time spent elsewhere is at least `d`, the timer is overdue by less than that
  have hfirst : spentElsewhere h (τ ++ [.env (.tick d)]) = spentElsewhere h τ + d := by
    rw [spentElsewhere_snoc hr, if_pos helse]
    rfl
  have hgrows := spentElsewhere_le hr₁ (hpost.snoc trivial htick)
  rw [← List.append_assoc] at hgrows
  have hnonneg := spentElsewhere_nonneg hr
  have hlate : s₂.now + rest < due + d := by
    have hnow' : s₂.now = s.now + d := hnow
    have hd : 0 < d := hpos
    rcases hend with hend | ⟨-, rfl⟩ <;> linarith
  have hnow₃ : ((system h).effect s₂ (.env (.tick rest))).now = s₂.now + rest := rfl
  rw [hnow₃] at helapsed
  have hzero (p : Bool) : (if p = true then Action.duration (.host (.run (.startTimeout k)))
      else 0) = 0 := by
    cases p <;> rfl
  rw [hzero] at hwaited
  linarith

/-- In the runs in which no time passes elsewhere in the startup while the start timer is
running and a service may still be waited for, a service is reported as not ready after
enough waiting only; any other passing of time can be followed by a report too early. -/
theorem readinessOnly_iff (h : Host) :
    (∀ τ s, RunIf h OnlyWaiting τ s → ReadinessOnly h τ s) ∧
      ∀ τ s a, Run h τ s → (system h).guard s a = true → ¬ OnlyWaiting s a →
        ∃ post s', Run h (τ ++ a :: post) s' ∧ ¬ ReadinessOnly h (τ ++ a :: post) s' :=
  ⟨fun _ _ hr => readinessOnly_of_run hr, fun _ _ _ hr hg hother => early_report hr hg hother⟩

/-- A host with a startup task and a service that implements `Readier`, to be
ready within ten seconds. -/
def timedHost : Host :=
  { Host.ofServices [⟨"slow", true, none⟩] (by decide) (by decide) (by simp) with
    tasks := [⟨"migrate"⟩]
    startTimeout := 10000000000 }

/-- Shutdown of the only service, which returns as soon as it is told to stop. -/
def shutdownSteps (now : Int) : List Action :=
  [.host (.run .beginStopping), .host (.stop .enter), .host (.stop (.cancel 0)),
    .host (.stop (.issue 0 now)), .stopper 0 .call, .stopper 0 (.result (.returned none)),
    .host (.stop (.takeStop 0 now none)), .sup 0 (.result now (.returned none)),
    .sup 0 (.check now none), .sup 0 (.sendDone none false),
    .host (.stop (.takeDone 0 now none none)), .host (.stop .leave), .host (.run .join),
    .host (.run .ret)]

/-- The startup task takes ten seconds; the service is given no time at all. -/
def migratingRun : List Action :=
  [.host (.run .enter), .host (.task (.call 0)), .env (.tick 10000000000),
    .host (.task (.result 0 (.returned none) false)), .host (.task (.allDone 1)),
    .host (.run (.launch 0)), .host (.run (.lookReadier 0)), .sup 0 .start,
    .host (.run (.startTimeout 0))] ++ shutdownSteps 10000000000

/-- A service can be reported as not ready without having been waited for. -/
theorem notReady_without_wait : ¬ ∀ (h : Host) (τ : List Action) (s : State h),
    Run h τ s → ReadinessOnly h τ s := by
  intro hall
  have hr : Run timedHost migratingRun _ := Lts.Admits.run (by decide)
  have hwaited := hall timedHost migratingRun _ hr 0 (by decide)
  exact absurd hwaited (by decide)

/-- The startup task takes no time, and the service is waited for. -/
def waitingRun : List Action :=
  [.host (.run .enter), .host (.task (.call 0)),
    .host (.task (.result 0 (.returned none) false)), .host (.task (.allDone 1)),
    .host (.run (.launch 0)), .host (.run (.lookReadier 0)), .sup 0 .start,
    .env (.tick 10000000000), .host (.run (.startTimeout 0))]

theorem readinessOnly_waitingRun :
    (.notReady 0 : HostError) ∈
        ((system timedHost).after (State.init timedHost) waitingRun).errs ∧
      ReadinessOnly timedHost waitingRun
        ((system timedHost).after (State.init timedHost) waitingRun) :=
  ⟨by decide, (readinessOnly_iff timedHost).1 _ _ (Lts.Admits.run (by decide))⟩

end Shost.Ports.Hosting
