import Shost.Ports.CronService

/-!
# Cancellation of a cron service

Every wait of a cron service looks at the context of `Start` beside the tick, the timer
or the jitter delay it waits for.  When both are there the select may take either; and
between such a select and the job nothing looks at the context any more, nor does
anything before an immediate run without jitter.

## Main results

* `late_run` — a run in which the job is called after the cancellation.
* `promptStop_iff` — no job is, and `Start` returns, in every run in which cancellation
  does not come behind the last look at the context and is preferred by every select;
  and a step that does otherwise leads to a run in which the job is called.
-/

namespace Shost.Ports.CronService

open Shost.Verified Shost.Ports.Hosting Shost.Ports.GoTime Trace

/-! ## Kinds of steps -/

/-- The steps of `Start`; the return of the job and of the handler are among them. -/
def Action.own : Action → Bool
  | .wait _ | .cancel _ | .tick _ => false
  | _ => true

/-- A select takes the tick, the timer or the delay that it waits for. -/
def Action.takes : Action → Bool
  | .takeTick _ | .takeTimer _ _ | .takeDelay _ _ => true
  | _ => false

def Action.cancels : Action → Bool
  | .cancel _ => true
  | _ => false

def Action.callsJob : Action → Bool
  | .callJob _ _ => true
  | _ => false

theorem not_cancels_of_own {a : Action} (hown : a.own = true) : a.cancels = false := by
  cases a with
  | cancel e => cases hown
  | _ => rfl

/-- The number of steps that `Start` takes. -/
def ownSteps (τ : List Action) : Nat := τ.countP Action.own

/-- The job is called on the way from here without another look at the context. -/
def Service.committed (svc : Service) : PC → Bool
  | .entry => svc.immediate && decide (svc.jitter = 0)
  | .enterRun _ => decide (svc.jitter = 0)
  | .timeout _ | .call _ _ => true
  | _ => false

/-- With the context done no select takes what it waits for, and the context does not
become done behind the last look at it. -/
def Prompt (svc : Service) (s : State) (a : Action) : Prop :=
  (a.takes = true → s.ctx = none) ∧ (a.cancels = true → svc.committed s.pc = false)

instance (svc : Service) (s : State) (a : Action) : Decidable (Prompt svc s a) :=
  inferInstanceAs (Decidable ((_ → _) ∧ (_ → _)))

/-! ## What is to be shown -/

/-- No call of the job begins after the cancellation. -/
def NoLateRun (τ : List Action) : Prop :=
  Guarded (fun pre a => a.callsJob = true → ∀ e, .cancel e ∉ pre) τ

/-- Nothing is called after the cancellation; from then on `Start` makes a bounded number
of steps, none of which calls the job, and can make one until it has returned. -/
structure PromptStop (svc : Service) (τ : List Action) (s : State) : Prop where
  no_late : NoLateRun τ
  returns : s.ctx ≠ none → ∀ τ' s', (system svc).Run (Prompt svc) s τ' s' →
    (∀ a ∈ τ', a.callsJob = false) ∧ ownSteps τ' ≤ 15 ∧
      ((∃ r, s'.pc = .returned r) ∨
        ∃ a, a.own = true ∧ Prompt svc s' a ∧ guard svc s' a = true)

variable {svc : Service} {ok : State → Action → Prop} {now : Time} {τ : List Action} {s : State}

/-! ## Time -/

/-- Time does not pass in the steps of `Start`. -/
theorem now_own {a : Action} (hown : a.own = true) : (effect svc s a).now = s.now := by
  cases a with
  | wait d | cancel e | tick t => cases hown
  | setup => cases htiming : svc.timing <;> simp [effect, htiming]
  | runEnds c err t =>
      simp only [effect]
      split <;> rfl
  | _ => rfl

/-- Time does not run backwards. -/
theorem now_le {a : Action} (hg : guard svc s a = true) :
    s.now.abs ≤ (effect svc s a).now.abs := by
  cases a with
  | wait d =>
      have hd : (0 : Int) ≤ d := of_decide_eq_true hg
      simp only [effect, Time.add]
      omega
  | cancel e | tick t => exact le_rfl
  | _ => exact (congrArg Time.abs (now_own rfl)).ge

/-! ## The context -/

/-- Only its cancellation changes the context. -/
theorem ctx_other {a : Action} (ha : a.cancels = false) : (effect svc s a).ctx = s.ctx := by
  cases a with
  | cancel e => cases ha
  | setup =>
      simp only [effect]
      split <;> rfl
  | runEnds c err t =>
      simp only [effect]
      split <;> rfl
  | _ => rfl

/-- The context is done by its cancellation. -/
theorem ctx_eq_some_iff (hr : RunIf svc ok now τ s) (e : CtxErr) :
    s.ctx = some e ↔ .cancel e ∈ τ := by
  refine hr.invariant (fun (τ : List Action) (s : State) => s.ctx = some e ↔ .cancel e ∈ τ) ?_ ?_
  · simp [State.init]
  · intro τ s a _ ih _ hg
    cases hcancels : a.cancels with
    | false =>
        have hother : .cancel e ≠ a := by
          rintro rfl
          cases hcancels
        simp [system, ctx_other hcancels, ih, hother]
    | true =>
        cases a with
        | cancel e' =>
            have hnone : s.ctx = none := of_decide_eq_true hg
            have hnot : .cancel e ∉ τ := fun hmem => by simp [hnone] at ih; exact ih hmem
            simp [system, effect, hnot, eq_comm]
        | _ => cases hcancels

theorem ctx_ne_none_iff (hr : RunIf svc ok now τ s) : s.ctx ≠ none ↔ ∃ e, .cancel e ∈ τ := by
  rw [Option.ne_none_iff_exists']
  exact exists_congr fun e => ctx_eq_some_iff hr e

/-- The context stays done. -/
theorem ctx_step (a : Action) (hs : s.ctx ≠ none) : (effect svc s a).ctx ≠ none := by
  cases hcancels : a.cancels with
  | false =>
      rw [ctx_other hcancels]
      exact hs
  | true =>
      cases a with
      | cancel e => exact Option.some_ne_none e
      | _ => cases hcancels

/-! ## Prompt runs -/

/-- A step that takes nothing from a select commits `Start` to nothing. -/
theorem committed_step {a : Action} {pc pc' : PC} (hstep : PCStep svc now a pc pc')
    (htakes : a.takes = false) (hnot : svc.committed pc = false) :
    svc.committed pc' = false := by
  cases hstep with
  | wait | cancel | tick => exact hnot
  | takeTick | takeTimer | takeDelay => cases htakes
  | immediate himm => simpa [Service.committed, himm] using hnot
  | noDelay hzero =>
      have hjitter : svc.jitter ≠ 0 := of_decide_eq_false hnot
      exact absurd (lt_of_le_of_ne svc.jitter_nonneg hjitter.symm) hzero
  | setTimeout | callJob => cases hnot
  | @goesOn c => cases c <;> rfl
  | _ => rfl

/-- In a prompt run nothing is committed once the context is done. -/
theorem not_committed_of_run (hr : RunIf svc (Prompt svc) now τ s) (hs : s.ctx ≠ none) :
    svc.committed s.pc = false := by
  refine hr.invariant (fun _ (s : State) => s.ctx ≠ none → svc.committed s.pc = false) ?_ ?_ hs
  · exact fun hinit => absurd rfl hinit
  · intro τ s a _ ih hok hg hs
    cases hcancels : a.cancels with
    | true =>
        cases a with
        | cancel e => exact hok.2 rfl
        | _ => cases hcancels
    | false =>
        have hsame : (effect svc s a).ctx = s.ctx := ctx_other hcancels
        have hdone : s.ctx ≠ none := hsame.symm.trans_ne hs
        cases htakes : a.takes with
        | true => exact absurd (hok.1 htakes) hdone
        | false => exact committed_step (pcStep_of_guard hg) htakes (ih hdone)

/-- A prompt run calls no job once the context is done. -/
theorem no_late_of_run (hr : RunIf svc (Prompt svc) now τ s) : NoLateRun τ := by
  refine hr.guarded ?_
  intro τ s a hr _ hg hcall e hmem
  cases a with
  | callJob c deadline =>
      have hpc : s.pc = .call c deadline := of_decide_eq_true hg
      have hnot := not_committed_of_run hr ((ctx_ne_none_iff hr).mpr ⟨e, hmem⟩)
      rw [hpc] at hnot
      cases hnot
  | _ => cases hcall

/-! ## The way to the end -/

/-- What is left of the way to the end where no select takes what it waits for. -/
def PC.stepsLeft : PC → Nat
  | .entry => 15
  | .enterRun _ => 14
  | .jitter _ _ => 13
  | .timeout _ => 12
  | .call _ _ => 11
  | .job _ _ => 10
  | .report _ _ => 9
  | .handler _ _ => 8
  | .runEnds _ _ => 7
  | .setup => 6
  | .firstTimer _ => 5
  | .readClock => 4
  | .untilNext _ => 3
  | .reset _ _ => 2
  | .waitTimer _ _ | .parked | .waitTick => 1
  | .returned _ => 0

theorem PC.stepsLeft_le (pc : PC) : pc.stepsLeft ≤ 15 := by
  cases pc <;> simp [PC.stepsLeft]

/-- Each step of `Start` that takes nothing from a select brings the end closer. -/
theorem stepsLeft_own {a : Action} {pc pc' : PC} (hstep : PCStep svc now a pc pc')
    (hown : a.own = true) (htakes : a.takes = false) : pc'.stepsLeft + 1 ≤ pc.stepsLeft := by
  cases hstep with
  | wait | cancel | tick => cases hown
  | takeTick | takeTimer | takeDelay => cases htakes
  | takeCtx e hwaits =>
      cases pc with
      | waitTimer | parked | waitTick => exact Nat.le_refl 1
      | _ => cases hwaits
  | @goesOn c => cases c <;> simp [Cause.goesOn, PC.stepsLeft]
  | _ => simp [PC.stepsLeft]

theorem stepsLeft_other {a : Action} (hown : a.own = false) :
    (effect svc s a).pc = s.pc := by
  cases a <;> first | rfl | cases hown

/-- In a prompt run from a state with the context done, the steps of `Start` are bounded
by what was left, and the context stays done. -/
theorem bounded_of_run {s₀ : State} (hr : (system svc).Run (Prompt svc) s₀ τ s)
    (hs₀ : s₀.ctx ≠ none) :
    s.ctx ≠ none ∧ ownSteps τ + s.pc.stepsLeft ≤ s₀.pc.stepsLeft := by
  refine hr.invariant (fun (τ : List Action) (s : State) =>
    s.ctx ≠ none ∧ ownSteps τ + s.pc.stepsLeft ≤ s₀.pc.stepsLeft) ⟨hs₀, by simp [ownSteps]⟩ ?_
  intro τ s a _ ih hok hg
  refine ⟨ctx_step a ih.1, ?_⟩
  have htakes : a.takes = false := by
    cases htake : a.takes with
    | true => exact absurd (hok.1 htake) ih.1
    | false => rfl
  rw [ownSteps, List.countP_append, ← ownSteps]
  cases hown : a.own with
  | true =>
      have hless := stepsLeft_own (pcStep_of_guard hg) hown htakes
      have hone : [a].countP Action.own = 1 := by simp [hown]
      have hsum := ih.2
      simp only [system]
      omega
  | false =>
      have hpc : (effect svc s a).pc = s.pc := stepsLeft_other hown
      have hnone : [a].countP Action.own = 0 := by simp [hown]
      have hsum := ih.2
      simp only [system, hpc]
      omega

/-- The first timer is set for the time at which it is created. -/
theorem firstTimer_step {a : Action} {pc pc' : PC} (hstep : PCStep svc now a pc pc') {due : Int}
    (hpc : pc' = .firstTimer due) : pc = .firstTimer due ∨ due = now.abs := by
  cases hstep with
  | wait | cancel | tick => exact Or.inl hpc
  | newTimer htiming =>
      cases hpc
      exact Or.inr rfl
  | @goesOn c => cases c <;> cases hpc
  | _ => cases hpc

/-- The first timer is due at once. -/
theorem firstTimer_due (hr : RunIf svc ok now τ s) {due : Int} (hpc : s.pc = .firstTimer due) :
    due ≤ s.now.abs := by
  refine hr.invariant (fun _ (s : State) => ∀ due, s.pc = .firstTimer due → due ≤ s.now.abs)
    ?_ ?_ due hpc
  · intro due hpc
    cases hpc
  · intro τ s a _ ih _ hg due hpc
    have hlater : s.now.abs ≤ ((system svc).effect s a).now.abs := now_le hg
    rcases firstTimer_step (pcStep_of_guard hg) hpc with hbefore | rfl
    · exact (ih due hbefore).trans hlater
    · exact hlater

/-- With the context done `Start` can make a prompt step until it has returned. -/
theorem can_step (hr : RunIf svc (Prompt svc) now τ s) (hs : s.ctx ≠ none) :
    (∃ r, s.pc = .returned r) ∨ ∃ a, a.own = true ∧ Prompt svc s a ∧ guard svc s a = true := by
  obtain ⟨e, he⟩ := Option.ne_none_iff_exists'.mp hs
  have hstep : ∀ a : Action, a.own = true → a.takes = false → guard svc s a = true →
      ∃ a, a.own = true ∧ Prompt svc s a ∧ guard svc s a = true := by
    intro a hown htakes hg
    refine ⟨a, hown, ⟨fun h => ?_, fun h => ?_⟩, hg⟩
    · rw [htakes] at h
      cases h
    · rw [not_cancels_of_own hown] at h
      cases h
  cases hpc : s.pc with
  | returned r => exact Or.inl ⟨r, rfl⟩
  | entry => exact Or.inr (hstep .begin rfl rfl (by simp [guard, hpc]))
  | setup => exact Or.inr (hstep .setup rfl rfl (by simp [guard, hpc]))
  | firstTimer due =>
      have hdue := firstTimer_due hr hpc
      exact Or.inr (hstep (.takeFirst due) rfl rfl (by simp [guard, hpc, hdue]))
  | readClock => exact Or.inr (hstep (.readClock s.now) rfl rfl (by simp [guard, hpc]))
  | untilNext next => exact Or.inr (hstep (.untilNext next) rfl rfl (by simp [guard, hpc]))
  | reset next d => exact Or.inr (hstep (.reset next d) rfl rfl (by simp [guard, hpc]))
  | waitTimer next due =>
      exact Or.inr (hstep (.takeCtx e) rfl rfl (by simp [guard, hpc, PC.awaitsCtx, he]))
  | parked => exact Or.inr (hstep (.takeCtx e) rfl rfl (by simp [guard, hpc, PC.awaitsCtx, he]))
  | waitTick =>
      exact Or.inr (hstep (.takeCtx e) rfl rfl (by simp [guard, hpc, PC.awaitsCtx, he]))
  | enterRun c =>
      have hdraws : svc.draws 0 := by
        refine ⟨le_rfl, ?_⟩
        rcases svc.jitter_nonneg.lt_or_eq with hpos | hzero
        · exact Or.inl hpos
        · exact Or.inr ⟨hzero.symm, rfl⟩
      exact Or.inr (hstep (.enterRun c 0) rfl rfl (by simp [guard, hpc, hdraws]))
  | jitter c due => exact Or.inr (hstep (.giveUp c due e) rfl rfl (by simp [guard, hpc, he]))
  | timeout c => exact Or.inr (hstep (.setTimeout c) rfl rfl (by simp [guard, hpc]))
  | call c deadline => exact Or.inr (hstep (.callJob c deadline) rfl rfl (by simp [guard, hpc]))
  | job c deadline =>
      exact Or.inr (hstep (.jobEnds c deadline s.now.abs (.returned none)) rfl rfl
        (by simp [guard, hpc]))
  | report c err => exact Or.inr (hstep (.callHandler c err) rfl rfl (by simp [guard, hpc]))
  | handler c err => exact Or.inr (hstep (.handlerReturns c err) rfl rfl (by simp [guard, hpc]))
  | runEnds c err =>
      exact Or.inr (hstep (.runEnds c err s.now.abs) rfl rfl (by simp [guard, hpc]))

/-! ## The way to the job -/

/-- The job can be called on the way from here. -/
def Service.headsToJob (svc : Service) : PC → Bool
  | .entry => svc.immediate
  | .enterRun _ | .jitter _ _ | .timeout _ => true
  | _ => false

/-- What is left of the way to the job. -/
def State.toJob (s : State) : Nat :=
  match s.pc with
  | .entry => 4
  | .enterRun _ => 3
  | .jitter _ due => if due ≤ s.now.abs then 1 else 2
  | _ => 0

/-- A service that heads to the job can come to call it. -/
theorem reaches_call {s : State} (hs : svc.headsToJob s.pc = true) :
    ∃ τ s', (system svc).Runs s τ s' ∧ ∃ c deadline, s'.pc = .call c deadline := by
  have hstep : ∀ s : State, svc.headsToJob s.pc = true → ∃ a : Action, (fun _ => true) a = true ∧
      True ∧ (system svc).guard s a = true ∧
      ((∃ c deadline, ((system svc).effect s a).pc = .call c deadline) ∨
        svc.headsToJob ((system svc).effect s a).pc = true ∧
          ((system svc).effect s a).toJob < s.toJob) := by
    intro s hs
    cases hpc : s.pc with
    | entry =>
        have himm : svc.immediate = true := by simpa [Service.headsToJob, hpc] using hs
        refine ⟨.begin, rfl, trivial, by simp [system, guard, hpc], Or.inr ⟨?_, ?_⟩⟩
        · simp [system, effect, himm, Service.headsToJob]
        · simp [system, effect, himm, State.toJob, hpc]
    | enterRun c =>
        obtain hpos | hzero := svc.jitter_nonneg.lt_or_eq
        · refine ⟨.enterRun c 0, rfl, trivial, ?_, Or.inr ⟨?_, ?_⟩⟩
          · simp [system, guard, hpc, Service.draws, hpos]
          · simp [system, effect, hpos, Service.headsToJob]
          · simp [system, effect, hpos, State.toJob, hpc]
        · refine ⟨.enterRun c 0, rfl, trivial, ?_, Or.inr ⟨?_, ?_⟩⟩
          · simp [system, guard, hpc, Service.draws, ← hzero]
          · simp [system, effect, ← hzero, Service.headsToJob]
          · simp [system, effect, ← hzero, State.toJob, hpc]
    | jitter c due =>
        by_cases hdue : due ≤ s.now.abs
        · refine ⟨.takeDelay c due, rfl, trivial, by simp [system, guard, hpc, hdue],
            Or.inr ⟨rfl, ?_⟩⟩
          simp [system, effect, State.toJob, hpc, hdue]
        · refine ⟨.wait (due - s.now.abs), rfl, trivial, ?_, Or.inr ⟨?_, ?_⟩⟩
          · show decide ((0 : Int) ≤ due - s.now.abs) = true
            simpa using (not_le.mp hdue).le
          · simp [system, effect, hpc, Service.headsToJob]
          · simp [system, effect, State.toJob, hpc, hdue, Time.add]
    | timeout c =>
        refine ⟨.setTimeout c, rfl, trivial, by simp [system, guard, hpc], Or.inl ?_⟩
        exact ⟨c, _, rfl⟩
    | _ =>
        rw [hpc] at hs
        cases hs
  obtain ⟨τ, s', hr, -, hcall⟩ := @Lts.reaches_of_rank _ _ (system svc) (fun _ _ => True)
    (fun s => svc.headsToJob s.pc = true) (fun s => ∃ c deadline, s.pc = .call c deadline)
    (fun _ => true) State.toJob hstep s hs
  exact ⟨τ, s', hr, hcall⟩

/-- A step that is not prompt leaves the context done, and the job ahead. -/
theorem heads_of_not_prompt {a : Action} (hg : guard svc s a = true) (hnot : ¬ Prompt svc s a) :
    (effect svc s a).ctx ≠ none ∧ (svc.headsToJob (effect svc s a).pc = true ∨
      ∃ c deadline, (effect svc s a).pc = .call c deadline) := by
  rw [Prompt, not_and_or, Classical.not_imp, Classical.not_imp, Bool.not_eq_false] at hnot
  rcases hnot with ⟨htakes, hdone⟩ | ⟨hcancels, hcommitted⟩
  · refine ⟨ctx_step a hdone, Or.inl ?_⟩
    cases a with
    | takeTick t | takeTimer next due | takeDelay c due => rfl
    | _ => cases htakes
  · cases a with
    | cancel e =>
        refine ⟨Option.some_ne_none e, ?_⟩
        simp only [effect]
        cases hpc : s.pc <;> simp_all [Service.committed, Service.headsToJob]
    | _ => cases hcancels

/-- A step that is not prompt can be followed by a call of the job. -/
theorem late_of_not_prompt (hr : Run svc now τ s) {a : Action} (hg : guard svc s a = true)
    (hnot : ¬ Prompt svc s a) :
    ∃ τ' s', Run svc now (τ ++ a :: τ') s' ∧ ¬ NoLateRun (τ ++ a :: τ') := by
  obtain ⟨hdone, hway⟩ := heads_of_not_prompt hg hnot
  have hstep : Run svc now (τ ++ [a]) (effect svc s a) := hr.snoc trivial hg
  obtain ⟨e, hmem⟩ := (ctx_ne_none_iff hstep).mp hdone
  have hreach : ∃ τ' s', (system svc).Runs (effect svc s a) τ' s' ∧
      ∃ c deadline, s'.pc = .call c deadline := by
    rcases hway with hway | hcall
    · exact reaches_call hway
    · exact ⟨[], _, .nil, hcall⟩
  obtain ⟨τ', s', hr', c, deadline, hpc⟩ := hreach
  have hcall : Run svc now ((τ ++ [a]) ++ τ' ++ [.callJob c deadline]) _ :=
    (hstep.trans hr').snoc trivial (by simp [system, guard, hpc])
  rw [List.append_assoc, List.append_assoc, List.singleton_append] at hcall
  refine ⟨τ' ++ [.callJob c deadline], _, hcall, fun hlate => ?_⟩
  refine hlate (τ ++ a :: τ') (.callJob c deadline) [] (by simp) rfl e ?_
  rw [← List.singleton_append, ← List.append_assoc]
  exact List.mem_append_left _ hmem

/-- No job is called once the context is done, and `Start` returns, in every run in which
the context does not become done behind the last look at it, and no select takes what it
waits for when the context is done; a step that does otherwise can be followed by a call
of the job. -/
theorem promptStop_iff (svc : Service) (now : Time) :
    (∀ τ s, RunIf svc (Prompt svc) now τ s → PromptStop svc τ s) ∧
      ∀ τ s a, Run svc now τ s → guard svc s a = true → ¬ Prompt svc s a →
        ∃ τ' s', Run svc now (τ ++ a :: τ') s' ∧ ¬ NoLateRun (τ ++ a :: τ') := by
  refine ⟨fun τ s hr => ⟨no_late_of_run hr, fun hs τ' s' hr' => ?_⟩,
    fun τ s a hr hg hnot => late_of_not_prompt hr hg hnot⟩
  have hrun : RunIf svc (Prompt svc) now (τ ++ τ') s' := hr.trans hr'
  obtain ⟨hs', hbound⟩ := bounded_of_run hr' hs
  refine ⟨?_, ?_, can_step hrun hs'⟩
  · intro a ha
    cases hcall : a.callsJob with
    | false => rfl
    | true =>
        obtain ⟨e, hmem⟩ := (ctx_ne_none_iff hr).mp hs
        obtain ⟨pre, post, rfl⟩ := List.append_of_mem ha
        have hlate := no_late_of_run hrun (τ ++ pre) a post (by simp) hcall e
        exact absurd (List.mem_append_left _ hmem) hlate
  · have hleft := s.pc.stepsLeft_le
    omega

/-- A service that runs its job every second. -/
def secondService : Service := every "tick" (by decide) second (by decide) []

/-- The context is canceled when a tick is there. -/
def lateRun : List Action :=
  [.begin, .setup, .wait second, .tick ⟨second, second⟩, .cancel .canceled, .takeTick second,
    .enterRun .tick 0, .setTimeout .tick, .callJob .tick none]

/-- The job can be called after the cancellation. -/
theorem late_run : ¬ ∀ (svc : Service) (now : Time) (τ : List Action) (s : State),
    Run svc now τ s → NoLateRun τ := by
  intro hall
  have hr : Run secondService Time.zero lateRun _ := Lts.Admits.run (by decide)
  have hlate := hall secondService Time.zero lateRun _ hr (lateRun.take 8) (.callJob .tick none)
    [] rfl rfl .canceled
  exact hlate (by decide)

/-- The context is canceled while the job runs. -/
def promptRun : List Action :=
  [.begin, .setup, .wait second, .tick ⟨second, second⟩, .takeTick second, .enterRun .tick 0,
    .setTimeout .tick, .callJob .tick none, .cancel .canceled,
    .jobEnds .tick none second (.returned (some CtxErr.canceled.error)),
    .runEnds .tick (some CtxErr.canceled.error) second, .takeCtx .canceled]

theorem promptStop_promptRun :
    PromptStop secondService promptRun ((system secondService).after (.init Time.zero) promptRun) :=
  (promptStop_iff secondService Time.zero).1 promptRun _ (Lts.Admits.run (by decide))

end Shost.Ports.CronService
