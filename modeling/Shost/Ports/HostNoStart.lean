import Shost.Ports.HostCalls
import Shost.Ports.HostServices

/-!
# Starts after the shutdown has begun

Closing `stoppingCh` is to stop the supervisors from restarting.  A supervisor
looks at it after `Start` has returned and in its backoff select, but not
between the head of its loop and the call of `Start`; so one that has just been
spawned, or whose backoff has just ended, calls `Start` nevertheless, also when
`Stop` has already been called.

## Main results

* `start_after_stop` — a run that calls `Start` after `Stop`.
* `no_late_start` — no run does in which no supervisor stands at the head of its
  loop when `stoppingCh` is closed, and none goes back there afterwards.
-/

namespace Shost.Ports.Hosting

open Shost.Verified Trace

variable {h : Host} {ok : State h → Action → Prop} {τ : List Action} {s : State h}

/-- `stoppingCh` is closed by the host goroutine. -/
theorem stoppingCh_iff (hr : RunIf h ok τ s) :
    s.stoppingCh = true ↔ .host (.run .beginStopping) ∈ τ := by
  rw [← mem_hostActs]
  refine placed_invariant
    (fun η v => v.stoppingCh = true ↔ .run .beginStopping ∈ η) ?_ ?_ hr
  · simp [State.init]
  · intro η v v' a hp ih hstep
    have hhooked : v'.stoppingCh = (v.stoppingCh || a.runsHooks .onStopping) :=
      (hooked_step hstep .onStopping hp).1
    have hclose : a.runsHooks .onStopping = true ↔ .run .beginStopping = a := by
      cases a with
      | task a => simp [HostAct.runsHooks]
      | run a => cases a <;> simp [HostAct.runsHooks]
      | stop a => cases a <;> simp [HostAct.runsHooks]
    simp [hhooked, ih, hclose]

/-- `Stop` is called after `stoppingCh` has been closed. -/
theorem stopping_before_stop (hr : RunIf h ok τ s) {i : Nat} (hcall : .stopper i .call ∈ τ) :
    .host (.run .beginStopping) ∈ τ := by
  obtain ⟨pre, post, s₁, rfl, hr₁, -, hg₁⟩ := hr.of_mem hcall
  have hborn : (s₁.svc i).stop ≠ .unborn := by
    simp only [system, stopperGuard, decide_eq_true_eq] at hg₁
    simp [hg₁]
  obtain ⟨began, hissue⟩ := (issued_iff hr₁ i).mp hborn
  obtain ⟨pre', post', s₂, rfl, hr₂, -, hg₂⟩ := hr₁.of_mem (mem_svcActs.mp hissue)
  have hcan : stopGuard s₂ (.issue i began) = true := hostCan_of_guard hg₂
  simp only [stopGuard, decide_eq_true_eq] at hcan
  have hplaced := placed_of_run hr₂
  simp only [Placed, State.loop, hcan] at hplaced
  have hclosed := (stoppingCh_iff hr₂).mp hplaced.2.2
  exact List.mem_append_left _ (List.mem_append_left _ hclosed)

/-- A supervisor comes to the head of its loop by being spawned or by the end of
a backoff. -/
theorem head_step {i : Nat} (s : State h) (a : Action)
    (hhead : (((system h).effect s a).svc i).sup = .head) :
    (s.svc i).sup = .head ∨ a = .host (.run (.launch i)) ∨
      ∃ due raw, a = .sup i (.restart due raw) := by
  cases hab : a.svcAct i with
  | none =>
      rw [svc_other s hab] at hhead
      exact Or.inl hhead
  | some b =>
      obtain rfl := svcAct_eq_some hab
      rw [svc_action] at hhead
      cases b with
      | launch => exact Or.inr (Or.inl rfl)
      | sup a =>
          cases a with
          | restart due raw => exact Or.inr (Or.inr ⟨due, raw, rfl⟩)
          | check began err =>
              obtain ⟨sup, caller, attempts, delay, hcheck, hsup⟩ :=
                checkExit_eq h i (s.supStops i) (s.now - began) err (s.svc i)
              rw [svcEffect, hcheck] at hhead
              rcases hsup with rfl | ⟨report, rfl⟩ <;> cases hhead
          | sendDone err report => cases report <;> cases hhead
          | _ => cases hhead
      | call a => cases a <;> exact Or.inl hhead
      | stopper a => cases a <;> exact Or.inl hhead
      | _ => exact Or.inl hhead

/-- No `Start` begins once `stoppingCh` is closed, nor after `Stop` of the same
service has been called. -/
def NoLateStart (τ : List Action) : Prop :=
  Guarded (fun pre a => ∀ i, a = .sup i .start →
    .host (.run .beginStopping) ∉ pre ∧ .stopper i .call ∉ pre) τ

/-- A backoff ends by its timer. -/
def Action.restarts : Action → Bool
  | .sup _ (.restart _ _) => true
  | _ => false

/-- No supervisor stands at the head of its loop when `stoppingCh` is closed, and
no backoff ends by its timer afterwards. -/
def Calm (s : State h) (a : Action) : Prop :=
  (a = .host (.run .beginStopping) → ∀ i < h.services.length, (s.svc i).sup ≠ .head) ∧
    (a.restarts = true → s.stoppingCh = false)

instance (s : State h) (a : Action) : Decidable (Calm s a) :=
  inferInstanceAs (Decidable
    ((_ → ∀ i < h.services.length, (s.svc i).sup ≠ .head) ∧ (_ → s.stoppingCh = false)))

/-- `stoppingCh` is closed by no other step. -/
private theorem stoppingCh_other (hr : RunIf h ok τ s) {a : Action} (hok : ok s a)
    (hg : (system h).guard s a = true) (ha : a ≠ .host (.run .beginStopping))
    (hclosed : ((system h).effect s a).stoppingCh = true) : s.stoppingCh = true := by
  have hmem : .host (.run .beginStopping) ∈ τ ++ [a] :=
    (stoppingCh_iff (hr.snoc hok hg)).mp hclosed
  rcases List.mem_append.mp hmem with hold | hnew
  · exact (stoppingCh_iff hr).mpr hold
  · exact absurd (List.mem_singleton.mp hnew).symm ha

/-- In a calm run no supervisor is at the head of its loop once `stoppingCh` is
closed. -/
private theorem no_head (hr : RunIf h Calm τ s) (hclosed : s.stoppingCh = true) (i : Nat) :
    (s.svc i).sup ≠ .head := by
  refine hr.invariant (fun _ (s : State h) => s.stoppingCh = true → (s.svc i).sup ≠ .head)
    ?_ ?_ hclosed
  · intro hinit
    cases hinit
  · intro τ s a hr ih hcalm hg hclosed hhead
    by_cases ha : a = .host (.run .beginStopping)
    · subst ha
      have hbefore : (s.svc i).sup = .head := hhead
      have hborn : i < s.launched := launched_of_born hr (by simp [hbefore])
      have hi : i < h.services.length := lt_of_lt_of_le hborn (placed_of_run hr).launched_le
      exact hcalm.1 rfl i hi hbefore
    · have hold := stoppingCh_other hr hcalm hg ha hclosed
      rcases head_step s a hhead with hbefore | rfl | ⟨due, raw, rfl⟩
      · exact ih hold hbefore
      · have hcan : runGuard s (.launch i) = true := hostCan_of_guard hg
        simp only [runGuard, decide_eq_true_eq] at hcan
        have hplaced := placed_of_run hr
        simp only [Placed, State.loop, hcan.1] at hplaced
        rw [hplaced.2.2.2.1] at hold
        cases hold
      · rw [hcalm.2 rfl] at hold
        cases hold

/-- No service is started late in a run in which no supervisor stands at the head
of its loop when `stoppingCh` is closed, and no backoff ends by its timer
afterwards. -/
theorem no_late_start (hr : RunIf h Calm τ s) : NoLateStart τ := by
  refine hr.guarded ?_
  intro τ s a hr _ hg i ha
  subst ha
  have hhead : (s.svc i).sup = .head := by simpa [system, supGuard] using hg
  have hopen : .host (.run .beginStopping) ∉ τ := fun hmem =>
    no_head hr ((stoppingCh_iff hr).mpr hmem) i hhead
  exact ⟨hopen, fun hcall => hopen (stopping_before_stop hr hcall)⟩

/-- The supervisor is slow: it comes to call `Start` when the host has already
called `Stop`. -/
def slowRun : List Action :=
  [.host (.run .enter), .host (.run (.launch 0)), .host (.run (.lookReadier 0)),
    .host (.run (.started 1)), .env .shutdown, .host (.run .takeShutdown),
    .host (.run .beginStopping), .host (.stop .enter), .host (.stop (.cancel 0)),
    .host (.stop (.issue 0 0)), .stopper 0 .call, .sup 0 .start]

/-- `Start` can be called after the shutdown has begun, and after `Stop`. -/
theorem start_after_stop : ¬ ∀ (h : Host) (τ : List Action) (s : State h),
    Run h τ s → NoLateStart τ := by
  intro hall
  have hr : Run soloHost slowRun _ := Lts.Admits.run (by decide)
  have hlate := hall soloHost slowRun _ hr (slowRun.take 11) (.sup 0 .start) [] rfl 0 rfl
  exact hlate.2 (by decide)

/-- The supervisor calls `Start` at once. -/
def promptRun : List Action :=
  [.host (.run .enter), .host (.run (.launch 0)), .host (.run (.lookReadier 0)),
    .host (.run (.started 1)), .sup 0 .start, .env .shutdown, .host (.run .takeShutdown),
    .host (.run .beginStopping), .host (.stop .enter), .host (.stop (.cancel 0)),
    .host (.stop (.issue 0 0)), .stopper 0 .call]

theorem no_late_start_promptRun : NoLateStart promptRun :=
  no_late_start (h := soloHost) (Lts.Admits.run (by decide))

end Shost.Ports.Hosting
