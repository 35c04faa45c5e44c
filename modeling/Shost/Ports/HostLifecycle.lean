import Shost.Ports.HostCalls
import Shost.Ports.HostServices

/-!
# Lifecycle order

Services are launched in registration order behind the startup tasks, each one
behind the readiness of those before it; hooks run once, at their points; and
shutdown goes through the launched services from the last one down, each one
canceled and told to stop once, and settled before the next.

## Main results

* `lifecycle_of_run` — every run has the order, whatever the services do and
  however the goroutines interleave.
-/

namespace Shost.Ports.Hosting

open Shost.Verified Trace

variable {h : Host} {ok : State h → Action → Prop} {τ : List Action} {s : State h}

/-! ## What comes before a launch -/

/-- The startup task at a position has returned nil. -/
def TaskDone (k : Nat) (η : List HostAct) : Prop :=
  ∃ o ctxDone, .task (.result k o ctxDone) ∈ η ∧ safeTask o = none

theorem TaskDone.append {k : Nat} {η : List HostAct} (hk : TaskDone k η) (a : HostAct) :
    TaskDone k (η ++ [a]) := by
  obtain ⟨o, ctxDone, hmem, ho⟩ := hk
  exact ⟨o, ctxDone, List.mem_append_left _ hmem, ho⟩

/-- How many startup tasks have completed at a place. -/
def LoopVars.tasksDone (h : Host) (v : LoopVars) : Nat :=
  match v.pc with
  | .entry => 0
  | .taskHead k | .inTask k => k
  | _ => bif v.startupAborted then 0 else h.tasks.length

/-- How many services are ready, as far as the host loop has looked at them. -/
def LoopVars.readied (h : Host) (v : LoopVars) : Nat :=
  match v.pc with
  | .entry | .taskHead _ | .inTask _ => 0
  | .launchHead k | .readierCheck k | .waitReady k => k
  | _ => bif v.startupAborted then 0 else h.services.length

/-- Only the return of a task adds to the completed tasks. -/
private theorem tasksDone_step {a : HostAct} {v v' : LoopVars} (hstep : HostStep h a v v')
    (hp : Placed h v) :
    v'.tasksDone h ≤ v.tasksDone h ∨
      ∃ o ctxDone, a = .task (.result (v.tasksDone h) o ctxDone) ∧ safeTask o = none ∧
        v'.tasksDone h = v.tasksDone h + 1 := by
  cases hstep with
  | task hstep =>
      cases hstep with
      | done v ho => exact Or.inr ⟨_, _, rfl, ho, rfl⟩
      | call v => exact Or.inl (Nat.le_refl _)
      | canceled v | aborted v | failed v => exact Or.inl (Nat.zero_le _)
      | allDone v hk =>
          left
          show (bif v.startupAborted then 0 else h.tasks.length) ≤ _
          rw [hp.2.1]
          exact hk
  | run hstep =>
      left
      cases hstep with
      | noTasks v htasks =>
          show (bif v.startupAborted then 0 else h.tasks.length) ≤ 0
          rw [hp.2.1, htasks]
          exact Nat.le_refl 0
      | startTimeout v | readyCtx v | readyShutdown v | readyExit v => exact Nat.zero_le _
      | _ => exact Nat.le_refl _
  | stop hstep => cases hstep <;> exact Or.inl (Nat.le_refl _)

/-- The completed startup tasks have returned nil. -/
theorem tasks_done (hr : RunIf h ok τ s) :
    ∀ k < s.loop.tasksDone h, TaskDone k (hostActs τ) := by
  refine placed_invariant (fun η v => ∀ k < v.tasksDone h, TaskDone k η) ?_ ?_ hr
  · intro k hk
    cases hk
  · intro η v v' a hp ih hstep k hk
    by_cases hold : k < v.tasksDone h
    · exact (ih k hold).append a
    · rcases tasksDone_step hstep hp with hle | ⟨o, ctxDone, rfl, ho, hone⟩
      · exact absurd (Nat.lt_of_lt_of_le hk hle) hold
      · obtain rfl : k = v.tasksDone h := by omega
        exact ⟨o, ctxDone, by simp, ho⟩

/-- The host loop passes a service that implements `Readier` only through its
readiness select. -/
private theorem readied_step {a : HostAct} {v v' : LoopVars} (hstep : HostStep h a v v') :
    v'.readied h ≤ v.readied h ∨
      (h.readier (v.readied h) = true → a = .run (.ready (v.readied h))) ∧
        v'.readied h = v.readied h + 1 := by
  cases hstep with
  | task hstep => cases hstep <;> exact Or.inl (Nat.le_refl _)
  | run hstep =>
      cases hstep with
      | noReadier v hk =>
          exact Or.inr ⟨fun hready => absurd hready (Bool.eq_false_iff.mp hk), rfl⟩
      | ready v => exact Or.inr ⟨fun _ => rfl, rfl⟩
      | started v hk => exact Or.inl hk
      | startTimeout v | readyCtx v | readyShutdown v | readyExit v | abortLaunch v =>
          exact Or.inl (Nat.zero_le _)
      | _ => exact Or.inl (Nat.le_refl _)
  | stop hstep => cases hstep <;> exact Or.inl (Nat.le_refl _)

/-- Every `Readier` that the host loop has passed was taken to be ready. -/
theorem readied_ready (hr : RunIf h ok τ s) :
    ∀ j < s.loop.readied h, h.readier j = true → .run (.ready j) ∈ hostActs τ := by
  refine placed_invariant
    (fun η v => ∀ j < v.readied h, h.readier j = true → .run (.ready j) ∈ η) ?_ ?_ hr
  · intro j hj
    cases hj
  · intro η v v' a hp ih hstep j hj hreadier
    by_cases hold : j < v.readied h
    · exact List.mem_append_left _ (ih j hold hreadier)
    · rcases readied_step hstep with hle | ⟨hready, hone⟩
      · exact absurd (Nat.lt_of_lt_of_le hj hle) hold
      · obtain rfl : j = v.readied h := by omega
        simp [hready hreadier]

/-- Every `Readier` that the host loop has passed has closed its channel. -/
theorem readied_closed (hr : RunIf h ok τ s) :
    ∀ j < s.loop.readied h, h.readier j = true → .env (.closeReady j) ∈ τ := by
  intro j hj hreadier
  obtain ⟨pre, post, s₁, rfl, hr₁, -, hg⟩ :=
    hr.of_mem (mem_hostActs.mp (readied_ready hr j hj hreadier))
  have hcan : runGuard s₁ (.ready j) = true := hostCan_of_guard hg
  simp only [runGuard, decide_eq_true_eq] at hcan
  have hclosed : Action.env (.closeReady j) ∈ pre :=
    mem_svcActs.mp ((ready_iff hr₁ j).mp hcan.2)
  exact List.mem_append_left _ hclosed

/-- An unaborted startup that has ended has launched all services, and has
passed them all. -/
theorem launched_of_hasStarted {v : LoopVars} (hp : Placed h v) (hv : v.hasStarted = true) :
    v.launched = h.services.length ∧ v.readied h = h.services.length := by
  cases v with
  | mk pc errs causeIndex launched aborted stoppingCh =>
      cases pc <;>
        simp_all [LoopVars.hasStarted, HostPC.inStartup, LoopVars.readied, Placed, LaunchDone]

/-! ## Settled services -/

/-- A service is settled: the results of `Stop` and `Start` were both
collected, or the service was abandoned at the deadline. -/
def Settled (i : Nat) (η : List HostAct) : Prop :=
  (∃ began svcErr r, .stop (.takeStop i began svcErr) ∈ η ∧
    .stop (.takeDone i began svcErr r) ∈ η) ∨ ∃ began, .stop (.abandon i began) ∈ η

/-- The result of `Start` is waited for when that of `Stop` has been received. -/
theorem waitDone_takeStop (hr : RunIf h ok τ s) (i : Nat) (began : Int) (svcErr : Result)
    (hpc : s.pc = .waitDone i began svcErr) :
    .stop (.takeStop i began svcErr) ∈ hostActs τ := by
  refine placed_invariant
    (fun η v => v.pc = .waitDone i began svcErr → .stop (.takeStop i began svcErr) ∈ η)
    ?_ ?_ hr hpc
  · intro hinit
    cases hinit
  · intro η v v' a hp ih hstep hpc
    cases hstep with
    | task hstep => cases hstep <;> cases hpc
    | run hstep => cases hstep <;> cases hpc
    | stop hstep =>
        cases hstep with
        | takeStop v r =>
            cases hpc
            exact List.mem_append_right _ (List.mem_singleton_self _)
        | _ => cases hpc

theorem settled_of_mem (hr : RunIf h ok τ s) {i : Nat} (hi : i ∈ settles (hostActs τ)) :
    Settled i (hostActs τ) := by
  rcases mem_settles.mp hi with ⟨began, svcErr, r, hdone⟩ | habandon
  · obtain ⟨pre, post, s₁, rfl, hr₁, -, hg⟩ := hr.of_mem (mem_hostActs.mp hdone)
    have hcan : stopGuard s₁ (.takeDone i began svcErr r) = true := hostCan_of_guard hg
    simp only [stopGuard, decide_eq_true_eq] at hcan
    have hstop := waitDone_takeStop hr₁ i began svcErr hcan.1
    rw [hostActs_append] at hdone ⊢
    exact Or.inl ⟨began, svcErr, r, List.mem_append_left _ hstop, hdone⟩
  · exact Or.inr habandon

/-! ## The order of a run -/

/-- An action by which the host stops services: it cancels a context, spawns
the goroutine that calls `Stop`, or is that call. -/
def Action.stops : Action → Prop
  | .host (.stop (.cancel _)) => True
  | .host (.stop (.issue _ _)) => True
  | .stopper _ .call => True
  | _ => False

/-- The lifecycle order of a run.  Order conditions are about every moment of
the history; "once" and "all" are about the history so far, and about the whole
of it when `RunContext` has returned. -/
structure Lifecycle (h : Host) (τ : List Action) (s : State h) : Prop where
  /-- the launched services are the first ones in registration order -/
  launches_prefix : ∃ n ≤ h.services.length, launches (hostActs τ) = List.range n
  /-- a launch comes after all startup tasks have returned nil and after every
  `Readier` before the service has closed its channel -/
  launch_after : Guarded (fun pre a => ∀ k, a = .host (.run (.launch k)) →
    (∀ t < h.tasks.length, TaskDone t (hostActs pre)) ∧
      ∀ j < k, h.readier j = true → .env (.closeReady j) ∈ pre) τ
  /-- `OnStarted` runs at most once -/
  started_once : hooksOf .onStarted (hostCalls τ) <+: h.onStarted
  /-- and only when all services are launched and all `Readier`s ready -/
  started_after : Guarded (fun pre a => ∀ f,
    a = .call .host (.begins (.hook .onStarted f)) →
      launches (hostActs pre) = List.range h.services.length ∧
        ∀ j < h.services.length, h.readier j = true → .env (.closeReady j) ∈ pre) τ
  /-- `OnStopping` runs at most once -/
  stopping_once : hooksOf .onStopping (hostCalls τ) <+: h.onStopping
  /-- and once when `RunContext` has returned -/
  stopping_all : s.pc = .returned → hooksOf .onStopping (hostReturns τ) = h.onStopping
  /-- and has run to its end before the first service is stopped -/
  stopping_before : Guarded (fun pre a => a.stops →
    hooksOf .onStopping (hostReturns pre) = h.onStopping) τ
  /-- services are canceled once each, from the last launched one down -/
  cancels_order : cancels (hostActs τ) <+: (launches (hostActs τ)).reverse
  cancels_all : s.pc = .returned → cancels (hostActs τ) = (launches (hostActs τ)).reverse
  /-- `Stop` is issued once for each, in the same order -/
  issues_order : issues (hostActs τ) <+: (launches (hostActs τ)).reverse
  issues_all : s.pc = .returned → issues (hostActs τ) = (launches (hostActs τ)).reverse
  /-- a service is canceled before its `Stop` is issued -/
  issue_after : Guarded (fun pre a => ∀ i began, a = .host (.stop (.issue i began)) →
    i ∈ cancels (hostActs pre)) τ
  /-- no service is launched once the stopping has begun -/
  launch_before : Guarded (fun pre a => ∀ k, a = .host (.run (.launch k)) →
    cancels (hostActs pre) = []) τ
  /-- a service is canceled after every later one is settled -/
  cancel_after : Guarded (fun pre a => ∀ i, a = .host (.stop (.cancel i)) →
    ∀ j ∈ launches (hostActs pre), i < j → Settled j (hostActs pre)) τ
  /-- `OnStopped` runs once, after all launched services are settled -/
  stopped_once : hooksOf .onStopped (hostCalls τ) <+: h.onStopped
  stopped_all : s.pc = .returned → hooksOf .onStopped (hostReturns τ) = h.onStopped
  stopped_after : Guarded (fun pre a => ∀ f,
    a = .call .host (.begins (.hook .onStopped f)) →
      ∀ j ∈ launches (hostActs pre), Settled j (hostActs pre)) τ

private theorem lastDownTo_prefix (i n : Nat) : lastDownTo i n <+: (List.range n).reverse := by
  rw [lastDownTo, List.reverse_prefix]
  exact List.drop_suffix _ _

theorem hooks_prefix (hr : RunIf h ok τ s) (kind : HookKind) :
    hooksOf kind (hostCalls τ) <+: h.hooks kind := by
  have hissued := hooks_issued hr kind
  rw [issued, hooksOf_append] at hissued
  by_cases hkind : s.loop.hooked kind = true
  · rw [if_pos hkind] at hissued
    exact ⟨_, hissued⟩
  · rw [if_neg hkind] at hissued
    rw [(List.append_eq_nil_iff.mp hissued).1]
    exact List.nil_prefix

/-- When `RunContext` has returned, no call is left. -/
theorem caller_of_returned (hr : RunIf h ok τ s) : s.pc = .returned → s.caller = .none := by
  refine hr.invariant
    (fun (_ : List Action) (s : State h) => s.pc = .returned → s.caller = .none) ?_ ?_
  · intro hinit
    cases hinit
  · intro τ s a _ ih _ hg hpc
    cases a with
    | host a =>
        have hstep := hostStep_of_can (hostCan_of_guard hg)
        obtain rfl := hstep.eq_ret hpc
        exact caller_of_hostGuard (s := s) hg
    | env a => cases a <;> exact ih hpc
    | watch e => exact ih hpc
    | call who a =>
        cases who with
        | sup i => cases a <;> exact ih hpc
        | host =>
            have hcaller : s.caller = .none := by cases a <;> exact ih hpc
            simp only [system] at hg
            cases a <;> simp [callGuard, State.callerOf, hcaller, Caller.none] at hg
    | sup i a => cases a <;> exact ih hpc
    | stopper i a => cases a <;> exact ih hpc

/-- Before the first service is stopped all `OnStopping` hooks have returned. -/
private theorem stopping_before (hr : RunIf h ok τ s) {a : HostAct}
    (hg : (system h).guard s (.host a) = true) (hstopping : s.stoppingCh = true) :
    hooksOf .onStopping (hostReturns τ) = h.onStopping := by
  have hhooks := hooks_issued hr .onStopping
  rw [← (returns_of_idle hr (caller_of_hostGuard hg)).1] at hhooks
  rw [hhooks]
  simp [LoopVars.hooked, hstopping, Host.hooks]

private theorem stopping_before_call (hr : RunIf h ok τ s) {i : Nat}
    (hg : (system h).guard s (.stopper i .call) = true) :
    hooksOf .onStopping (hostReturns τ) = h.onStopping := by
  have hborn : (s.svc i).stop ≠ .unborn := by
    simp only [system, stopperGuard, decide_eq_true_eq] at hg
    simp [hg]
  obtain ⟨began, hissue⟩ := (issued_iff hr i).mp hborn
  have hcalls := hooks_prefix hr .onStopping
  have hbegun := calls_eq hr
  obtain ⟨pre, post, s₁, rfl, hr₁, -, hg₁⟩ := hr.of_mem (mem_svcActs.mp hissue)
  have hcan : stopGuard s₁ (.issue i began) = true := hostCan_of_guard hg₁
  simp only [stopGuard, decide_eq_true_eq] at hcan
  have hplaced := placed_of_run hr₁
  simp only [Placed, State.loop, hcan] at hplaced
  have hpre := stopping_before hr₁ hg₁ hplaced.2.2
  have hle : h.onStopping <+:
      hooksOf .onStopping (hostReturns (pre ++ SvcAct.action i (.issue began) :: post)) := by
    rw [← hpre, hostReturns_append, hooksOf_append]
    exact List.prefix_append _ _
  have hge : hooksOf .onStopping (hostReturns (pre ++ SvcAct.action i (.issue began) :: post))
      <+: h.onStopping := by
    refine List.IsPrefix.trans ?_ hcalls
    rw [hbegun, hooksOf_append]
    exact List.prefix_append _ _
  exact hge.eq_of_length (Nat.le_antisymm hge.length_le hle.length_le)

/-- A hook that is called was asked for. -/
private theorem hooked_of_begins (hr : RunIf h ok τ s) {kind : HookKind} {f : Hook}
    (hg : (system h).guard s (.call .host (.begins (.hook kind f))) = true) :
    s.loop.hooked kind = true := by
  simp only [system, callGuard, decide_eq_true_eq] at hg
  have hhead : s.caller.queue.head? = some (.hook kind f) := hg.2
  obtain ⟨rest, hrest⟩ := List.head?_eq_some_iff.mp hhead
  have hhooks := hooks_issued hr kind
  by_contra hnot
  rw [if_neg hnot, issued, hooksOf_append, hrest] at hhooks
  simp [hooksOf] at hhooks

/-- When `RunContext` has returned, all hooks asked for have returned. -/
theorem hooks_of_returned (hr : RunIf h ok τ s) (hpc : s.pc = .returned)
    (kind : HookKind) (hkind : s.loop.hooked kind = true) :
    hooksOf kind (hostReturns τ) = h.hooks kind := by
  rw [(returns_of_idle hr (caller_of_returned hr hpc)).1, hooks_issued hr, if_pos hkind]

private theorem launches_ordered (hr : RunIf h ok τ s) :
    Guarded (fun pre a => ∀ k, a = .host (.run (.launch k)) →
      (∀ t < h.tasks.length, TaskDone t (hostActs pre)) ∧
        ∀ j < k, h.readier j = true → .env (.closeReady j) ∈ pre) τ := by
  refine hr.guarded ?_
  rintro τ s a hr - hg k rfl
  have hcan : runGuard s (.launch k) = true := hostCan_of_guard hg
  simp only [runGuard, decide_eq_true_eq] at hcan
  constructor
  · have htasks := tasks_done hr
    simpa [LoopVars.tasksDone, hcan] using htasks
  · have hready := readied_closed hr
    simpa [LoopVars.readied, hcan] using hready

private theorem started_ordered (hr : RunIf h ok τ s) :
    Guarded (fun pre a => ∀ f, a = .call .host (.begins (.hook .onStarted f)) →
      launches (hostActs pre) = List.range h.services.length ∧
        ∀ j < h.services.length, h.readier j = true → .env (.closeReady j) ∈ pre) τ := by
  refine hr.guarded ?_
  rintro τ s a hr - hg f rfl
  have hall := launched_of_hasStarted (placed_of_run hr) (hooked_of_begins hr hg)
  constructor
  · rw [launches_eq hr]
    exact congrArg List.range hall.1
  · rw [← hall.2]
    exact readied_closed hr

theorem stops_ordered (hr : RunIf h ok τ s) :
    Guarded (fun pre a => a.stops → hooksOf .onStopping (hostReturns pre) = h.onStopping) τ := by
  refine hr.guarded ?_
  intro τ s a hr _ hg hstops
  have hplaced := placed_of_run hr
  cases a with
  | stopper i a =>
      cases a with
      | call => exact stopping_before_call hr hg
      | result o => cases hstops
  | host a =>
      have hcan := hostCan_of_guard hg
      cases a with
      | stop a =>
          cases a with
          | cancel i | issue i began =>
              simp only [hostCan, stopGuard, decide_eq_true_eq] at hcan
              simp only [Placed, State.loop, hcan] at hplaced
              exact stopping_before hr hg hplaced.2.2
          | _ => cases hstops
      | _ => cases hstops
  | _ => cases hstops

private theorem issues_ordered (hr : RunIf h ok τ s) :
    Guarded (fun pre a => ∀ i began, a = .host (.stop (.issue i began)) →
      i ∈ cancels (hostActs pre)) τ := by
  refine hr.guarded ?_
  rintro τ s a hr - hg i began rfl
  have hcan : stopGuard s (.issue i began) = true := hostCan_of_guard hg
  simp only [stopGuard, decide_eq_true_eq] at hcan
  have hplaced := placed_of_run hr
  simp only [Placed, State.loop, hcan] at hplaced
  rw [cancels_eq hr, hcan, HostPC.toCancel, mem_lastDownTo]
  exact ⟨le_refl i, hplaced.1⟩

private theorem launches_before_cancels (hr : RunIf h ok τ s) :
    Guarded (fun pre a => ∀ k, a = .host (.run (.launch k)) →
      cancels (hostActs pre) = []) τ := by
  refine hr.guarded ?_
  rintro τ s a hr - hg k rfl
  have hcan : runGuard s (.launch k) = true := hostCan_of_guard hg
  simp only [runGuard, decide_eq_true_eq] at hcan
  rw [cancels_eq hr, hcan.1, (HostPC.before_counts rfl s.launched).1, lastDownTo_self]

private theorem cancels_ordered (hr : RunIf h ok τ s) :
    Guarded (fun pre a => ∀ i, a = .host (.stop (.cancel i)) →
      ∀ j ∈ launches (hostActs pre), i < j → Settled j (hostActs pre)) τ := by
  refine hr.guarded ?_
  rintro τ s a hr - hg i rfl j hj hij
  have hcan : stopGuard s (.cancel i) = true := hostCan_of_guard hg
  simp only [stopGuard, decide_eq_true_eq] at hcan
  rw [launches_eq hr, List.mem_range] at hj
  refine settled_of_mem hr ?_
  rw [settles_eq hr, hcan, HostPC.toSettle, mem_lastDownTo]
  exact ⟨hij, hj⟩

private theorem stopped_ordered (hr : RunIf h ok τ s) :
    Guarded (fun pre a => ∀ f, a = .call .host (.begins (.hook .onStopped f)) →
      ∀ j ∈ launches (hostActs pre), Settled j (hostActs pre)) τ := by
  refine hr.guarded ?_
  rintro τ s a hr - hg f rfl j hj
  have hafter : s.pc.afterLoop = true := hooked_of_begins hr hg
  rw [launches_eq hr, List.mem_range] at hj
  refine settled_of_mem hr ?_
  rw [settles_eq hr, (HostPC.after_counts hafter s.launched).2.2, mem_lastDownTo]
  exact ⟨Nat.zero_le j, hj⟩

/-- Every run has the lifecycle order. -/
theorem lifecycle_of_run (hr : Run h τ s) : Lifecycle h τ s where
  launches_prefix := ⟨s.launched, Placed.launched_le (placed_of_run hr), launches_eq hr⟩
  launch_after := launches_ordered hr
  started_once := hooks_prefix hr .onStarted
  started_after := started_ordered hr
  stopping_once := hooks_prefix hr .onStopping
  stopping_all := by
    intro hpc
    have hplaced := placed_of_run hr
    simp only [Placed, State.loop, hpc] at hplaced
    exact hooks_of_returned hr hpc .onStopping hplaced.2
  stopping_before := stops_ordered hr
  cancels_order := by
    rw [cancels_eq hr, launches_eq hr]
    exact lastDownTo_prefix _ _
  cancels_all := by
    intro hpc
    rw [cancels_eq hr, launches_eq hr, hpc]
    rfl
  issues_order := by
    rw [issues_eq hr, launches_eq hr]
    exact lastDownTo_prefix _ _
  issues_all := by
    intro hpc
    rw [issues_eq hr, launches_eq hr, hpc]
    rfl
  issue_after := issues_ordered hr
  launch_before := launches_before_cancels hr
  cancel_after := cancels_ordered hr
  stopped_once := hooks_prefix hr .onStopped
  stopped_all := by
    intro hpc
    refine hooks_of_returned hr hpc .onStopped ?_
    simp [LoopVars.hooked, hpc, HostPC.afterLoop]
  stopped_after := stopped_ordered hr

/-- A host with a startup task, a service that signals readiness, one that does
not, and a hook of each kind. -/
def smallHost : Host where
  services := [⟨"db", true, none⟩, ⟨"api", false, none⟩]
  tasks := [⟨"migrate"⟩]
  shutdownTimeout := 30
  startTimeout := 10
  onStarted := [⟨0⟩]
  onStopping := [⟨1⟩]
  onStopped := [⟨2⟩]
  observers := []
  names_nonempty := by decide
  names_nodup := by decide
  shutdownTimeout_pos := by decide
  policies_normal := by simp

/-- Both services are started and `Shutdown` is called; the second one stops in
time, the first one is abandoned at the deadline. -/
def smallRun : List Action :=
  [.host (.run .enter), .host (.task (.call 0)),
    .host (.task (.result 0 (.returned none) false)), .host (.task (.allDone 1)),
    .host (.run (.launch 0)), .host (.run (.lookReadier 0)), .sup 0 .start,
    .env (.closeReady 0), .host (.run (.ready 0)), .host (.run (.launch 1)),
    .host (.run (.lookReadier 1)), .host (.run (.started 2)),
    .call .host (.begins (.hook .onStarted ⟨0⟩)),
    .call .host (.ends (.hook .onStarted ⟨0⟩) false), .sup 1 .start, .env .shutdown,
    .host (.run .takeShutdown), .host (.run .beginStopping),
    .call .host (.begins (.hook .onStopping ⟨1⟩)),
    .call .host (.ends (.hook .onStopping ⟨1⟩) true), .host (.stop .enter),
    .host (.stop (.cancel 1)), .host (.stop (.issue 1 0)), .stopper 1 .call,
    .sup 1 (.result 0 (.returned none)), .sup 1 (.check 0 none),
    .sup 1 (.sendDone none false), .stopper 1 (.result (.returned none)),
    .host (.stop (.takeStop 1 0 none)), .host (.stop (.takeDone 1 0 none none)),
    .host (.stop (.cancel 0)), .host (.stop (.issue 0 0)), .stopper 0 .call,
    .env (.tick 30), .host (.stop (.abandon 0 0)), .host (.stop .leave),
    .call .host (.begins (.hook .onStopped ⟨2⟩)),
    .call .host (.ends (.hook .onStopped ⟨2⟩) false), .host (.run .join),
    .host (.run .ret)]

theorem lifecycle_smallRun :
    Lifecycle smallHost smallRun
      ((system smallHost).after (State.init smallHost) smallRun) :=
  lifecycle_of_run (Lts.Admits.run (by decide))

end Shost.Ports.Hosting
