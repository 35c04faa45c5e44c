import Shost.Ports.HostCallbacks

/-!
# The callbacks on one observer

The callbacks on an observer are to form one sequence: none begins before the
previous one has returned, `ServiceStarted` is the first and `ServiceStopped` the
last one about a service, and `HostStopped` is the last one of the run.  The host
goroutine alone keeps this order, but the supervisors call `ServiceRestarting` on
their own, and nothing makes them wait for the host goroutine or for one another.

## Main results

* `callbacks_overlap` — a run in which two callbacks on an observer overlap.
* `ordered_of_serial` — the callbacks are in order in every run in which
  `ServiceRestarting` is called while nobody else is in a callback on the observer,
  behind the `ServiceStarted` of its service and before its end, and in every run of
  a host that announces no restart to the observer.
-/

namespace Shost.Ports.Hosting

open Shost.Verified Trace

variable {h : Host} {ok : State h → Action → Prop} {τ : List Action} {s : State h}

/-- The callback has begun on the observer. -/
def MadeOn (o : Nat) (pre : List Action) (c : Callback) : Prop :=
  ∃ who, .call who (.begins (.callback o c)) ∈ pre

/-- Every callback that has begun on the observer has returned. -/
def AllReturned (o : Nat) (pre : List Action) : Prop :=
  ∀ p q who c, pre = p ++ .call who (.begins (.callback o c)) :: q →
    ∃ panicked, .call who (.ends (.callback o c) panicked) ∈ q

/-- The callbacks on an observer form one sequence that follows the lifecycle. -/
def Ordered (h : Host) (o : Nat) : List Action → Prop :=
  Guarded fun pre a => ∀ who c, a = .call who (.begins (.callback o c)) →
    AllReturned o pre ∧ InOrder h o (MadeOn o pre) c

/-! ## Serial restarts -/

/-- A callback on the observer. -/
def Callout.on (o : Nat) : Callout → Bool
  | .callback o' _ => decide (o' = o)
  | .hook _ _ => false

/-- The callback `ServiceStopped` of a service on the observer. -/
def Callout.stops (o i : Nat) : Callout → Bool
  | .callback o' (.serviceStopped k _ _) => decide (o' = o ∧ k = i)
  | _ => false

/-- The callback `HostStopped` on the observer. -/
def Callout.stopsHost (o : Nat) : Callout → Bool
  | .callback o' (.hostStopped _) => decide (o' = o)
  | _ => false

theorem Callout.stops_iff {o i : Nat} {x : Callout} :
    x.stops o i = true ↔ ∃ began err, x = .callback o (.serviceStopped i began err) := by
  cases x with
  | hook kind f => simp [Callout.stops]
  | callback o' c => cases c <;> simp [Callout.stops]

theorem Callout.stopsHost_iff {o : Nat} {x : Callout} :
    x.stopsHost o = true ↔ ∃ errs, x = .callback o (.hostStopped errs) := by
  cases x with
  | hook kind f => simp [Callout.stopsHost]
  | callback o' c => cases c <;> simp [Callout.stopsHost]

/-- The goroutine that begins a callback on the observer. -/
def Action.beginsOn (o : Nat) : Action → Option Actor
  | .call who (.begins (.callback o' _)) => if o' = o then some who else none
  | _ => none

/-- The service of a supervisor. -/
def Actor.service : Actor → Option Nat
  | .host => none
  | .sup i => some i

/-- The goroutine is in a callback on the observer. -/
def State.inCallback (s : State h) (o : Nat) (who : Actor) : Bool :=
  (s.callerOf who).current.any (Callout.on o)

/-- The host goroutine has come to `ServiceStopped` of a service. -/
def State.pastStopped (s : State h) (o i : Nat) : Bool :=
  decide (s.pc.toSettle s.launched ≤ i) && h.observes o (.serviceStopped i 0 none) &&
    !s.caller.queue.any (Callout.stops o i)

/-- The host goroutine has come to `HostStopped`. -/
def State.pastHostStopped (s : State h) (o : Nat) : Bool :=
  s.pc.afterJoin && h.observes o (.hostStopped []) && !s.caller.queue.any (Callout.stopsHost o)

/-- No callback on the observer begins while a supervisor is in another one, and a
supervisor begins one only when the host goroutine is in none, has called
`ServiceStarted` of the service, and has called neither its `ServiceStopped` nor
`HostStopped`. -/
def Serial (o : Nat) (s : State h) (a : Action) : Prop :=
  ∀ who ∈ a.beginsOn o,
    (∀ j < h.services.length, who ≠ .sup j → s.inCallback o (.sup j) = false) ∧
      ∀ i ∈ who.service, s.inCallback o .host = false ∧
        .callback o (.serviceStarted i) ∉ s.caller.queue ∧
          s.pastStopped o i = false ∧ s.pastHostStopped o = false

instance (o : Nat) (s : State h) (a : Action) : Decidable (Serial o s a) :=
  inferInstanceAs (Decidable (∀ who ∈ a.beginsOn o, _ ∧ ∀ i ∈ who.service, _ ∧ _))

/-- No restart is announced to the observer: it does not set `ServiceRestarting`, or
no service has a restart policy. -/
def Host.Unannounced (h : Host) (o : Nat) : Prop :=
  (∀ obs ∈ h.observers[o]?, obs.serviceRestarting = false) ∨
    ∀ reg ∈ h.services, reg.restart = none

/-- What supervisors call. -/
private theorem sup_begins (hr : RunIf h ok τ s) {i o : Nat} {c : Callback}
    (hg : (system h).guard s (.call (.sup i) (.begins (.callback o c))) = true) :
    (∃ attempt delay err, c = .serviceRestarting i attempt delay err) ∧ i < s.launched := by
  simp only [system, callGuard, decide_eq_true_eq] at hg
  have hmem : .callback o c ∈ (s.svc i).caller.queue := List.mem_of_mem_head? hg.2
  obtain ⟨o', attempt, delay, err, hc⟩ :=
    (restarting_of_run hr i).restarting _ (Or.inl hmem)
  obtain ⟨-, rfl⟩ := Callout.callback.inj hc
  have hobs := (restarting_of_run hr i).observing (Or.inl hmem)
  exact ⟨⟨attempt, delay, err, rfl⟩, launched_of_born hr (by simp [hobs])⟩

/-- A callback that has been made is in order before every one that is queued. -/
private theorem queued_inOrder (hr : RunIf h ok τ s) {o : Nat} {c c' : Callback}
    (hmade : c ∈ onObserver o (hostCalls τ)) (hqueued : .callback o c' ∈ s.caller.queue) :
    ∃ pre : List Callback, c ∈ pre ∧ InOrder h o (· ∈ pre) c' := by
  obtain ⟨q, rest, hq⟩ := List.append_of_mem (mem_onObserver.mpr hqueued)
  refine ⟨onObserver o (hostCalls τ) ++ q, List.mem_append_left _ hmade, ?_⟩
  refine (trail_of_run hr o).ordered _ c' rest ?_
  rw [trail, issued, onObserver_append, hq, List.append_assoc]

private theorem sup_inOrder (hr : RunIf h ok τ s) {i o : Nat} {c : Callback}
    (hg : (system h).guard s (.call (.sup i) (.begins (.callback o c))) = true)
    (hserial : Serial o s (.call (.sup i) (.begins (.callback o c)))) :
    InOrder h o (· ∈ onObserver o (hostCalls τ)) c := by
  obtain ⟨⟨attempt, delay, err, rfl⟩, hi⟩ := sup_begins hr hg
  obtain ⟨-, hstarted, hstopped, hhost⟩ := (hserial (.sup i) (by simp [Action.beginsOn])).2 i rfl
  have ht := trail_of_run hr o
  have hsplit : trail o τ s = onObserver o (hostCalls τ) ++ onObserver o s.caller.queue :=
    onObserver_append o _ _
  have hmade : ∀ c ∈ onObserver o (hostCalls τ), c ∈ trail o τ s := by
    intro c hc
    rw [hsplit]
    exact List.mem_append_left _ hc
  constructor
  · intro k hk _ hobs
    obtain rfl : i = k := by simpa [Callback.about] using hk
    have hin := ht.started i (by rwa [launches_eq hr, List.mem_range]) hobs
    rw [hsplit] at hin
    rcases List.mem_append.mp hin with hbegun | hqueued
    · exact hbegun
    · exact absurd (mem_onObserver.mp hqueued) hstarted
  · intro k hk
    cases hk
  · intro k began err' hk hbegun
    obtain rfl : i = k := by simpa [Callback.about] using hk
    have hset := ht.settled i began err' (hmade _ hbegun)
    rw [settles_eq hr, mem_lastDownTo] at hset
    have hobs : h.observes o (.serviceStopped i began err') = true :=
      ht.observed _ (hmade _ hbegun)
    have hobs' : h.observes o (.serviceStopped i 0 none) = true := hobs
    have hqueued : s.caller.queue.any (Callout.stops o i) = true := by
      simpa [State.pastStopped, hset.1, hobs'] using hstopped
    obtain ⟨x, hx, hstops⟩ := List.any_eq_true.mp hqueued
    obtain ⟨began', err'', rfl⟩ := Callout.stops_iff.mp hstops
    obtain ⟨pre, hpre, horder⟩ := queued_inOrder hr hbegun hx
    exact horder.stopped_last i began err' rfl hpre
  · intro errs hbegun
    have hafter := afterJoin_of_join hr (ht.joined errs (hmade _ hbegun))
    have hobs : h.observes o (.hostStopped errs) = true := ht.observed _ (hmade _ hbegun)
    have hobs' : h.observes o (.hostStopped []) = true := hobs
    have hqueued : s.caller.queue.any (Callout.stopsHost o) = true := by
      simpa [State.pastHostStopped, hafter, hobs'] using hhost
    obtain ⟨x, hx, hstops⟩ := List.any_eq_true.mp hqueued
    obtain ⟨errs', rfl⟩ := Callout.stopsHost_iff.mp hstops
    obtain ⟨pre, hpre, horder⟩ := queued_inOrder hr hbegun hx
    exact horder.host_last errs hpre

/-- A callback that begins is in order behind those of the host goroutine. -/
private theorem begun_inOrder (hr : RunIf h ok τ s) {who : Actor} {o : Nat} {c : Callback}
    (hg : (system h).guard s (.call who (.begins (.callback o c))) = true)
    (hserial : Serial o s (.call who (.begins (.callback o c)))) :
    InOrder h o (· ∈ onObserver o (hostCalls τ)) c := by
  cases who with
  | sup i => exact sup_inOrder hr hg hserial
  | host =>
      simp only [system, callGuard, decide_eq_true_eq] at hg
      have hhead : s.caller.queue.head? = some (.callback o c) := hg.2
      obtain ⟨rest, hqueue⟩ := List.head?_eq_some_iff.mp hhead
      refine (trail_of_run hr o).ordered _ c (onObserver o rest) ?_
      rw [trail, issued, onObserver_append, hqueue]
      simp [onObserver]

/-! ## The sequence of the callbacks -/

theorem mem_hostCalls {x : Callout} : x ∈ hostCalls τ ↔ .call .host (.begins x) ∈ τ := by
  simp only [hostCalls, List.mem_filterMap]
  constructor
  · rintro ⟨a, ha, hax⟩
    split at hax <;> simp_all
  · intro hx
    exact ⟨_, hx, rfl⟩

/-- A callback has been made by the host goroutine, or is the `ServiceRestarting` of
a supervisor. -/
private theorem made_cases (hr : RunIf h ok τ s) {o : Nat} {c : Callback}
    (hmade : MadeOn o τ c) :
    c ∈ onObserver o (hostCalls τ) ∨
      ∃ i attempt delay err, c = .serviceRestarting i attempt delay err ∧
        .call (.sup i) (.begins (.callback o c)) ∈ τ := by
  obtain ⟨who, hmem⟩ := hmade
  cases who with
  | host => exact Or.inl (mem_onObserver.mpr (mem_hostCalls.mpr hmem))
  | sup i =>
      obtain ⟨pre, post, s₁, rfl, hr₁, -, hg⟩ := hr.of_mem hmem
      obtain ⟨⟨attempt, delay, err, rfl⟩, -⟩ := sup_begins hr₁ hg
      exact Or.inr ⟨i, attempt, delay, err, rfl, hmem⟩

/-- The `ServiceStarted` that begins is set by the observer. -/
private theorem observes_of_begins (hr : RunIf h ok τ s) {who : Actor} {o i : Nat}
    (hg : (system h).guard s (.call who (.begins (.callback o (.serviceStarted i)))) = true) :
    h.observes o (.serviceStarted i) = true := by
  cases who with
  | sup k =>
      obtain ⟨⟨attempt, delay, err, heq⟩, -⟩ := sup_begins hr hg
      cases heq
  | host =>
      simp only [system, callGuard, decide_eq_true_eq] at hg
      have hmem : .callback o (.serviceStarted i) ∈ s.caller.queue := List.mem_of_mem_head? hg.2
      refine (trail_of_run hr o).observed _ (mem_onObserver.mpr ?_)
      exact List.mem_append_right _ hmem

/-- A callback that begins is in order behind all callbacks made. -/
private theorem inOrder_madeOn {o : Nat} (hr : RunIf h (Serial o) τ s) {who : Actor}
    {c : Callback} (hg : (system h).guard s (.call who (.begins (.callback o c))) = true)
    (hserial : Serial o s (.call who (.begins (.callback o c)))) :
    InOrder h o (MadeOn o τ) c := by
  have hc := begun_inOrder hr hg hserial
  constructor
  · intro i hi hne hstarted
    have hin := hc.started_before i hi hne hstarted
    exact ⟨.host, mem_hostCalls.mp (mem_onObserver.mp hin)⟩
  · rintro i rfl c' hmade habout
    rcases made_cases hr hmade with hin | ⟨k, attempt, delay, err, rfl, hmem⟩
    · exact hc.nothing_before i rfl c' hin habout
    · -- the restart was announced after `ServiceStarted`, which begins only now
      obtain rfl : k = i := by simpa [Callback.about] using habout
      obtain ⟨pre, post, s₁, rfl, hr₁, hserial₁, hg₁⟩ := hr.of_mem hmem
      have hin := (sup_inOrder hr₁ hg₁ hserial₁).started_before k rfl (by simp)
        (observes_of_begins hr hg)
      refine hc.nothing_before k rfl (.serviceStarted k) ?_ rfl
      rw [mem_onObserver, mem_hostCalls] at hin ⊢
      exact List.mem_append_left _ hin
  · intro i began err hi hmade
    rcases made_cases hr hmade with hin | ⟨k, attempt, delay, err', heq, -⟩
    · exact hc.stopped_last i began err hi hin
    · cases heq
  · intro errs hmade
    rcases made_cases hr hmade with hin | ⟨k, attempt, delay, err', heq, -⟩
    · exact hc.host_last errs hin
    · cases heq

/-- When a callback begins, no other goroutine is in a callback on the observer. -/
private theorem nobody_inside (hr : RunIf h ok τ s) {who who' : Actor} {o : Nat}
    {c c' : Callback} (hg : (system h).guard s (.call who (.begins (.callback o c))) = true)
    (hserial : Serial o s (.call who (.begins (.callback o c)))) :
    (s.callerOf who').current ≠ some (.callback o c') := by
  intro hcurrent
  have hinside : s.inCallback o who' = true := by
    simp [State.inCallback, hcurrent, Callout.on]
  by_cases hsame : who' = who
  · subst hsame
    simp only [system, callGuard, decide_eq_true_eq] at hg
    rw [hg.1] at hcurrent
    cases hcurrent
  · obtain ⟨hsups, hhost⟩ := hserial who (by simp [Action.beginsOn])
    cases who' with
    | sup j =>
        have hobs := (restarting_of_run hr j).observing (Or.inr hcurrent)
        have hj : j < h.services.length := Nat.lt_of_lt_of_le
          (launched_of_born hr (by simp [hobs])) (placed_of_run hr).launched_le
        rw [hsups j hj (Ne.symm hsame)] at hinside
        cases hinside
    | host =>
        cases who with
        | host => exact hsame rfl
        | sup i =>
            rw [(hhost i rfl).1] at hinside
            cases hinside

private theorem ordered_of_runIf {o : Nat} (hr : RunIf h (Serial o) τ s) :
    Ordered h o τ := by
  refine hr.guarded ?_
  rintro τ s a hr hserial hg who c rfl
  refine ⟨?_, inOrder_madeOn hr hg hserial⟩
  rintro p q who' c' rfl
  rcases returned_or_current hr with hended | hcurrent
  · exact hended
  · exact absurd hcurrent (nobody_inside hr hg hserial)

/-! ## Restarts that are not announced -/

/-- What a supervisor calls is announced: the observer sets `ServiceRestarting` and
the service has a restart policy. -/
private theorem announced_of_calling (hr : RunIf h ok τ s) {i o : Nat} {c : Callback}
    (hmem : .callback o c ∈ (s.svc i).caller.queue ∨
      (s.svc i).caller.current = some (.callback o c)) : ¬ h.Unannounced o := by
  obtain ⟨o', attempt, delay, err, heq⟩ := (restarting_of_run hr i).restarting _ hmem
  obtain ⟨-, rfl⟩ := Callout.callback.inj heq
  obtain ⟨hobs, hpol⟩ := (restarting_of_run hr i).announced _ _ hmem
  rintro (hunset | hnone)
  · obtain ⟨obs, hget, hsets⟩ := (Option.any_eq_true _ _).mp hobs
    have hset : obs.serviceRestarting = true := hsets
    rw [hunset obs hget] at hset
    cases hset
  · obtain ⟨pol, hrestart⟩ := Option.isSome_iff_exists.mp hpol
    obtain ⟨reg, hget, hreg⟩ := Option.bind_eq_some_iff.mp hrestart
    rw [hnone reg (List.mem_of_getElem? hget)] at hreg
    cases hreg

/-- Where no restart is announced no supervisor calls the observer. -/
private theorem serial_of_unannounced (hr : RunIf h ok τ s) {o : Nat}
    (hquiet : h.Unannounced o) {a : Action} (hg : (system h).guard s a = true) :
    Serial o s a := by
  intro who hwho
  constructor
  · intro j _ _
    by_contra hinside
    obtain ⟨x, hcurrent, hon⟩ := (Option.any_eq_true _ _).mp (eq_true_of_ne_false hinside)
    cases x with
    | hook kind f => cases hon
    | callback o' c =>
        obtain rfl : o' = o := of_decide_eq_true hon
        exact announced_of_calling hr (Or.inr hcurrent) hquiet
  · intro i hi
    -- a supervisor would begin a callback that is queued
    exfalso
    cases who with
    | host => cases hi
    | sup k =>
        cases a with
        | call who' b =>
            cases b with
            | ends x panicked => cases hwho
            | begins x =>
                cases x with
                | hook kind f => cases hwho
                | callback o' c =>
                    by_cases ho : o' = o
                    · subst ho
                      obtain rfl : who' = .sup k := by simpa [Action.beginsOn] using hwho
                      simp only [system, callGuard, decide_eq_true_eq] at hg
                      have hhead : (s.svc k).caller.queue.head? = some (.callback o' c) := hg.2
                      exact announced_of_calling hr (Or.inl (List.mem_of_mem_head? hhead)) hquiet
                    · simp [Action.beginsOn, ho] at hwho
        | _ => cases hwho

/-- The callbacks on an observer are in order in every run in which the supervisors
call `ServiceRestarting` while nobody else is in a callback on the observer, behind
the `ServiceStarted` of the service and before its end.  Every run is one of these
when the observer does not set `ServiceRestarting` or no service is restarted. -/
theorem ordered_of_serial (h : Host) (o : Nat) :
    (∀ (τ : List Action) (s : State h), RunIf h (Serial o) τ s → Ordered h o τ) ∧
      (h.Unannounced o → ∀ (τ : List Action) (s : State h), Run h τ s →
        RunIf h (Serial o) τ s ∧ Ordered h o τ) := by
  refine ⟨fun τ s hr => ordered_of_runIf hr, fun hquiet τ s hr => ?_⟩
  have hserial : RunIf h (Serial o) τ s :=
    hr.invariant (fun τ s => RunIf h (Serial o) τ s) .nil
      fun τ s a hr ih _ hg => ih.snoc (serial_of_unannounced hr hquiet hg) hg
  exact ⟨hserial, ordered_of_runIf hserial⟩

/-- An observer that sets every callback. -/
def fullObserver : Observer := ⟨true, true, true, true, true, true, true⟩

/-- Restart after a second, then after two and so on up to a minute. -/
def doublingPolicy : RestartPolicy where
  maxAttempts := 0
  initialDelay := 1000000000
  maxDelay := 60000000000
  factor := 2
  resetAfter := 60000000000

/-- A host with one service that is restarted, and an observer. -/
def observedHost : Host :=
  { Host.ofServices [⟨"worker", false, some doublingPolicy⟩] (by decide) (by decide)
      (by
        simp only [List.mem_singleton, forall_eq, Option.mem_def, Option.some.injEq, forall_eq']
        exact ⟨by decide, by decide, by decide, by norm_num [doublingPolicy], by decide⟩) with
    observers := [fullObserver] }

/-- `Start` returns while the host goroutine is still in `ServiceStarted`. -/
def overlappingRun : List Action :=
  [.host (.run .enter), .host (.run (.launch 0)),
    .call .host (.begins (.callback 0 (.serviceStarted 0))), .sup 0 .start,
    .sup 0 (.result 0 (.returned none)), .sup 0 (.check 0 none),
    .call (.sup 0) (.begins (.callback 0 (.serviceRestarting 0 1 1000000000 none)))]

/-- Two callbacks on an observer can overlap. -/
theorem callbacks_overlap : ¬ ∀ (h : Host) (τ : List Action) (s : State h),
    Run h τ s → ∀ o, Ordered h o τ := by
  intro hall
  have hr : Run observedHost overlappingRun _ := Lts.Admits.run (by decide)
  have hordered := hall observedHost overlappingRun _ hr 0 (overlappingRun.take 6) _ [] rfl
    (.sup 0) (.serviceRestarting 0 1 1000000000 none) rfl
  obtain ⟨panicked, hended⟩ := hordered.1 (overlappingRun.take 2)
    ((overlappingRun.take 6).drop 3) .host (.serviceStarted 0) rfl
  revert hended
  cases panicked <;> decide

/-- `Start` returns after the host goroutine has left `ServiceStarted`. -/
def serialRun : List Action :=
  [.host (.run .enter), .host (.run (.launch 0)),
    .call .host (.begins (.callback 0 (.serviceStarted 0))),
    .call .host (.ends (.callback 0 (.serviceStarted 0)) false), .sup 0 .start,
    .sup 0 (.result 0 (.returned none)), .sup 0 (.check 0 none),
    .call (.sup 0) (.begins (.callback 0 (.serviceRestarting 0 1 1000000000 none))),
    .call (.sup 0) (.ends (.callback 0 (.serviceRestarting 0 1 1000000000 none)) false),
    .host (.run (.lookReadier 0)), .host (.run (.started 1)),
    .call .host (.begins (.callback 0 .hostStarted))]

/-- The same observer on a host whose service is not restarted. -/
def unrestartedHost : Host := { soloHost with observers := [fullObserver] }

theorem ordered_of_serial_serialRun :
    Ordered observedHost 0 serialRun ∧
      ∀ (τ : List Action) (s : State unrestartedHost), Run unrestartedHost τ s →
        Ordered unrestartedHost 0 τ := by
  have hquiet : unrestartedHost.Unannounced 0 := by
    refine Or.inr fun reg hreg => ?_
    obtain rfl := List.mem_singleton.mp hreg
    rfl
  exact ⟨(ordered_of_serial observedHost 0).1 _ _ (Lts.Admits.run (by decide)),
    fun τ s hr => ((ordered_of_serial unrestartedHost 0).2 hquiet τ s hr).2⟩

end Shost.Ports.Hosting
