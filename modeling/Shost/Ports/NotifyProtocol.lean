import Shost.Ports.FuncService
import Shost.Ports.HostHooks
import Shost.Ports.Watchdog

/-!
# What systemd is told

`Bind` wires three messages with the life of a host: a hook of `OnStarted` says that it is
ready, one of `OnStopping` that it stops, and the watchdog service says again and again
that it is alive.  systemd takes a unit of type `notify` for started when it is told so.

The errors of the socket are dropped, so that a message is an attempt to send it.

## Main results

* `notifies_of_run` — when the hooks send their messages.
* `pings_of_run` — when the watchdog service does, and that nothing is sent in the end.
-/

namespace Shost.Ports.Systemd

open Verified Lts Beside Trace Bytes Hosting Building
open GoTime (Time)

/-! ## The hooks -/

inductive Message where
  | ready
  | stopping
  | watchdog
  deriving DecidableEq

/-- What `Ready`, `Stopping` and `Watchdog` hand to `Notify`. -/
def Message.text : Message → String
  | .ready => "READY=1"
  | .stopping => "STOPPING=1"
  | .watchdog => "WATCHDOG=1"

/-- The steps of a hook; of `Notify` the result is shown. -/
inductive HookAct where
  | begins (m : Message)
  | notified (m : Message) (r : Result)
  | ends (m : Message)

def HookAct.course : HookAct → CourseAct Message
  | begins m => .begins m
  | notified m _ => .does m
  | ends m => .ends m false

/-- The functions that `Bind` registers as hooks. -/
def notifier : Listener Message (Course Message) HookAct where
  system :=
    { guard := fun c a => c.allows a.course
      effect := fun c a => c.next a.course }
  init := .idle
  act := fun a => some a.course
  course := id
  course_init := rfl
  keeps := fun hg => .takes hg

/-- What the hooks say. -/
def hookMessage (code : Code) : HookKind → Hook → Option Message
  | .onStarted, f => if f = code.ready then some .ready else none
  | .onStopping, f => if f = code.stopping then some .stopping else none
  | .onStopped, _ => none

variable {h : Host} {σ α : Type} {E : Setting h σ α} {code : Code}
  {τ : List (Beside α HookAct)} {s : σ × Course Message}

abbrev NotifyRun (E : Setting h σ α) (code : Code) (τ : List (Beside α HookAct))
    (s : σ × Course Message) : Prop :=
  HookedRun E (hookMessage code) notifier τ s

/-- The messages that the hooks have sent. -/
def announced (τ : List (Beside α HookAct)) : List Message := notifier.performed (rights τ)

/-- An action is the sending of a message. -/
def Sends (m : Message) (c : Beside α HookAct) : Prop := ∃ r, c.right? = some (.notified m r)

/-- What the hooks of a host tell systemd. -/
structure Notifies (E : Setting h σ α) (τ : List (Beside α HookAct))
    (s : σ × Course Message) : Prop where
  ready_once : (announced τ).count .ready ≤ 1
  stopping_once : (announced τ).count .stopping ≤ 1
  /-- the unit is said to be ready when all services are launched and ready, none has been
  stopped, and it was not said to be stopping -/
  ready_when : Guarded (fun pre c => Sends .ready c →
    launches (hostActs (E.acts pre)) = List.range h.services.length ∧
      (∀ j < h.services.length, h.readier j = true → .env (.closeReady j) ∈ E.acts pre) ∧
        (∀ a ∈ E.acts pre, ¬ a.stops) ∧ .stopping ∉ announced pre) τ
  /-- it is said to be stopping before the first service is stopped -/
  stopping_first : Guarded (fun pre c => ∀ a, c.left?.bind E.host? = some a → a.stops →
    .stopping ∈ announced pre) τ
  /-- and so it is in every run that comes to its end -/
  stopping_sent : (E.state s.1).pc = .returned → (announced τ).count .stopping = 1

private theorem hook_of_message {kind : HookKind} {f : Hook} {m : Message}
    (hm : hookMessage code kind f = some m) :
    (m = .ready ∧ kind = .onStarted ∧ f = code.ready) ∨
      m = .stopping ∧ kind = .onStopping ∧ f = code.stopping := by
  cases kind with
  | onStarted =>
      obtain ⟨hf, hsome⟩ := Option.ite_none_right_eq_some.mp hm
      exact Or.inl ⟨(Option.some.inj hsome).symm, rfl, hf⟩
  | onStopping =>
      obtain ⟨hf, hsome⟩ := Option.ite_none_right_eq_some.mp hm
      exact Or.inr ⟨(Option.some.inj hsome).symm, rfl, hf⟩
  | onStopped => cases hm

/-- Behind `STOPPING=1` the hooks send nothing else. -/
private theorem messages_sorted (hr : NotifyRun E code τ s) :
    (notices (hookMessage code) (hostCalls (E.acts τ))).Pairwise
      fun m m' => m = .stopping → m' = .stopping := by
  refine called_sorted hr ?_
  rintro kind f m kind' f' m' hm hm' hrank rfl
  rcases hook_of_message hm with ⟨hno, -⟩ | ⟨-, rfl, -⟩
  · cases hno
  · rcases hook_of_message hm' with ⟨rfl, rfl, -⟩ | ⟨rfl, -, -⟩
    · cases hrank
    · rfl

private theorem count_announced (hr : NotifyRun E code τ s) {m : Message} (kind : HookKind)
    (f : Hook) (hm : ∀ kind' f', hookMessage code kind' f' = some m → kind' = kind ∧ f' = f)
    (honce : (h.hooks kind).count f = 1) : (announced τ).count m ≤ 1 :=
  have hcalled := hooks_prefix hr.host kind
  calc (announced τ).count m
      ≤ (notices (hookMessage code) (hostCalls (E.acts τ))).count m :=
        (performed_prefix_called hr).sublist.count_le m
    _ ≤ (hooksOf kind (hostCalls (E.acts τ))).count f := count_notices_le hm _
    _ ≤ (h.hooks kind).count f := hcalled.sublist.count_le f
    _ = 1 := honce

private theorem stopping_of_hook (hr : NotifyRun E code τ s)
    (hret : .hook .onStopping code.stopping ∈ hostReturns (E.acts τ)) :
    .stopping ∈ announced τ :=
  (returned_prefix_performed hr).mem (mem_notices.mpr ⟨.onStopping, code.stopping, hret, if_pos rfl⟩)

private theorem ready_when (hr : NotifyRun E code τ s) {c : Beside α HookAct}
    (hdown : code.stopping ∈ h.onStopping)
    (hg : (hooked E (hookMessage code) notifier).guard s c = true) (hc : Sends .ready c) :
    launches (hostActs (E.acts τ)) = List.range h.services.length ∧
      (∀ j < h.services.length, h.readier j = true → .env (.closeReady j) ∈ E.acts τ) ∧
        (∀ a ∈ E.acts τ, ¬ a.stops) ∧ .stopping ∉ announced τ := by
  obtain ⟨r, hright⟩ := hc
  have hcourse : s.2 = .begun .ready := of_decide_eq_true ((step_sides hg).2.1 _ hright)
  have hcalled := called_eq hr
  have hopen : (notifier.course s.2).open? = some .ready := by rw [hcourse]; rfl
  rw [hopen, Option.toList_some] at hcalled
  have hsorted := messages_sorted hr
  rw [hcalled, List.pairwise_append] at hsorted
  have hnot : .stopping ∉ announced τ := fun hmem =>
    Message.noConfusion (hsorted.2.2 _ hmem .ready (List.mem_singleton_self _) rfl)
  have hmem : .ready ∈ notices (hookMessage code) (hostCalls (E.acts τ)) := by
    rw [hcalled]
    exact List.mem_append_right _ (List.mem_singleton_self _)
  obtain ⟨kind, f, hf, hm⟩ := mem_notices.mp hmem
  obtain ⟨-, rfl, -⟩ | ⟨hno, -⟩ := hook_of_message hm
  · obtain ⟨hlaunched, hclosed⟩ := launched_of_called hr.host hf
    refine ⟨hlaunched, hclosed, fun a ha hstops => hnot ?_, hnot⟩
    exact stopping_of_hook hr (returned_of_stops hr.host ha hstops hdown)
  · cases hno

/-- A host that has the two hooks once tells systemd what is the case. -/
private theorem notifies_of_hooks (hr : NotifyRun E code τ s)
    (hup : h.onStarted.count code.ready = 1) (hdown : h.onStopping.count code.stopping = 1) :
    Notifies E τ s := by
  have hmem : code.stopping ∈ h.onStopping := List.count_pos_iff.mp (hdown ▸ Nat.one_pos)
  have hstopping : (announced τ).count .stopping ≤ 1 :=
    count_announced hr .onStopping code.stopping (fun kind' f' hm => by
      obtain ⟨hno, -⟩ | ⟨-, hkind⟩ := hook_of_message hm
      · cases hno
      · exact hkind) hdown
  refine
    { ready_once := count_announced hr .onStarted code.ready (fun kind' f' hm => by
        obtain ⟨-, hkind⟩ | ⟨hno, -⟩ := hook_of_message hm
        · exact hkind
        · cases hno) hup
      stopping_once := hstopping
      ready_when := Lts.Run.guarded hr fun τ s c hr _ hg hc => ready_when hr hmem hg hc
      stopping_first := ?_
      stopping_sent := ?_ }
  · refine Lts.Run.guarded hr ?_
    intro τ s c hr _ hg a hc hstops
    have hnext := hr.snoc trivial hg
    have hhost := HookedRun.host hnext
    rw [Setting.acts_snoc τ hc] at hhost
    exact stopping_of_hook hr (returned_before_stops hhost hstops hmem)
  · intro hpc
    have hsent := stopping_of_hook hr (stopping_of_returned hr.host hpc hmem)
    exact Nat.le_antisymm hstopping (List.count_pos_iff.mpr hsent)

/-! ## What `Bind` registers -/

variable {env : Env} {b : Builder}

/-- What a call of the builder adds to the hooks. -/
private theorem apply_hooks (call : Building.Call) (b : Builder) :
    (call.apply b).onStarted = b.onStarted ++ call.onStarted?.toList ∧
      (call.apply b).onStopping = b.onStopping ++ call.onStopping?.toList := by
  by_cases hcall : call.Invalid b.names
  · obtain ⟨err, hreport, heq⟩ := apply_invalid hcall
    rw [heq]
    cases hreport <;> simp [Builder.reject]
  · exact ⟨(adds_of_valid hcall).onStarted, (adds_of_valid hcall).onStopping⟩

private theorem foldl_hooks (calls : List Building.Call) (b : Builder) :
    (calls.foldl Building.Call.apply b).onStarted =
        b.onStarted ++ calls.filterMap Building.Call.onStarted? ∧
      (calls.foldl Building.Call.apply b).onStopping =
        b.onStopping ++ calls.filterMap Building.Call.onStopping? := by
  induction calls generalizing b with
  | nil => simp
  | cons call calls ih =>
      obtain ⟨hstarted, hstopping⟩ := apply_hooks call b
      rw [List.foldl_cons, (ih _).1, (ih _).2, hstarted, hstopping]
      rw [List.filterMap_cons, List.filterMap_cons]
      constructor
      · cases call.onStarted? <;> simp
      · cases call.onStopping? <;> simp

/-- Under systemd the two hooks are registered behind those that the builder has. -/
theorem bind_hooks (code : Code) (havailable : available env = true) (b : Builder) :
    (bind code env b).onStarted = b.onStarted ++ [code.ready] ∧
      (bind code env b).onStopping = b.onStopping ++ [code.stopping] := by
  rw [bind, if_pos havailable]
  cases watchdogEnabled env with
  | mk d enabled =>
      cases enabled with
      | false => exact ⟨rfl, rfl⟩
      | true =>
          obtain ⟨hstarted, hstopping⟩ := apply_hooks (.addService _ []) _
          exact ⟨hstarted.trans (List.append_nil _), hstopping.trans (List.append_nil _)⟩

private theorem count_between {f : Hook} {hooks hooks' : List Hook} (hfresh : f ∉ hooks)
    (hlater : f ∉ hooks') : (hooks ++ [f] ++ hooks').count f = 1 := by
  rw [List.count_append, List.count_append, List.count_eq_zero_of_not_mem hfresh,
    List.count_eq_zero_of_not_mem hlater, List.count_singleton_self]

/-- A host that is built from a builder behind `Bind` tells systemd what is the case,
whatever else the builder is called with, unless that registers the two hooks again. -/
theorem notifies_of_run {calls : List Building.Call}
    {E : Setting (calls.foldl Building.Call.apply (bind code env b)).toHost.host σ α}
    (havailable : available env = true) (hready : code.ready ∉ b.onStarted)
    (hstopping : code.stopping ∉ b.onStopping)
    (hready' : code.ready ∉ calls.filterMap Building.Call.onStarted?)
    (hstopping' : code.stopping ∉ calls.filterMap Building.Call.onStopping?)
    (hr : NotifyRun E code τ s) : Notifies E τ s := by
  obtain ⟨hup, hdown⟩ := bind_hooks code havailable b
  obtain ⟨hup', hdown'⟩ := foldl_hooks calls (bind code env b)
  refine notifies_of_hooks hr ?_ ?_
  · show (calls.foldl Building.Call.apply (bind code env b)).onStarted.count code.ready = 1
    rw [hup', hup]
    exact count_between hready hready'
  · show (calls.foldl Building.Call.apply (bind code env b)).onStopping.count code.stopping = 1
    rw [hdown', hdown]
    exact count_between hstopping hstopping'

/-! ## The watchdog service -/

/-- A call of `Start` has ended in this way. -/
def State.endsWith (t : State) (o : Outcome) : Bool :=
  match t.pc with
  | .returned r => decide (o = .returned r)
  | .panicked value =>
      match o with
      | .panicked value' _ => decide (value' = value)
      | .returned _ => false
  | _ => false

/-- The function that the watchdog service is made of. -/
def watchdog (interval : Duration) : Body Time State Action where
  system := start interval
  init := State.init
  cancel := .cancel .canceled
  own
    | .cancel _ => false
    | _ => true
  canceled := fun t => t.ctx.isSome
  ended := State.endsWith
  init_open := fun _ => rfl
  cancel_can := fun _ hopen => decide_eq_true (Option.not_isSome_iff_eq_none.mp (by simp [hopen]))
  cancel_done := fun _ => rfl
  own_keeps := by
    intro t b hown _
    cases b with
    | cancel e => cases hown
    | makeTicker =>
        show (if interval ≤ 0 then _ else _ : State).ctx.isSome = _
        split <;> rfl
    | _ => rfl

/-- A host with its watchdog service and the hooks, and what they do. -/
abbrev WatchedRun (interval : Duration) (h : Host) (i : Nat) (code : Code)
    (τ : List (Beside (Beside Hosting.Action (FuncAct Time Action)) HookAct))
    (s : (Hosting.State h × FuncState State) × Course Message) : Prop :=
  NotifyRun (Setting.serving (watchdog interval).component h i) code τ s

/-- An action is the end of a ping. -/
def PingEnds (c : Beside (Beside Hosting.Action (FuncAct Time Action)) HookAct) : Prop :=
  ∃ r, c.left?.bind right? = some (.step (.pinged r))

/-- What the watchdog service does in its host. -/
structure Pings (interval : Duration) (h : Host) (i : Nat) (code : Code)
    (τ : List (Beside (Beside Hosting.Action (FuncAct Time Action)) HookAct))
    (s : (Hosting.State h × FuncState State) × Course Message) : Prop where
  /-- it pings while a call of its `Start` is in progress -/
  within : Guarded (fun pre c => PingEnds c → Serving (deeds i (lefts (lefts pre)))) τ
  /-- it does not stop its host, and the shutdown does not fail because of it -/
  harmless : 0 < interval → (∀ r, .host (.run (.takeExit ⟨i, r⟩)) ∉ lefts (lefts τ)) ∧
    (∀ err, .failedDuringShutdown i err ∉ s.1.1.errs) ∧ ∀ err, .stopping i err ∉ s.1.1.errs
  /-- unless it is said not to have stopped, systemd is told nothing when `RunContext` has
  returned -/
  silent : s.1.1.pc = .returned → .didNotStop i ∉ s.1.1.errs →
    ∀ c, (hooked (Setting.serving (watchdog interval).component h i) (hookMessage code)
      notifier).guard s c = true → ¬ PingEnds c ∧ ∀ m, ¬ Sends m c

section Watched

variable {h : Host} {i : Nat} {interval : Duration}
  {τ : List (Beside (Beside Hosting.Action (FuncAct Time Action)) HookAct)}
  {s : (Hosting.State h × FuncState State) × Course Message}

private theorem func_run (hr : WatchedRun interval h i code τ s) :
    FuncRun (watchdog interval) h i (lefts τ) s.1 := Run.fst hr

/-- A ping ends in a call that is in progress. -/
private theorem call_of_ping {c : Beside (Beside Hosting.Action (FuncAct Time Action)) HookAct}
    (hg : (hooked (Setting.serving (watchdog interval).component h i) (hookMessage code)
      notifier).guard s c = true) (hc : PingEnds c) : s.1.2.call.isSome = true := by
  obtain ⟨r, hright⟩ := hc
  obtain ⟨x, hx, hxr⟩ := Option.bind_eq_some_iff.mp hright
  have hhosted : (hosted (watchdog interval).component h i).guard s.1 x = true :=
    (step_sides hg).1 x hx
  have hstep : (watchdog interval).guard s.1.2 (.step (.pinged r)) = true :=
    (step_sides hhosted).2.1 _ hxr
  obtain ⟨t, hcall, -⟩ := (watchdog interval).call_of_step hstep
  rw [hcall]
  rfl

private theorem serving_of_call (hr : WatchedRun interval h i code τ s)
    (hcall : s.1.2.call.isSome = true) : Serving (deeds i (lefts (lefts τ))) := by
  have hrun := func_run hr
  have hkeeps := Component.contract_of_runs hrun.service
  rw [← deeds_of_hosted hrun] at hkeeps
  refine (serving_iff_of_runs hkeeps).mpr ?_
  exact (inCall_of_run hrun.service).serving.symm.trans hcall

/-- A call finds its context canceled, if it finds it done. -/
private theorem canceled_of_calls {t : State} (ht : (watchdog interval).Calls t) {e : CtxErr} :
    t.ctx = some e → e = .canceled := by
  obtain ⟨now, υ, hr⟩ := ht
  refine hr.invariant (fun _ (t : State) => t.ctx = some e → e = .canceled) nofun ?_
  intro υ t b _ ih hb hg hctx
  cases b with
  | cancel e' =>
      obtain hown | hcancel := hb
      · cases hown
      · obtain rfl : e' = .canceled := Action.cancel.inj hcancel
        exact (Option.some.inj hctx).symm
  | makeTicker =>
      refine ih (Eq.trans ?_ hctx)
      show t.ctx = (if interval ≤ 0 then _ else _ : State).ctx
      split <;> rfl
  | _ => exact ih hctx

/-- With a positive interval the function ends when its context is done, and says so. -/
private theorem canceled_of_ended (hpos : 0 < interval) {t : State}
    (ht : (watchdog interval).Calls t) {o : Outcome} (hended : t.endsWith o = true) :
    (watchdog interval).canceled t = true ∧ o = .returned (some CtxErr.canceled.error) := by
  have honly (e : CtxErr) : t.ctx = some e → e = .canceled := canceled_of_calls ht
  obtain ⟨now, υ, hr⟩ := ht
  have hregular : Regular interval t := regular_of_run (hr.imp fun _ _ _ _ => trivial)
  rw [Regular] at hregular
  rw [State.endsWith] at hended
  cases hpc : t.pc with
  | returned r =>
      rw [hpc] at hregular hended
      obtain ⟨-, e, hctx, rfl⟩ := hregular
      obtain rfl := honly e hctx
      exact ⟨Option.isSome_iff_exists.mpr ⟨_, hctx⟩, of_decide_eq_true hended⟩
  | panicked value =>
      rw [hpc] at hregular
      exact absurd hpos (not_lt.mpr hregular.1)
  | _ =>
      rw [hpc] at hended
      cases hended

private theorem harmless_of_run (hpos : 0 < interval) (hr : WatchedRun interval h i code τ s) :
    (∀ r, .host (.run (.takeExit ⟨i, r⟩)) ∉ lefts (lefts τ)) ∧
      (∀ err, .failedDuringShutdown i err ∉ s.1.1.errs) ∧
        ∀ err, .stopping i err ∉ s.1.1.errs := by
  have hfunc := func_run hr
  refine ⟨fun r hmem => ?_, fun err hmem => ?_, funcStop_of_run hfunc⟩
  · obtain ⟨t, o, ht, hopen, hended, -⟩ := funcExit_of_run hfunc hmem
    rw [(canceled_of_ended hpos ht hended).1] at hopen
    cases hopen
  · obtain ⟨hclean, t, o, ht, hended, ho⟩ := funcFailure_of_run hfunc hmem
    obtain ⟨-, rfl⟩ := canceled_of_ended hpos ht hended
    obtain rfl : CtxErr.canceled.error = err := Option.some.inj ho
    cases hclean

/-- When `RunContext` has returned, no hook is being called. -/
private theorem idle_of_returned (hr : WatchedRun interval h i code τ s)
    (hpc : s.1.1.pc = .returned) (m : Message) : s.2 ≠ .begun m := by
  intro hcourse
  have hhost := HookedRun.host hr
  obtain ⟨hreturns, hcalls⟩ := returns_of_idle hhost (caller_of_returned hhost hpc)
  have hcalled := called_eq hr
  have hdone := performed_eq hr
  have hopen : (notifier.course s.2).open? = some m := by rw [hcourse]; rfl
  have hnone : (notifier.course s.2).done? = none := by rw [hcourse]; rfl
  rw [hnone, Option.toList_none, List.append_nil] at hdone
  rw [hopen, hdone, hreturns, hcalls, Option.toList_some] at hcalled
  exact absurd (congrArg List.length hcalled) (by simp)

theorem pings_of_run (hr : WatchedRun interval h i code τ s) : Pings interval h i code τ s where
  within := by
    refine Lts.Run.guarded hr ?_
    intro τ s c hr _ hg hc
    exact serving_of_call hr (call_of_ping hg hc)
  harmless := fun hpos => harmless_of_run hpos hr
  silent := by
    intro hpc hstopped c hg
    refine ⟨fun hc => ?_, ?_⟩
    · have hnone := (funcReleased_of_run (func_run hr) hpc hstopped).1
      have hsome := call_of_ping hg hc
      rw [hnone] at hsome
      cases hsome
    · rintro m ⟨r, hright⟩
      have hcourse : s.2 = .begun m := of_decide_eq_true ((step_sides hg).2.1 _ hright)
      exact idle_of_returned hr hpc m hcourse

end Watched

/-- A unit with a watchdog of 30 seconds. -/
def halfMinute : Env where
  notifySocket := utf8 "@notify"
  watchdogUsec := utf8 "30000000"
  watchdogPid := []
  pid := 7

/-- A host with the watchdog, and a hook that is registered behind `Bind`. -/
def halfMinuteHost : Host :=
  let later : List Building.Call := [.onStarted (some ⟨9⟩)]
  (later.foldl Building.Call.apply (bind functions halfMinute new)).toHost.host

/-- The host is ready, pings once and is shut down; its watchdog stops in time. -/
def halfMinuteRun : List (Beside (Beside Hosting.Action (FuncAct Time Action)) HookAct) :=
  [.left (.left (.host (.run .enter))), .left (.left (.host (.run (.launch 0)))),
    .left (.left (.host (.run (.lookReadier 0)))), .left (.both (.sup 0 .start) (.start .zero)),
    .left (.left (.host (.run (.started 1)))), .left (.right (.step .makeTicker)),
    .both (.left (.call .host (.begins (.hook .onStarted ⟨0⟩)))) (.begins .ready),
    .right (.notified .ready none),
    .both (.left (.call .host (.ends (.hook .onStarted ⟨0⟩) false))) (.ends .ready),
    .left (.left (.call .host (.begins (.hook .onStarted ⟨9⟩)))),
    .left (.left (.call .host (.ends (.hook .onStarted ⟨9⟩) false))),
    .left (.right (.step (.wait 15000000000))),
    .left (.right (.step (.tick ⟨15000000000, 15000000000⟩))),
    .left (.right (.step (.takeTick 15000000000))), .left (.right (.step (.pinged none))),
    .left (.left (.env .shutdown)), .left (.left (.host (.run .takeShutdown))),
    .left (.both (.host (.run .beginStopping)) .shutdown),
    .both (.left (.call .host (.begins (.hook .onStopping ⟨1⟩)))) (.begins .stopping),
    .right (.notified .stopping none),
    .both (.left (.call .host (.ends (.hook .onStopping ⟨1⟩) false))) (.ends .stopping),
    .left (.left (.host (.stop .enter))), .left (.both (.host (.stop (.cancel 0))) .cancel),
    .left (.right (.step (.takeCtx .canceled))), .left (.left (.host (.stop (.issue 0 0)))),
    .left (.both (.stopper 0 .call) .stop),
    .left (.both (.stopper 0 (.result (.returned none))) .stopReturns),
    .left (.left (.host (.stop (.takeStop 0 0 none)))),
    .left (.both (.sup 0 (.result 0 (.returned (some CtxErr.canceled.error))))
      (.returns (.returned (some CtxErr.canceled.error)))),
    .left (.left (.sup 0 (.check 0 (some CtxErr.canceled.error)))),
    .left (.left (.sup 0 (.sendDone (some CtxErr.canceled.error) false))),
    .left (.left (.host (.stop (.takeDone 0 0 none (some CtxErr.canceled.error))))),
    .left (.left (.host (.stop .leave))), .left (.left (.host (.run .join))),
    .left (.left (.host (.run .ret)))]

/-- The systems of that run. -/
abbrev halfMinuteSetting :
    Setting halfMinuteHost (Hosting.State halfMinuteHost × FuncState State)
      (Beside Hosting.Action (FuncAct Time Action)) :=
  .serving (watchdog 15000000000).component halfMinuteHost 0

theorem notifies_halfMinuteRun : Notifies halfMinuteSetting halfMinuteRun
    ((hooked halfMinuteSetting (hookMessage functions) notifier).after
      (halfMinuteSetting.init, notifier.init) halfMinuteRun) := by
  have hr : NotifyRun halfMinuteSetting functions halfMinuteRun _ := Lts.Admits.run (by decide)
  exact notifies_of_run (b := new) (by decide) (by decide) (by decide) (by decide) (by decide) hr

theorem pings_halfMinuteRun : Pings 15000000000 halfMinuteHost 0 functions halfMinuteRun
    ((hooked halfMinuteSetting (hookMessage functions) notifier).after
      (halfMinuteSetting.init, notifier.init) halfMinuteRun) :=
  pings_of_run (Lts.Admits.run (by decide))

end Shost.Ports.Systemd
