import Shost.Ports.HostedService

/-!
# Service functions

`ServiceFunc` makes a service of a function that is called with a context and runs until
that context is done; its `Stop` does nothing.  The function is code of the caller and is
taken as a system of its own here, of which each call is a run.

## Main results

* `hostedFunc_of_run` — what the host may take from such a service.
* `funcMeshes_of_run` — a function that heeds its context ends, also one that was abandoned.
-/

namespace Shost.Ports.Hosting

open Shost.Verified Lts Beside

/-- A function with a context, as a system.  A call begins with what it finds, such as the
time. -/
structure Body (ι σ β : Type) where
  system : Lts σ β
  init : ι → σ
  /-- the context of the call is done -/
  cancel : β
  /-- any other action -/
  own : β → Bool
  canceled : σ → Bool
  /-- how a call can end in a state -/
  ended : σ → Outcome → Bool
  init_open : ∀ x, canceled (init x) = false
  cancel_can : ∀ t, canceled t = false → system.guard t cancel = true
  cancel_done : ∀ t, canceled (system.effect t cancel) = true
  own_keeps : ∀ t b, own b = true → system.guard t b = true →
    canceled (system.effect t b) = canceled t

/-- The call of a service function that is in progress, and its place in the contract. -/
structure FuncState (σ : Type) where
  deal : Deal
  call : Option σ

def FuncState.init {σ : Type} : FuncState σ where
  deal := .init
  call := none

/-- The actions: a step of the function, and what passes between its service and the host. -/
inductive FuncAct (ι β : Type) where
  | start (x : ι)
  | step (b : β)
  | returns (o : Outcome)
  | shutdown
  | cancel
  | stop
  | stopReturns

/-- What an action is in the contract. -/
def FuncAct.deed {ι β : Type} : FuncAct ι β → Option Deed
  | start _ => some .start
  | step _ => none
  | returns o => some (.startReturns o)
  | shutdown => some .shutdown
  | cancel => some .cancel
  | stop => some .stop
  | stopReturns => some (.stopReturns (.returned none))

variable {ι σ β : Type}

namespace Body

variable (B : Body ι σ β)

def guard (s : FuncState σ) : FuncAct ι β → Bool
  | .step b => B.own b && s.call.any fun t => B.system.guard t b
  | .returns o => s.deal.allows (.startReturns o) && s.call.any fun t => B.ended t o
  | a => a.deed.all s.deal.allows

/-- A call that begins when the context of the service is done already finds it so. -/
def effect (s : FuncState σ) : FuncAct ι β → FuncState σ
  | .start x =>
      { deal := s.deal.next .start
        call := some (if s.deal.canceled then B.system.effect (B.init x) B.cancel else B.init x) }
  | .step b => { s with call := s.call.map fun t => B.system.effect t b }
  | .returns o => { deal := s.deal.next (.startReturns o), call := none }
  | .cancel =>
      { deal := s.deal.next .cancel, call := s.call.map fun t => B.system.effect t B.cancel }
  | .shutdown => { s with deal := s.deal.next .shutdown }
  | .stop => { s with deal := s.deal.next .stop }
  | .stopReturns => { s with deal := s.deal.next (.stopReturns (.returned none)) }

theorem call_of_step {s : FuncState σ} {b : β} (hg : B.guard s (.step b) = true) :
    ∃ t, s.call = some t ∧ B.own b = true ∧ B.system.guard t b = true := by
  obtain ⟨hown, hstep⟩ := Bool.and_eq_true_iff.mp hg
  obtain ⟨t, ht, hguard⟩ := (Option.any_eq_true _ _).mp hstep
  exact ⟨t, ht, hown, hguard⟩

/-- `funcService` -/
def service : Lts (FuncState σ) (FuncAct ι β) where
  guard := B.guard
  effect := B.effect

/-- What the contract speaks of is allowed by it. -/
private theorem keeps {s : FuncState σ} {a : FuncAct ι β} (hg : B.guard s a = true) :
    Takes contract s.deal a.deed (B.effect s a).deal := by
  cases a with
  | step b => exact .stays
  | returns o => exact .of_effect (Bool.and_eq_true_iff.mp hg).1 rfl
  | start x | shutdown | cancel | stop | stopReturns => exact .of_effect hg rfl

/-- The service as a component of its host. -/
def component : Component (FuncState σ) (FuncAct ι β) where
  system := B.service
  init := .init
  deed := FuncAct.deed
  deal := FuncState.deal
  readied := fun _ => false
  expiry := fun _ => none
  deal_init := rfl
  keeps := fun _ hg => B.keeps hg
  readied_init := rfl
  readied_keeps := fun _ _ hon => hon
  readied_deed := fun _ _ _ => rfl

end Body

abbrev FuncRun (B : Body ι σ β) (h : Host) (i : Nat) (τ : List (Beside Action (FuncAct ι β)))
    (s : State h × FuncState σ) : Prop :=
  HostedRun B.component h i τ s

variable {B : Body ι σ β} {h : Host} {i : Nat}

/-! ## Calls of the function -/

/-- A call of the function that has come to a state; its context is done in one way. -/
def Body.Calls (B : Body ι σ β) (t : σ) : Prop :=
  ∃ x υ, B.system.Run (fun _ b => B.own b = true ∨ b = B.cancel) (B.init x) υ t

section Calls

variable {υ : List (FuncAct ι β)} {s : FuncState σ}

/-- The call in progress is a run of the function, whose context is that of the service. -/
structure InCall (B : Body ι σ β) (s : FuncState σ) : Prop where
  serving : s.call.isSome = s.deal.serving
  calls : ∀ t, s.call = some t → B.Calls t ∧ B.canceled t = s.deal.canceled

private theorem calls_next {t : σ} {b : β} (ht : B.Calls t)
    (hb : B.own b = true ∨ b = B.cancel) (hg : B.system.guard t b = true) :
    B.Calls (B.system.effect t b) := by
  obtain ⟨x, υ, hr⟩ := ht
  exact ⟨x, υ ++ [b], hr.snoc hb hg⟩

theorem inCall_of_run (hr : B.service.Runs FuncState.init υ s) : InCall B s := by
  refine hr.invariant (fun _ s => InCall B s) ⟨rfl, nofun⟩ ?_
  intro υ s a _ ih _ hg
  replace hg : B.guard s a = true := hg
  cases a with
  | start x =>
      refine ⟨rfl, ?_⟩
      rintro t ⟨⟩
      have hbegins : B.Calls (B.init x) := ⟨x, [], .nil⟩
      show _ ∧ _ = s.deal.canceled
      cases s.deal.canceled with
      | true => exact ⟨calls_next hbegins (Or.inr rfl) (B.cancel_can _ (B.init_open x)), B.cancel_done _⟩
      | false => exact ⟨hbegins, B.init_open x⟩
  | step b =>
      obtain ⟨t, hcall, hown, hstep⟩ := B.call_of_step hg
      obtain ⟨ht, hcanceled⟩ := ih.calls t hcall
      refine ⟨?_, ?_⟩
      · show (s.call.map _).isSome = _
        rw [Option.isSome_map]
        exact ih.serving
      · intro t' ht'
        have heq : (s.call.map fun t => B.system.effect t b) = some t' := ht'
        rw [hcall] at heq
        obtain rfl := Option.some.inj heq
        exact ⟨calls_next ht (Or.inl hown) hstep, (B.own_keeps t b hown hstep).trans hcanceled⟩
  | cancel =>
      have hopen : s.deal.canceled = false := by
        have hallows := (Bool.and_eq_true_iff.mp hg).2
        rwa [Bool.not_eq_true'] at hallows
      refine ⟨?_, ?_⟩
      · show (s.call.map _).isSome = _
        rw [Option.isSome_map]
        exact ih.serving
      · intro t' ht'
        obtain ⟨t, hcall, rfl⟩ := Option.map_eq_some_iff.mp ht'
        obtain ⟨ht, hcanceled⟩ := ih.calls t hcall
        exact ⟨calls_next ht (Or.inr rfl) (B.cancel_can t (hcanceled.trans hopen)), B.cancel_done t⟩
  | returns o => exact ⟨rfl, nofun⟩
  | shutdown | stop | stopReturns => exact ⟨ih.serving, ih.calls⟩

end Calls

/-! ## What the host may take from a service function -/

variable {τ : List (Beside Action (FuncAct ι β))} {s : State h × FuncState σ}

/-- What the host may take from a service function. -/
structure HostedFunc (B : Body ι σ β) (h : Host) (i : Nat)
    (τ : List (Beside Action (FuncAct ι β))) (s : State h × FuncState σ) : Prop where
  /-- an exit with which it stops the host is how the function ends before its context is
  done -/
  exits : ∀ r, .host (.run (.takeExit ⟨i, r⟩)) ∈ lefts τ →
    ∃ t o, B.Calls t ∧ B.canceled t = false ∧ B.ended t o = true ∧ safeStart o = r
  /-- what it is said to have failed with during the shutdown is an end of the function too -/
  failures : ∀ err, .failedDuringShutdown i err ∈ s.1.errs → err.canceled = false ∧
    ∃ t o, B.Calls t ∧ B.ended t o = true ∧ safeStart o = some err
  /-- its `Stop` does not fail -/
  stops : ∀ err, .stopping i err ∉ s.1.errs
  /-- unless it is said not to have stopped, it is not called any more on return -/
  released : s.1.pc = .returned → .didNotStop i ∉ s.1.errs →
    s.2.call = none ∧ (system h).guard s.1 (.sup i .start) = false

/-- A result of `Start` is an end of the call in progress. -/
private theorem call_of_result {front back : List (Beside Action (FuncAct ι β))}
    {c : Beside Action (FuncAct ι β)} {began : Int} {o : Outcome}
    (hr : FuncRun B h i (front ++ c :: back) s) (hc : c.left? = some (.sup i (.result began o))) :
    ∃ s₁ t, FuncRun B h i front s₁ ∧ B.Calls t ∧ B.canceled t = s₁.2.deal.canceled ∧
      B.ended t o = true := by
  have hdeed : (Action.sup i (.result began o)).deed i = some (.startReturns o) := by
    simp [Action.deed, Action.svcAct, SvcAct.deed]
  obtain ⟨b, s₁, rfl, hb, hr₁, hg⟩ := hr.meets hc hdeed
  obtain ⟨-, -, -, hgb⟩ := guard_both.mp hg
  cases b with
  | returns o' =>
      cases hb
      have hends := (Bool.and_eq_true_iff.mp hgb).2
      obtain ⟨t, hcall, hended⟩ := (Option.any_eq_true _ _).mp hends
      obtain ⟨ht, hcanceled⟩ := (inCall_of_run hr₁.service).calls t hcall
      exact ⟨s₁, t, hr₁, ht, hcanceled, hended⟩
  | _ => cases hb

/-- The context of a service is not done before the shutdown begins. -/
private theorem open_of_early (hr : FuncRun B h i τ s)
    (hnone : .host (.run .beginStopping) ∉ lefts τ) : s.2.deal.canceled = false := by
  by_contra hdone
  have horder := order_of_runs (Component.contract_of_runs hr.service)
  have hclosing := horder.2 (Bool.not_eq_false _ ▸ hdone)
  rw [(fits_of_hosted hr).closing] at hclosing
  exact hnone ((stoppingCh_iff hr.host).mp hclosing)

theorem funcExit_of_run (hr : FuncRun B h i τ s) {r : Result}
    (hmem : .host (.run (.takeExit ⟨i, r⟩)) ∈ lefts τ) :
    ∃ t o, B.Calls t ∧ B.canceled t = false ∧ B.ended t o = true ∧ safeStart o = r := by
  obtain ⟨pre, post, began, o, hτ, ho, hnone⟩ := early_of_takeExit hr.host hmem
  obtain ⟨front, c, back, rfl, rfl, hc⟩ := split_lefts hτ
  obtain ⟨s₁, t, hr₁, ht, hcanceled, hended⟩ := call_of_result hr hc
  exact ⟨t, o, ht, hcanceled.trans (open_of_early hr₁ hnone), hended, ho⟩

theorem funcFailure_of_run (hr : FuncRun B h i τ s) {err : Error}
    (hmem : .failedDuringShutdown i err ∈ s.1.errs) : err.canceled = false ∧
      ∃ t o, B.Calls t ∧ B.ended t o = true ∧ safeStart o = some err := by
  obtain ⟨hclean, began, o, hres, ho⟩ := result_of_failed hr.host hmem
  obtain ⟨pre, post, hτ⟩ := List.append_of_mem hres
  obtain ⟨front, c, back, rfl, -, hc⟩ := split_lefts hτ
  obtain ⟨s₁, t, -, ht, -, hended⟩ := call_of_result hr hc
  exact ⟨hclean, t, o, ht, hended, ho⟩

theorem funcStop_of_run (hr : FuncRun B h i τ s) (err : Error) :
    .stopping i err ∉ s.1.errs := by
  intro hmem
  obtain ⟨began, htaken⟩ := takeStop_of_stopping hr.host hmem
  obtain ⟨pre, post, s₁, hτ, hr₁, -, hg⟩ := Run.of_mem hr.host htaken
  obtain ⟨o, hres, ho⟩ := returned_of_takeStop hr₁ hg
  obtain ⟨front, c, back, rfl, -, hc⟩ : ∃ front c back, τ = front ++ c :: back ∧
      (∃ pre, lefts front = pre) ∧ c.left? = some (.stopper i (.result o)) := by
    obtain ⟨pre', post', hpre⟩ := List.append_of_mem hres
    rw [hpre, List.append_assoc] at hτ
    obtain ⟨front, c, back, rfl, hfront, hc⟩ := split_lefts hτ
    exact ⟨front, c, back, rfl, ⟨_, hfront⟩, hc⟩
  have hdeed : (Action.stopper i (.result o)).deed i = some (.stopReturns o) := by
    simp [Action.deed, Action.svcAct, SvcAct.deed]
  obtain ⟨b, -, rfl, hb, -⟩ := hr.meets hc hdeed
  cases b with
  | stopReturns =>
      cases hb
      cases ho
  | _ => cases hb

theorem funcReleased_of_run (hr : FuncRun B h i τ s) (hpc : s.1.pc = .returned)
    (hstopped : .didNotStop i ∉ s.1.errs) :
    s.2.call = none ∧ (system h).guard s.1 (.sup i .start) = false := by
  have hnone (hserving : s.2.deal.serving = false) : s.2.call = none := by
    have hcall := (inCall_of_run hr.service).serving
    rw [hserving] at hcall
    exact Option.not_isSome_iff_eq_none.mp (Bool.eq_false_iff.mp hcall)
  rcases Nat.lt_or_ge i s.1.launched with hi | hi
  · refine ⟨hnone (settled_of_hosted hr hpc hi hstopped).1, Bool.eq_false_iff.mpr fun hg => ?_⟩
    obtain ⟨-, r, hsends⟩ := sent_of_stopped hr.host hpc hi hstopped
    have hhead : (s.1.svc i).sup = .head := of_decide_eq_true hg
    rcases sup_of_doneSends hr.host hsends with hgone | ⟨r', hexit⟩
    · cases hhead.symm.trans hgone
    · cases hhead.symm.trans hexit
  · obtain ⟨hunborn, hserving, -⟩ := uncalled_of_hosted hr hi
    refine ⟨hnone hserving, Bool.eq_false_iff.mpr fun hg => ?_⟩
    exact born_of_supGuard (a := .start) hg hunborn

theorem hostedFunc_of_run (hr : FuncRun B h i τ s) : HostedFunc B h i τ s where
  exits := fun _ hmem => funcExit_of_run hr hmem
  failures := fun _ hmem => funcFailure_of_run hr hmem
  stops := funcStop_of_run hr
  released := funcReleased_of_run hr

/-- The place of a function that does nothing but wait for its context. -/
inductive WaiterPC where
  | waiting
  | woken
  | returned
  deriving DecidableEq

inductive WaiterAct where
  | cancel
  | ret
  deriving DecidableEq

/-- `<-ctx.Done(); return ctx.Err()` -/
def waiter : Body Unit WaiterPC WaiterAct where
  system :=
    { guard := fun t a =>
        match a with
        | .cancel => decide (t = .waiting)
        | .ret => decide (t = .woken)
      effect := fun _ a =>
        match a with
        | .cancel => .woken
        | .ret => .returned }
  init := fun _ => .waiting
  cancel := .cancel
  own
    | .cancel => false
    | .ret => true
  canceled := fun t => decide (t ≠ .waiting)
  ended := fun t o => decide (t = .returned ∧ o = .returned (some CtxErr.canceled.error))
  init_open := fun _ => rfl
  cancel_can := fun _ hopen => decide_eq_true (not_not.mp (of_decide_eq_false hopen))
  cancel_done := fun _ => rfl
  own_keeps := by
    intro t b hown hg
    cases b with
    | cancel => cases hown
    | ret =>
        obtain rfl : t = .woken := of_decide_eq_true hg
        rfl

/-- The function is called late, finds its context done, and its `Stop` returns at once. -/
def waiterRun : List (Beside Action (FuncAct Unit WaiterAct)) :=
  [.left (.host (.run .enter)), .left (.host (.run (.launch 0))),
    .left (.host (.run (.lookReadier 0))), .left (.host (.run (.started 1))),
    .left (.env .shutdown), .left (.host (.run .takeShutdown)),
    .both (.host (.run .beginStopping)) .shutdown, .left (.host (.stop .enter)),
    .both (.host (.stop (.cancel 0))) .cancel, .both (.sup 0 .start) (.start ()),
    .left (.host (.stop (.issue 0 0))), .both (.stopper 0 .call) .stop,
    .both (.stopper 0 (.result (.returned none))) .stopReturns,
    .left (.host (.stop (.takeStop 0 0 none))), .right (.step .ret),
    .both (.sup 0 (.result 0 (.returned (some CtxErr.canceled.error))))
      (.returns (.returned (some CtxErr.canceled.error))),
    .left (.sup 0 (.check 0 (some CtxErr.canceled.error))),
    .left (.sup 0 (.sendDone (some CtxErr.canceled.error) false)),
    .left (.host (.stop (.takeDone 0 0 none (some CtxErr.canceled.error)))),
    .left (.host (.stop .leave)), .left (.host (.run .join)), .left (.host (.run .ret))]

theorem hostedFunc_waiterRun : HostedFunc waiter soloHost 0 waiterRun
    ((hosted waiter.component soloHost 0).after (State.init soloHost, FuncState.init) waiterRun) :=
  hostedFunc_of_run (Lts.Admits.run (by decide))

/-! ## Functions that heed their context -/

/-- A function that comes to its end by its own steps when its context is done. -/
def Body.Obeys (B : Body ι σ β) : Prop :=
  ∀ t, B.Calls t → B.canceled t = true →
    ∃ υ t' o, B.system.Runs t υ t' ∧ (∀ b ∈ υ, B.own b = true) ∧ B.ended t' o = true

/-- How a host and a service function get on with each other. -/
structure FuncMeshes (B : Body ι σ β) (h : Host) (i : Nat) (s : State h × FuncState σ) :
    Prop where
  /-- the host can take each of its steps -/
  host_steps : ∀ a, (system h).guard s.1 a = true → a.byHost i = true →
    ∃ c : Beside Action (FuncAct ι β), c.left? = some a ∧ (hosted B.component h i).guard s c = true
  /-- the function can take each of its own -/
  func_steps : ∀ t b, s.2.call = some t → B.own b = true → B.system.guard t b = true →
    (hosted B.component h i).guard s (.right (.step b)) = true
  /-- when `RunContext` has returned, steps of the service end all that is left of it -/
  ends : s.1.pc = .returned → i < s.1.launched →
    ∃ post s', (hosted B.component h i).Runs s post s' ∧
      (∀ c ∈ post, c.right?.isSome = true) ∧ s'.2.call = none ∧ s'.2.deal.stop = .over

theorem Body.receptive (B : Body ι σ β) [Nonempty ι] : B.component.Receptive := by
  intro s d hcall hallows
  obtain ⟨x⟩ := ‹Nonempty ι›
  cases d with
  | start => exact ⟨.start x, rfl, rfl, hallows⟩
  | shutdown => exact ⟨.shutdown, rfl, rfl, hallows⟩
  | cancel => exact ⟨.cancel, rfl, rfl, hallows⟩
  | stop => exact ⟨.stop, rfl, rfl, hallows⟩
  | _ => cases hcall

private theorem guard_step {t : σ} {b : β} (hcall : s.2.call = some t) (hown : B.own b = true)
    (hg : B.system.guard t b = true) :
    (hosted B.component h i).guard s (.right (.step b)) = true := by
  refine guard_right.mpr ⟨rfl, rfl, Bool.and_eq_true_iff.mpr ⟨hown, ?_⟩⟩
  rw [hcall]
  exact hg

/-- Steps of the function are steps of the host with its service. -/
private theorem lift_call {t t' : σ} {υ : List β} (hcall : s.2.call = some t)
    (hrun : B.system.Runs t υ t') (hown : ∀ b ∈ υ, B.own b = true) :
    ∃ post s', (hosted B.component h i).Runs s post s' ∧
      (∀ c ∈ post, c.right?.isSome = true) ∧ s'.2.call = some t' ∧ s'.2.deal = s.2.deal := by
  induction hrun with
  | nil => exact ⟨[], s, .nil, fun c hc => absurd hc List.not_mem_nil, hcall, rfl⟩
  | @snoc υ t' b _ _ hg ih =>
      obtain ⟨post, s', hpost, hright, hcall', hdeal⟩ :=
        ih fun b hb => hown b (List.mem_append_left _ hb)
      have hstep := guard_step (h := h) (i := i) hcall'
        (hown b (List.mem_append_right _ (List.mem_singleton_self b))) hg
      refine ⟨_, _, hpost.snoc trivial hstep, fun c hc => ?_, ?_, hdeal⟩
      · rcases List.mem_append.mp hc with hold | hnew
        · exact hright c hold
        · rw [List.mem_singleton.mp hnew]
          rfl
      · show (s'.2.call.map _) = _
        rw [hcall']
        rfl

/-- A result of the service can be taken by its host. -/
private theorem returns_goes_on (hr : FuncRun B h i τ s) (hi : i < h.services.length)
    {b : FuncAct ι β} (hg : B.guard s.2 b = true) (hb : ∀ d, b.deed = some d → d.isCall = false) :
    ∃ c : Beside Action (FuncAct ι β), c.right? = some b ∧
      (hosted B.component h i).guard s c = true :=
  service_goes_on hr hi hg nofun hb

/-- `Stop` comes to its end when it was issued. -/
private theorem stop_ends (hr : FuncRun B h i τ s) [Nonempty ι] (hi : i < h.services.length)
    (hissued : (s.1.svc i).stop ≠ .unborn) :
    ∃ post s' τ', (hosted B.component h i).Runs s post s' ∧
      (∀ c ∈ post, c.right?.isSome = true) ∧ FuncRun B h i τ' s' ∧ s'.2.deal.stop = .over := by
  -- `Stop` is called if it was not
  obtain ⟨first, s₁, τ₁, hfirst, hright, hr₁, hcalled⟩ :
      ∃ first s₁ τ₁, (hosted B.component h i).Runs s first s₁ ∧
        (∀ c ∈ first, c.right?.isSome = true) ∧ FuncRun B h i τ₁ s₁ ∧
          s₁.2.deal.stop ≠ .due := by
    by_cases hdue : s.2.deal.stop = .due
    · obtain ⟨b, hb, hg⟩ := stop_goes_on B.receptive hr hissued hdue
      refine ⟨[.both (.stopper i .call) b], _, _, Run.snoc .nil trivial hg, ?_,
        hr.snoc trivial hg, ?_⟩
      · intro c hc
        rw [List.mem_singleton.mp hc]
        rfl
      · have hdeed : b.deed = some .stop := hb
        cases b with
        | stop => exact StopStage.noConfusion
        | _ => cases hdeed
    · exact ⟨[], s, τ, .nil, fun c hc => absurd hc List.not_mem_nil, hr, hdue⟩
  cases hstop : s₁.2.deal.stop with
  | due => exact absurd hstop hcalled
  | running =>
      have hg : B.guard s₁.2 .stopReturns = true := decide_eq_true hstop
      obtain ⟨c, hc, hgc⟩ := returns_goes_on hr₁ hi hg fun d hd => by
        cases hd
        rfl
      refine ⟨_, _, _, hfirst.snoc trivial hgc, fun c' hc' => ?_, hr₁.snoc trivial hgc, ?_⟩
      · rcases List.mem_append.mp hc' with hold | hnew
        · exact hright c' hold
        · rw [List.mem_singleton.mp hnew, hc]
          rfl
      · have heffect : ((hosted B.component h i).effect s₁ c).2 = _ := snd_effect hc
        rw [heffect]
        rfl
  | _ => exact ⟨first, s₁, τ₁, hfirst, hright, hr₁, hstop⟩

/-- What is left of the service when `RunContext` has returned comes to its end. -/
private theorem func_ends (hB : B.Obeys) (hr : FuncRun B h i τ s) [Nonempty ι]
    (hpc : s.1.pc = .returned) (hi : i < s.1.launched) :
    ∃ post s', (hosted B.component h i).Runs s post s' ∧
      (∀ c ∈ post, c.right?.isSome = true) ∧ s'.2.call = none ∧ s'.2.deal.stop = .over := by
  have hlength := hi.trans_le (placed_of_run hr.host).launched_le
  obtain ⟨first, s₁, τ₁, hfirst, hright, hr₁, hstop⟩ :=
    stop_ends hr hlength (issued_of_returned hr.host hpc hi)
  cases hcall : s₁.2.call with
  | none => exact ⟨first, s₁, hfirst, hright, hcall, hstop⟩
  | some t =>
      have horder := order_of_runs (Component.contract_of_runs hr₁.service)
      have hdone : s₁.2.deal.canceled = true := horder.1 fun hdue => by
        have hstage : s₁.2.deal.stop = .due := hdue
        rw [hstop] at hstage
        cases hstage
      obtain ⟨ht, hcanceled⟩ := (inCall_of_run hr₁.service).calls t hcall
      obtain ⟨υ, t', o, hrun, hown, hended⟩ := hB t ht (hcanceled.trans hdone)
      obtain ⟨mid, s₂, hmid, hright₂, hcall₂, hdeal⟩ := lift_call (h := h) (i := i) hcall hrun hown
      have hr₂ := Run.trans hr₁ hmid
      have hserving := (inCall_of_run (HostedRun.service hr₂)).serving
      have hg : B.guard s₂.2 (.returns o) = true := by
        rw [hcall₂] at hserving
        refine Bool.and_eq_true_iff.mpr ⟨hserving.symm, ?_⟩
        rw [hcall₂]
        exact hended
      obtain ⟨c, hc, hgc⟩ := returns_goes_on hr₂ hlength hg fun d hd => by
        cases hd
        rfl
      refine ⟨_, _, (hfirst.trans hmid).snoc trivial hgc, fun c' hc' => ?_, ?_⟩
      · rcases List.mem_append.mp hc' with hold | hnew
        · exact (List.mem_append.mp hold).elim (hright c') (hright₂ c')
        · rw [List.mem_singleton.mp hnew, hc]
          rfl
      · have heffect : ((hosted B.component h i).effect s₂ c).2 = _ := snd_effect hc
        rw [heffect]
        exact ⟨rfl, (congrArg Deal.stop hdeal).trans hstop⟩

theorem funcMeshes_of_run [Nonempty ι] (hB : B.Obeys) (hr : FuncRun B h i τ s) :
    FuncMeshes B h i s where
  host_steps := fun _ hg ha => host_goes_on B.receptive hr hg ha
  func_steps := fun _ _ hcall hown hg => guard_step hcall hown hg
  ends := fun hpc hi => func_ends hB hr hpc hi

theorem waiter_obeys : waiter.Obeys := by
  intro t _ hdone
  cases t with
  | waiting => cases hdone
  | woken =>
      exact ⟨[.ret], .returned, .returned (some CtxErr.canceled.error),
        Run.snoc .nil trivial rfl, by simp [waiter], rfl⟩
  | returned =>
      exact ⟨[], .returned, .returned (some CtxErr.canceled.error), .nil, by simp, rfl⟩

/-- The deadline passes while the function has not come to run. -/
def lateRun : List (Beside Action (FuncAct Unit WaiterAct)) :=
  waiterRun.take 10 ++
    [.left (.host (.stop (.issue 0 0))), .left (.env (.tick defaultShutdownTimeout)),
      .left (.host (.stop (.abandon 0 0))), .left (.host (.stop .leave)),
      .left (.host (.run .join)), .left (.host (.run .ret))]

theorem funcMeshes_lateRun : FuncMeshes waiter soloHost 0
    ((hosted waiter.component soloHost 0).after (State.init soloHost, FuncState.init) lateRun) :=
  funcMeshes_of_run (τ := lateRun) waiter_obeys (Lts.Admits.run (by decide))

end Shost.Ports.Hosting
