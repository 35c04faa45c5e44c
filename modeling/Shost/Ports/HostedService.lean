import Shost.Ports.HostResults
import Shost.Ports.HostWinddown
import Shost.Verified.Product

/-!
# A service at work in its host

A service that is a system of its own, at a position in a host: its actions that the
contract speaks of are taken together with those of the host, and so is the closing of its
`Ready` channel; all others are taken alone.  The context that `Stop` is given is the one of
`stopAll`, which is done at the shutdown deadline or when `stopAll` has returned.

What the host is proved to do and what the service is proved to do under the contract then
hold side by side, and the place where each of them stands is known to the other.

## Main results

* `fits_of_hosted` — host and service agree on where they stand.
* `host_goes_on`, `service_goes_on` — neither is in the way of the other.
-/

namespace Shost.Ports.Hosting

open Shost.Verified Lts Beside

/-- A service as a system that keeps to the contract. -/
structure Component (σ β : Type) where
  system : Lts σ β
  init : σ
  /-- what an action is in the contract -/
  deed : β → Option Deed
  deal : σ → Deal
  /-- the channel that `Ready` returns is closed -/
  readied : σ → Bool
  /-- the context of `Stop` is done -/
  expiry : β → Option CtxErr
  deal_init : deal init = .init
  keeps : ∀ {τ s b}, system.Runs init τ s → system.guard s b = true →
    Takes contract (deal s) (deed b) (deal (system.effect s b))
  readied_init : readied init = false
  /-- a closed channel stays closed -/
  readied_keeps : ∀ s b, readied s = true → readied (system.effect s b) = true
  /-- it is not closed by an action that the contract speaks of -/
  readied_deed : ∀ s b, deed b ≠ none → readied (system.effect s b) = readied s

/-- What host and service do together. -/
inductive Contact where
  | deed (d : Deed)
  | ready
  deriving DecidableEq

def Contact.deed? : Contact → Option Deed
  | deed d => some d
  | ready => none

/-- What an action of the host is to the service at a position. -/
def Action.contact (i : Nat) (a : Action) : Option Contact :=
  if a = .env (.closeReady i) then some .ready else (a.deed i).map .deed

/-- The context of `Stop` can be done with an error. -/
def expired {h : Host} (s : State h) (e : CtxErr) : Bool :=
  decide ((s.pc.beforeLoop = false ∧ s.stopDue ≤ s.now ∧ e = .deadlineExceeded) ∨
    (s.pc.afterLoop ∧ e = .canceled))

section

variable {σ β : Type} (C : Component σ β)

/-- What an action of the service is to its host. -/
def Component.contact (s : σ) (b : β) : Option Contact :=
  if C.readied (C.system.effect s b) = C.readied s then (C.deed b).map .deed else some .ready

/-- A host with the service at a position. -/
def hosted (h : Host) (i : Nat) : Lts (State h × σ) (Beside Action β) :=
  (system h).beside C.system (fun _ => Action.contact i) C.contact fun s c =>
    match c.right?.bind C.expiry with
    | some e => expired s.1 e
    | none => true

abbrev HostedRun (h : Host) (i : Nat) (τ : List (Beside Action β)) (s : State h × σ) : Prop :=
  (hosted C h i).Runs (State.init h, C.init) τ s

end

variable {σ β : Type} {C : Component σ β} {h : Host} {i : Nat} {τ : List (Beside Action β)}
  {s : State h × σ}

/-! ## Both sides -/

theorem HostedRun.host (hr : HostedRun C h i τ s) : Run h (lefts τ) s.1 := Run.fst hr

theorem HostedRun.service (hr : HostedRun C h i τ s) : C.system.Runs C.init (rights τ) s.2 :=
  Run.snd hr

/-- A service keeps to the contract in all its runs. -/
theorem Component.contract_of_runs {υ : List β} {t : σ} (hr : C.system.Runs C.init υ t) :
    contract.Runs Deal.init (υ.filterMap C.deed) (C.deal t) := by
  rw [← C.deal_init]
  exact hr.refines C.deal C.deed fun _ _ _ hr _ hg => C.keeps hr hg

private theorem deed_closeReady (i j : Nat) : (Action.env (.closeReady j)).deed i = none := by
  by_cases hj : j = i
  · simp [Action.deed, Action.svcAct, hj, SvcAct.deed]
  · simp [Action.deed, Action.svcAct, hj]

theorem deed_of_contact (i : Nat) (a : Action) :
    a.deed i = (a.contact i).bind Contact.deed? := by
  unfold Action.contact
  split
  · next ha =>
      rw [ha, deed_closeReady]
      rfl
  · cases ha : a.deed i <;> rfl

theorem Component.deed_of_contact (C : Component σ β) (s : σ) (b : β) :
    C.deed b = (C.contact s b).bind Contact.deed? := by
  unfold Component.contact
  split
  · cases hb : C.deed b <;> rfl
  · next hready =>
      by_contra hdeed
      exact hready (C.readied_deed s b hdeed)

/-- Host and service have made the same calls. -/
theorem deeds_of_hosted (hr : HostedRun C h i τ s) :
    deeds i (lefts τ) = (rights τ).filterMap C.deed :=
  Run.agree hr _ _ Contact.deed? (fun _ a => deed_of_contact i a) C.deed_of_contact

/-- What the host shows is met by the service. -/
theorem HostedRun.meets {front back : List (Beside Action β)} {c : Beside Action β} {a : Action}
    {d : Deed} (hr : HostedRun C h i (front ++ c :: back) s) (hc : c.left? = some a)
    (ha : a.deed i = some d) :
    ∃ b s₁, c = .both a b ∧ C.deed b = some d ∧ HostedRun C h i front s₁ ∧
      (hosted C h i).guard s₁ c = true := by
  obtain ⟨s₁, hr₁, -, hg, -⟩ := Run.split hr
  have hcontact : (a.contact i).bind Contact.deed? = some d := by rw [← deed_of_contact, ha]
  cases c with
  | right b => cases hc
  | left a' =>
      obtain rfl := Option.some.inj hc
      obtain ⟨-, hvis, -⟩ := guard_left.mp hg
      rw [hvis] at hcontact
      cases hcontact
  | both a' b =>
      obtain rfl := Option.some.inj hc
      obtain ⟨-, ⟨-, hsame⟩, -⟩ := guard_both.mp hg
      rw [hsame, ← C.deed_of_contact] at hcontact
      exact ⟨b, s₁, rfl, hcontact, hr₁, hg⟩

/-- What the service takes for its place in the contract fits what the host does. -/
theorem fits_of_hosted (hr : HostedRun C h i τ s) :
    Fits s.1.stoppingCh (s.1.svc i) (C.deal s.2) := by
  obtain ⟨d, hruns, hfits⟩ := fits_of_run hr.host i
  have hkeeps := Component.contract_of_runs hr.service
  rw [← deeds_of_hosted hr] at hkeeps
  rwa [← hkeeps.after_eq, hruns.after_eq]

/-- When `RunContext` has returned, a service that was stopped in time is not called any
more. -/
theorem settled_of_hosted (hr : HostedRun C h i τ s) (hpc : s.1.pc = .returned)
    (hi : i < s.1.launched) (hstopped : .didNotStop i ∉ s.1.errs) :
    (C.deal s.2).serving = false ∧ (C.deal s.2).stop = .over := by
  obtain ⟨⟨r, hends⟩, r', hsends⟩ := sent_of_stopped hr.host hpc hi hstopped
  have hfits := fits_of_hosted hr
  constructor
  · rw [hfits.serving]
    rcases sup_of_doneSends hr.host hsends with hgone | ⟨r, hexit⟩
    · rw [hgone]
      rfl
    · rw [hexit]
      rfl
  · rw [hfits.stop, ((ended_of_run hr.host i).of_mem hends).1]
    rfl

/-- A service that was not launched is not called at all. -/
theorem uncalled_of_hosted (hr : HostedRun C h i τ s) (hi : s.1.launched ≤ i) :
    (s.1.svc i).sup = .unborn ∧ (C.deal s.2).serving = false ∧
      ∀ b ∈ rights τ, C.deed b ≠ some .start := by
  have hborn : (s.1.svc i).sup = .unborn := by
    by_contra hborn
    exact absurd (launched_of_born hr.host hborn) (not_lt.mpr hi)
  refine ⟨hborn, ?_, fun b hb hstart => ?_⟩
  · rw [(fits_of_hosted hr).serving, hborn]
    rfl
  · have hmem : .start ∈ deeds i (lefts τ) := by
      rw [deeds_of_hosted hr]
      exact List.mem_filterMap.mpr ⟨b, hb, hstart⟩
    obtain ⟨a, ha, hdeed⟩ := List.mem_filterMap.mp hmem
    rw [deed_eq_start hdeed] at ha
    exact absurd (launched_of_sup hr.host ha) (not_lt.mpr hi)

/-! ## Readiness -/

/-- The channel of a service is closed by one action. -/
private theorem ready_step (s : State h) (i : Nat) (a : Action) :
    (((system h).effect s a).svc i).ready =
      ((s.svc i).ready || decide (a = .env (.closeReady i))) := by
  cases ha : a.svcAct i with
  | none =>
      have hnot : a ≠ .env (.closeReady i) := by
        rintro rfl
        simp [Action.svcAct] at ha
      rw [svc_other s ha, decide_eq_false hnot, Bool.or_false]
  | some b =>
      obtain rfl := svcAct_eq_some ha
      rw [svc_action]
      cases b with
      | closeReady => exact (Bool.or_eq_true_iff.mpr (Or.inr (decide_eq_true rfl))).symm
      | sup a =>
          obtain ⟨sup, caller, attempts, delay, done, heq⟩ := svcEffect_sup s i a (s.svc i)
          rw [heq]
          exact (Bool.or_false _).symm
      | call a => cases a <;> exact (Bool.or_false _).symm
      | stopper a => cases a <;> exact (Bool.or_false _).symm
      | _ => exact (Bool.or_false _).symm

private theorem contact_eq_ready {a : Action} :
    a.contact i = some .ready ↔ a = .env (.closeReady i) := by
  unfold Action.contact
  split
  · next ha => simp [ha]
  · next ha => cases a.deed i <;> simp [ha]

private theorem Component.contact_eq_ready {t : σ} {b : β} : C.contact t b = some .ready ↔
    C.readied t = false ∧ C.readied (C.system.effect t b) = true := by
  have hkeeps := C.readied_keeps t b
  unfold Component.contact
  split
  · next hsame =>
      rw [hsame]
      cases C.deed b <;> simp
  · next hnew =>
      cases ht : C.readied t with
      | true => exact absurd ((hkeeps ht).trans ht.symm) hnew
      | false =>
          rw [ht, Bool.not_eq_false] at hnew
          simp [hnew]

/-- The host sees the channel closed when the service has closed it. -/
theorem ready_of_hosted (hr : HostedRun C h i τ s) : (s.1.svc i).ready = C.readied s.2 := by
  refine hr.invariant (fun _ s => (s.1.svc i).ready = C.readied s.2) C.readied_init.symm ?_
  intro τ s c _ ih _ hg
  have hleft {a : Action} (ha : a.contact i ≠ some .ready) :
      (((system h).effect s.1 a).svc i).ready = (s.1.svc i).ready := by
    rw [ready_step, decide_eq_false fun heq => ha (contact_eq_ready.mpr heq), Bool.or_false]
  have hright {b : β} (hb : C.contact s.2 b ≠ some .ready) :
      C.readied (C.system.effect s.2 b) = C.readied s.2 := by
    have hkeeps := C.readied_keeps s.2 b
    rw [Ne, Component.contact_eq_ready, not_and] at hb
    cases hs : C.readied s.2 with
    | true => exact hkeeps hs
    | false => exact Bool.eq_false_iff.mpr (hb hs)
  cases c with
  | left a =>
      obtain ⟨-, hvis, -⟩ := guard_left.mp hg
      have hnot : a.contact i ≠ some .ready := by
        rw [hvis]
        exact (Option.some_ne_none _).symm
      exact (hleft hnot).trans ih
  | right b =>
      obtain ⟨-, hvis, -⟩ := guard_right.mp hg
      have hnot : C.contact s.2 b ≠ some .ready := by
        rw [hvis]
        exact (Option.some_ne_none _).symm
      exact ih.trans (hright hnot).symm
  | both a b =>
      obtain ⟨-, ⟨-, hsame⟩, -⟩ := guard_both.mp hg
      by_cases hready : a.contact i = some .ready
      · have hb := Component.contact_eq_ready.mp (hsame.symm.trans hready)
        show (((system h).effect s.1 a).svc i).ready = C.readied (C.system.effect s.2 b)
        rw [ready_step, decide_eq_true (contact_eq_ready.mp hready), Bool.or_true, hb.2]
      · have hnot : C.contact s.2 b ≠ some .ready := fun heq => hready (hsame.trans heq)
        exact ((hleft hready).trans ih).trans (hright hnot).symm

/-! ## The context of `Stop` -/

/-- The host goroutine does not come back to what is before the loop of `stopAll`. -/
private theorem HostStep.late {a : HostAct} {v v' : LoopVars} (hstep : HostStep h a v v')
    (hlate : v.pc.beforeLoop = false) : v'.pc.beforeLoop = false ∧ a ≠ .stop .enter := by
  cases hstep with
  | task hstep => cases hstep <;> cases hlate
  | run hstep =>
      cases hstep with
      | join v | ret v => exact ⟨rfl, HostAct.noConfusion⟩
      | _ => cases hlate
  | stop hstep =>
      cases hstep with
      | enter v => cases hlate
      | _ => exact ⟨rfl, by simp⟩

/-- From there on the deadline stays as it is. -/
private theorem late_step {t : State h} {a : Action} (hg : (system h).guard t a = true)
    (hlate : t.pc.beforeLoop = false) :
    ((system h).effect t a).pc.beforeLoop = false ∧
      ((system h).effect t a).stopDue = t.stopDue ∧ t.now ≤ ((system h).effect t a).now := by
  cases a with
  | host b =>
      have hnow := (surroundings_hostEffect t b).2.2
      obtain ⟨hpc, henter⟩ := (hostStep_of_can (hostCan_of_guard hg)).late hlate
      refine ⟨hpc, ?_, hnow.ge⟩
      cases b with
      | task b =>
          obtain ⟨pc, errs, aborted, htask⟩ := taskEffect_frame t b
          simp only [system, hostEffect, htask]
      | run b => cases b <;> rfl
      | stop b => exact stopDue_stopEffect t fun heq => henter (congrArg HostAct.stop heq)
  | call who b =>
      cases who with
      | host => cases b <;> exact ⟨hlate, rfl, Int.le_refl _⟩
      | sup j =>
          obtain ⟨hpc, ⟨hdue, -, hnow⟩, -⟩ := inLoop_other rfl hg
          exact ⟨by rw [hpc, hlate], hdue, hnow⟩
  | _ =>
      obtain ⟨hpc, ⟨hdue, -, hnow⟩, -⟩ := inLoop_other rfl hg
      exact ⟨by rw [hpc, hlate], hdue, hnow⟩

/-- A context that is done stays done. -/
theorem expired_step {ok : State h → Action → Prop} {υ : List Action} {t : State h} {a : Action}
    {e : CtxErr} (hr : RunIf h ok υ t) (hg : (system h).guard t a = true)
    (he : expired t e = true) : expired ((system h).effect t a) e = true := by
  refine decide_eq_true ?_
  rcases of_decide_eq_true he with ⟨hlate, hdue, rfl⟩ | ⟨hafter, rfl⟩
  · obtain ⟨hlate', hsame, hnow⟩ := late_step hg hlate
    rw [hsame]
    exact Or.inl ⟨hlate', hdue.trans hnow, rfl⟩
  · exact Or.inr ⟨afterLoop_step hr hg hafter, rfl⟩

theorem expired_run {υ post : List Action} {t t' : State h}
    {e : CtxErr} (hr : Run h υ t) (hpost : (system h).Runs t post t') (he : expired t e = true) :
    expired t' e = true :=
  hpost.invariant (fun _ t' => expired t' e = true) he fun _ _ _ hrun he _ hg =>
    expired_step (hr.trans hrun) hg he

/-! ## Neither side is in the way -/

/-- The deeds of the host. -/
def Deed.isCall : Deed → Bool
  | .start | .shutdown | .cancel | .stop => true
  | .startReturns _ | .stopReturns _ => false

/-- The service takes every call that the contract allows. -/
def Component.Receptive (C : Component σ β) : Prop :=
  ∀ t d, d.isCall = true → (C.deal t).allows d = true →
    ∃ b, C.deed b = some d ∧ C.expiry b = none ∧ C.system.guard t b = true

/-- The action is one of the host, not one that the service takes in it. -/
def Action.byHost (i : Nat) (a : Action) : Bool :=
  match a.contact i with
  | some (.deed d) => d.isCall
  | some .ready => false
  | none => true

/-- What the host does is allowed by the contract. -/
theorem allows_of_deed (hr : HostedRun C h i τ s) {a : Action} {d : Deed}
    (hg : (system h).guard s.1 a = true) (hdeed : a.deed i = some d) :
    (C.deal s.2).allows d = true := by
  have hnext := hr.host.snoc (a := a) trivial hg
  obtain ⟨d', hruns, -⟩ := fits_of_run hnext i
  have hdeeds : deeds i (lefts τ ++ [a]) = deeds i (lefts τ) ++ d :: [] := by
    rw [deeds, List.filterMap_append, ← deeds]
    simp [hdeed]
  rw [hdeeds] at hruns
  obtain ⟨d₁, hruns₁, -, hallows, -⟩ := hruns.split
  have hkeeps := Component.contract_of_runs hr.service
  rw [← deeds_of_hosted hr] at hkeeps
  rwa [← hkeeps.after_eq, hruns₁.after_eq]

/-- A step of the host is possible next to a service that takes all calls. -/
theorem host_goes_on (hC : C.Receptive) (hr : HostedRun C h i τ s) {a : Action}
    (hg : (system h).guard s.1 a = true) (ha : a.byHost i = true) :
    ∃ c : Beside Action β, c.left? = some a ∧ (hosted C h i).guard s c = true := by
  cases hcontact : a.contact i with
  | none => exact ⟨.left a, rfl, guard_left.mpr ⟨rfl, hcontact, hg⟩⟩
  | some x =>
      rw [Action.byHost, hcontact] at ha
      cases x with
      | ready => cases ha
      | deed d =>
          have hdeed : a.deed i = some d := by
            rw [deed_of_contact, hcontact]
            rfl
          obtain ⟨b, hb, hexpiry, hgb⟩ := hC s.2 d ha (allows_of_deed hr hg hdeed)
          have hsame : C.contact s.2 b = some (.deed d) := by
            have halone := C.readied_deed s.2 b (by rw [hb]; exact Option.some_ne_none d)
            rw [Component.contact, if_pos halone, hb]
            rfl
          refine ⟨.both a b, rfl, guard_both.mpr ⟨?_, ⟨?_, ?_⟩, hg, hgb⟩⟩
          · rw [right?, Option.bind_some, hexpiry]
          · rw [hcontact]
            exact Option.some_ne_none _
          · rw [hcontact, hsame]

/-- A call of the service that is in progress is one that the host waits for. -/
private theorem result_of_hosted (hr : HostedRun C h i τ s) {d : Deed} (hd : d.isCall = false)
    (hallows : (C.deal s.2).allows d = true) :
    ∃ a, a.deed i = some d ∧ (system h).guard s.1 a = true := by
  have hfits := fits_of_hosted hr
  cases d with
  | startReturns o =>
      have hserving : (s.1.svc i).sup.serving = true := hfits.serving.symm.trans hallows
      cases hsup : (s.1.svc i).sup with
      | running began =>
          refine ⟨.sup i (.result began o), ?_, decide_eq_true hsup⟩
          simp [Action.deed, Action.svcAct, SvcAct.deed]
      | _ =>
          rw [hsup] at hserving
          cases hserving
  | stopReturns o =>
      have hstage := hfits.stop.symm.trans (of_decide_eq_true hallows)
      have hstop : (s.1.svc i).stop = .running := by
        cases hstop : (s.1.svc i).stop with
        | running => rfl
        | _ =>
            rw [hstop] at hstage
            cases hstage
      refine ⟨.stopper i (.result o), ?_, stopResult_of_running hr.host o hstop⟩
      simp [Action.deed, Action.svcAct, SvcAct.deed]
  | _ => cases hd

/-- A step of the service is possible in its host, unless it is a call that the host has to
make. -/
theorem service_goes_on (hr : HostedRun C h i τ s) (hi : i < h.services.length) {b : β}
    (hg : C.system.guard s.2 b = true) (hexpiry : ∀ e, C.expiry b = some e → expired s.1 e = true)
    (hb : ∀ d, C.deed b = some d → d.isCall = false) :
    ∃ c : Beside Action β, c.right? = some b ∧ (hosted C h i).guard s c = true := by
  have hmay (c : Beside Action β) (hc : c.right? = some b) :
      (match c.right?.bind C.expiry with
        | some e => expired s.1 e
        | none => true) = true := by
    rw [hc, Option.bind_some]
    cases hb : C.expiry b with
    | none => rfl
    | some e => exact hexpiry e hb
  have hjoint {a : Action} (ha : (system h).guard s.1 a = true) {x : Contact}
      (hax : a.contact i = some x) (hbx : C.contact s.2 b = some x) :
      (hosted C h i).guard s (.both a b) = true := by
    refine guard_both.mpr ⟨hmay _ rfl, ⟨?_, hax.trans hbx.symm⟩, ha, hg⟩
    rw [hax]
    exact Option.some_ne_none x
  cases hcontact : C.contact s.2 b with
  | none => exact ⟨.right b, rfl, guard_right.mpr ⟨hmay _ rfl, hcontact, hg⟩⟩
  | some x =>
      cases x with
      | ready =>
          have hopen := (Component.contact_eq_ready.mp hcontact).1
          rw [← ready_of_hosted hr] at hopen
          have hclose : (system h).guard s.1 (.env (.closeReady i)) = true :=
            decide_eq_true ⟨hi, hopen⟩
          exact ⟨_, rfl, hjoint hclose (contact_eq_ready.mpr rfl) hcontact⟩
      | deed d =>
          have hdeed : C.deed b = some d := by
            rw [C.deed_of_contact s.2, hcontact]
            rfl
          have hallows : (C.deal s.2).allows d = true := by
            have hkeeps := C.keeps hr.service hg
            rw [hdeed] at hkeeps
            exact hkeeps.enabled
          obtain ⟨a, ha, hga⟩ := result_of_hosted hr (hb d hdeed) hallows
          have hshown : a.contact i = some (.deed d) := by
            unfold Action.contact
            split
            · next heq =>
                rw [heq, deed_closeReady] at ha
                cases ha
            · rw [ha]
              rfl
          exact ⟨_, rfl, hjoint hga hshown hcontact⟩

/-- A `Stop` that was issued and not called can be called. -/
theorem stop_goes_on (hC : C.Receptive) (hr : HostedRun C h i τ s)
    (hissued : (s.1.svc i).stop ≠ .unborn) (hdue : (C.deal s.2).stop = .due) :
    ∃ b, C.deed b = some .stop ∧ (hosted C h i).guard s (.both (.stopper i .call) b) = true := by
  have hspawned : (s.1.svc i).stop = .spawned := by
    have hstage := hdue.symm.trans (fits_of_hosted hr).stop
    cases hstop : (s.1.svc i).stop with
    | spawned => rfl
    | unborn => exact absurd hstop hissued
    | running | finished =>
        rw [hstop] at hstage
        cases hstage
  have hdeed : (Action.stopper i .call).deed i = some .stop := by
    simp [Action.deed, Action.svcAct, SvcAct.deed]
  have hcontact : (Action.stopper i .call).contact i = some (.deed .stop) := by
    rw [Action.contact, if_neg (by simp), hdeed]
    rfl
  have hg : (system h).guard s.1 (.stopper i .call) = true := decide_eq_true hspawned
  have hcall : (Action.stopper i .call).byHost i = true := by
    rw [Action.byHost, hcontact]
    rfl
  obtain ⟨c, hc, hgc⟩ := host_goes_on hC hr hg hcall
  cases c with
  | right b => cases hc
  | left a =>
      obtain rfl := Option.some.inj hc
      obtain ⟨-, hvis, -⟩ := guard_left.mp hgc
      rw [hcontact] at hvis
      cases hvis
  | both a b =>
      obtain rfl := Option.some.inj hc
      obtain ⟨-, ⟨-, hsame⟩, -⟩ := guard_both.mp hgc
      refine ⟨b, ?_, hgc⟩
      rw [C.deed_of_contact s.2, ← hsame, hcontact]
      rfl

end Shost.Ports.Hosting
