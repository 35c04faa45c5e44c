import Shost.Ports.HostResults
import Shost.Ports.HostedService
import Shost.Ports.ServerStops

/-!
# A server service in its host

The services of `httpsvc` and `grpcsvc` at work in a host, next to any other services:
both sides take their steps as their sources have them, and meet in the calls of `Start`
and `Stop`, in the contexts of both and in the channel `ready`.

## Main results

* `hostedServer_of_run` — what the host may take from the service: readiness, exits, the
  errors of the shutdown, and what is left when `RunContext` has returned.
* `meshes_of_run` — host and service are never in each other's way, and the goroutines of
  an abandoned service come to their end.
-/

namespace Shost.Ports.Serving

open Shost.Verified Shost.Ports.Hosting Lts Beside

/-- A server service as a component of its host. -/
def component (p : Package) (addr : String) : Component State Action where
  system := server p addr
  init := State.init
  deed := Action.deed p addr
  deal := State.deal
  readied := State.readyOnce
  expiry
    | .expire e => some e
    | _ => none
  deal_init := rfl
  keeps := fun hr hg => deed_step hr hg
  readied_init := rfl
  readied_keeps := by
    intro s b hon
    cases b with
    | announce => rfl
    | shutdownEnds r =>
        cases r with
        | none => exact hon
        | some err =>
            simp only [server, effect]
            split <;> exact hon
    | _ => exact hon
  readied_deed := by
    intro s b hdeed
    cases b with
    | announce => exact absurd rfl hdeed
    | shutdownEnds r =>
        cases r with
        | none => rfl
        | some err =>
            simp only [server, effect]
            split <;> rfl
    | _ => rfl

abbrev ServedRun (p : Package) (addr : String) (h : Host) (i : Nat)
    (τ : List (Beside Hosting.Action Action)) (s : Hosting.State h × State) : Prop :=
  HostedRun (component p addr) h i τ s

variable {p : Package} {addr : String} {h : Host} {i : Nat}

/-! ## What the calls return -/

section Server

variable {τ : List Action} {s : State}

/-- An error of the service itself: of its listener, or the one that `Serve` ended with. -/
def OwnError (p : Package) (addr : String) (τ : List Action) (err : Error) : Prop :=
  (∃ e, .listenFailed e ∈ τ ∧ err = listenError p addr e) ∨ ∃ n, .serveEnds n (.failed err) ∈ τ

theorem OwnError.mono {τ' : List Action} {err : Error} (hown : OwnError p addr τ err)
    (hsub : ∀ a ∈ τ, a ∈ τ') : OwnError p addr τ' err := by
  rcases hown with ⟨e, hmem, herr⟩ | ⟨n, hmem⟩
  · exact Or.inl ⟨e, hsub _ hmem, herr⟩
  · exact Or.inr ⟨n, hsub _ hmem⟩

/-- `Start` returns an error of its own, or else its server was told to stop. -/
theorem startReturns_own (hr : Run p addr τ s) {a : Action} {r : Result}
    (hg : (server p addr).guard s a = true) (ha : a.startReturns p addr r) :
    (∃ err, r = some err ∧ OwnError p addr (τ ++ [a]) err) ∨
      s.told = true ∧ ∀ err, r = some err → err.canceled = true := by
  obtain ⟨err, rfl, rfl⟩ | ⟨drained, e, rfl, rfl⟩ := startReturns_cases ha
  · exact Or.inl ⟨_, rfl, Or.inl ⟨err, by simp, rfl⟩⟩
  · obtain ⟨pre, post, s₁, rfl, hr₁, hfits⟩ := serveEnds_of_takeServe hr hg
    have htold (hs : s₁.told = true) : s.told = true := by
      obtain ⟨b, hb, htells⟩ := (told_iff hr₁).mp hs
      exact (told_iff hr).mpr ⟨b, List.mem_append_left _ hb, htells⟩
    cases e with
    | failed err => exact Or.inl ⟨err, rfl, Or.inr ⟨s.calls, by simp⟩⟩
    | stopped =>
        refine Or.inr ⟨htold hfits, fun err herr => ?_⟩
        cases drained with
        | false => cases herr
        | true =>
            obtain rfl := Option.some.inj herr
            rfl
    | nil =>
        refine Or.inr ⟨htold (Bool.and_eq_true_iff.mp hfits).1, fun err herr => ?_⟩
        rw [startResult] at herr
        split at herr
        · obtain rfl := Option.some.inj herr
          rfl
        · cases herr

/-- The server is told to stop by `Stop`. -/
private theorem called_of_told (hr : Run p addr τ s) (htold : s.told = true) :
    s.stop ≠ .uncalled := by
  intro hstop
  have hstopping := stopping_of_run hr
  rw [Stopping, hstop] at hstopping
  rw [hstopping.1] at htold
  cases htold

/-- Which error of its context the call of `Stop` has found. -/
def Found (p : Package) (s : State) : Prop :=
  match s.stop with
  | .shutting => p = .httpsvc
  | .closing err => ∃ e, s.stopCtx = some e ∧ err = e.error
  | .stopping e | .joining e => s.stopCtx = some e
  | _ => True

private theorem Found.keep {s' : State} (hs : Found p s) (hstop : s'.stop = s.stop)
    (hctx : s.stopCtx.isSome = true → s'.stopCtx = s.stopCtx) : Found p s' := by
  unfold Found at hs ⊢
  rw [hstop]
  cases hat : s.stop with
  | closing err =>
      simp only [hat] at hs ⊢
      obtain ⟨e, hsome, herr⟩ := hs
      rw [hctx (by rw [hsome]; rfl)]
      exact ⟨e, hsome, herr⟩
  | stopping e | joining e =>
      simp only [hat] at hs ⊢
      rw [hctx (by rw [hs]; rfl), hs]
  | _ =>
      simp only [hat] at hs ⊢
      try exact hs

private theorem found_of_run (hr : Run p addr τ s) : Found p s := by
  refine hr.invariant (fun _ s => Found p s) trivial ?_
  intro τ s a _ ih _ hg
  cases a with
  | expire e =>
      have hnone : s.stopCtx = none := of_decide_eq_true hg
      refine ih.keep rfl fun hsome => ?_
      rw [hnone] at hsome
      cases hsome
  | stop | httpClose err | goGraceful | takeDone | joined e => trivial
  | httpShutdown => exact (of_decide_eq_true hg : p = .httpsvc ∧ _).1
  | takeExpiry e => exact (of_decide_eq_true hg : _ ∧ s.stopCtx = some e).2
  | grpcStop e =>
      have hat : s.stop = .stopping e := of_decide_eq_true hg
      rw [Found, hat] at ih
      exact ih
  | shutdownEnds r =>
      cases r with
      | none => trivial
      | some err =>
          simp only [server, effect]
          split
          · next herr =>
              have hmay := of_decide_eq_true (Bool.and_eq_true_iff.mp hg).2
              rcases hmay with ⟨-, hclean⟩ | ⟨e, he, hsame⟩
              · rw [herr] at hclean
                cases hclean
              · exact ⟨e, he, Option.some.inj hsame⟩
          · trivial
  | _ => exact ih.keep rfl fun _ => rfl

/-- `Stop` returns nil, what `Shutdown` returned, or that its context was done. -/
theorem stopReturns_cases (hr : Run p addr τ s) {a : Action} {o : Outcome}
    (hg : (server p addr).guard s a = true) (ha : a.deed p addr = some (.stopReturns o)) :
    o = .returned none ∨ (∃ e, s.stopCtx = some e ∧ o = .returned (some (timedOut p e.error))) ∨
      ∃ err, p = .httpsvc ∧ isCtxErr (some err) = false ∧ a = .shutdownEnds (some err) ∧
        o = .returned (some err) := by
  have hfound := found_of_run hr
  cases a with
  | shutdownEnds r =>
      have hat : s.stop = .shutting := of_decide_eq_true (Bool.and_eq_true_iff.mp hg).1
      rw [Found, hat] at hfound
      simp only [Action.deed] at ha
      split at ha
      · cases ha
      · next herr =>
          rw [Bool.not_eq_true] at herr
          cases ha
          cases r with
          | none => exact Or.inl rfl
          | some err => exact Or.inr (Or.inr ⟨err, hfound, herr, rfl, rfl⟩)
  | httpClose err =>
      have hat : s.stop = .closing err := of_decide_eq_true hg
      rw [Found, hat] at hfound
      obtain ⟨e, he, rfl⟩ := hfound
      cases ha
      exact Or.inr (Or.inl ⟨e, he, rfl⟩)
  | joined e =>
      have hat : s.stop = .joining e := (of_decide_eq_true hg : _ ∧ _).1
      rw [Found, hat] at hfound
      cases ha
      exact Or.inr (Or.inl ⟨e, hfound, rfl⟩)
  | takeDone =>
      cases ha
      exact Or.inl rfl
  | _ => cases ha

end Server

/-! ## Both sides -/

variable {τ : List (Beside Hosting.Action Action)} {s : Hosting.State h × State}

/-- The server is told to stop when the shutdown has begun. -/
theorem stopping_of_told (hr : ServedRun p addr h i τ s) (htold : s.2.told = true) :
    s.1.stoppingCh = true := by
  have hcalled := called_of_told hr.service htold
  have hdue : s.2.deal.stop ≠ .due := by
    rw [(dealt_of_run hr.service).stop]
    cases hstop : s.2.stop with
    | uncalled => exact absurd hstop hcalled
    | _ => simp [StopPC.stage]
  have horder := order_of_runs (Component.contract_of_runs hr.service)
  rw [← (fits_of_hosted hr).closing]
  exact horder.2 (horder.1 hdue)

/-- The context of `Stop` is done when that of `stopAll` is. -/
theorem expired_of_run (hr : ServedRun p addr h i τ s) {e : CtxErr} :
    s.2.stopCtx = some e → expired s.1 e = true := by
  refine hr.invariant (fun _ s => s.2.stopCtx = some e → expired s.1 e = true) nofun ?_
  intro τ s c hr ih _ hg hctx
  have hsame {b : Action} (hb : ∀ e, b ≠ .expire e) :
      ((server p addr).effect s.2 b).stopCtx = s.2.stopCtx := by
    cases b with
    | expire e => exact absurd rfl (hb e)
    | shutdownEnds r =>
        cases r with
        | none => rfl
        | some err =>
            simp only [server, effect]
            split <;> rfl
    | _ => rfl
  cases c with
  | left a => exact expired_step (HostedRun.host hr) (guard_left.mp hg).2.2 (ih hctx)
  | right b =>
      by_cases hb : ∃ e, b = .expire e
      · obtain ⟨e', rfl⟩ := hb
        obtain rfl : e' = e := Option.some.inj hctx
        exact (guard_right.mp hg).1
      · exact ih ((hsame fun e heq => hb ⟨e, heq⟩).symm.trans hctx)
  | both a b =>
      obtain ⟨-, ⟨hshown, heq⟩, hga, -⟩ := guard_both.mp hg
      have hb (e : CtxErr) : b ≠ .expire e := by
        rintro rfl
        have hnone : (component p addr).contact s.2 (.expire e) = none := if_pos rfl
        exact hshown (heq.trans hnone)
      exact expired_step (HostedRun.host hr) hga (ih ((hsame hb).symm.trans hctx))

/-- A result of `Start` that the host has received. -/
private theorem startResult_of_hosted {front back : List (Beside Hosting.Action Action)}
    {c : Beside Hosting.Action Action} {began : Int} {o : Outcome}
    (hr : ServedRun p addr h i (front ++ c :: back) s)
    (hc : c.left? = some (.sup i (.result began o))) :
    ∃ r, o = .returned r ∧
      ((∃ err, r = some err ∧ OwnError p addr (rights (front ++ c :: back)) err) ∨
        .host (.run .beginStopping) ∈ lefts front ∧ ∀ err, r = some err → err.canceled = true) := by
  have hdeed : (Hosting.Action.sup i (.result began o)).deed i = some (.startReturns o) := by
    simp [Hosting.Action.deed, Hosting.Action.svcAct, SvcAct.deed]
  obtain ⟨b, s₁, rfl, hb, hr₁, hg⟩ := hr.meets hc hdeed
  obtain ⟨-, -, -, hgb⟩ := guard_both.mp hg
  have hreturns : ∃ r, o = .returned r ∧ b.startReturns p addr r := by
    have hb' : b.deed p addr = some (.startReturns o) := hb
    cases b with
    | listenFailed err | takeServe drained e =>
        cases hb'
        exact ⟨_, rfl, rfl⟩
    | shutdownEnds r =>
        simp only [Action.deed] at hb'
        split at hb' <;> cases hb'
    | _ => cases hb'
  obtain ⟨r, rfl, hret⟩ := hreturns
  refine ⟨r, rfl, ?_⟩
  rcases startReturns_own hr₁.service hgb hret with ⟨err, herr, hown⟩ | ⟨htold, hcanceled⟩
  · refine Or.inl ⟨err, herr, hown.mono fun a ha => ?_⟩
    rcases List.mem_append.mp ha with hold | hnew
    · simp [rights, List.filterMap_append, List.mem_filterMap.mp hold]
    · simp [rights, right?, List.mem_singleton.mp hnew]
  · have hstopping := stopping_of_told hr₁ htold
    exact Or.inr ⟨(stoppingCh_iff hr₁.host).mp hstopping, hcanceled⟩

/-! ## What the host may take from the service -/

/-- What the host may take from a server service. -/
structure HostedServer (p : Package) (addr : String) (h : Host) (i : Nat)
    (τ : List (Beside Hosting.Action Action)) (s : Hosting.State h × State) : Prop where
  /-- the service is ready when `Addr` returns the address of a listener -/
  ready : (s.1.svc i).ready = true → ∃ a, s.2.addr = some a ∧ .listened a ∈ rights τ
  /-- an exit with which it stops the host is an error of its listener or of `Serve` -/
  exits : ∀ r, .host (.run (.takeExit ⟨i, r⟩)) ∈ lefts τ →
    ∃ err, r = some err ∧ OwnError p addr (rights τ) err
  /-- and so is what it is said to have failed with during the shutdown -/
  failures : ∀ err, .failedDuringShutdown i err ∈ s.1.errs → OwnError p addr (rights τ) err
  /-- its `Stop` fails when the shutdown deadline has passed, or with an error that
  `Shutdown` returned -/
  stop_errors : ∀ err, .stopping i err ∈ s.1.errs →
    err = timedOut p CtxErr.deadlineExceeded.error ∧ s.1.stopDue ≤ s.1.now ∨
      p = .httpsvc ∧ isCtxErr (some err) = false ∧ .shutdownEnds (some err) ∈ rights τ
  /-- unless it is said not to have stopped, nothing is left of it on return -/
  released : s.1.pc = .returned → .didNotStop i ∉ s.1.errs →
    s.2.start = .idle ∧ (i < s.1.launched → ∃ r, s.2.stop = .returned r) ∧ s.2.conns = 0 ∧
      (∀ n, s.2.serve n ≠ .serving) ∧ (server p addr).guard s.2 .accept = false

private theorem own_of_early (hr : ServedRun p addr h i τ s) {r : Result}
    (hearly : EarlyResult i (lefts τ) r) :
    ∃ err, r = some err ∧ OwnError p addr (rights τ) err := by
  obtain ⟨pre, post, began, o, hτ, rfl, hnone⟩ := hearly
  obtain ⟨front, c, back, rfl, rfl, hc⟩ := split_lefts hτ
  obtain ⟨r, rfl, hown | ⟨hbegun, -⟩⟩ := startResult_of_hosted hr hc
  · exact hown
  · exact absurd hbegun hnone

private theorem own_of_failed (hr : ServedRun p addr h i τ s) {err : Error}
    (hmem : .failedDuringShutdown i err ∈ s.1.errs) : OwnError p addr (rights τ) err := by
  obtain ⟨hclean, began, o, hres, ho⟩ := result_of_failed hr.host hmem
  obtain ⟨pre, post, hτ⟩ := List.append_of_mem hres
  obtain ⟨front, c, back, rfl, -, hc⟩ := split_lefts hτ
  obtain ⟨r, rfl, ⟨err', hr', hown⟩ | ⟨-, hcanceled⟩⟩ := startResult_of_hosted hr hc
  · obtain rfl : err' = err := Option.some.inj (hr'.symm.trans ho)
    exact hown
  · rw [hcanceled err ho] at hclean
    cases hclean

private theorem stopError_of_run (hr : ServedRun p addr h i τ s) {err : Error}
    (hmem : .stopping i err ∈ s.1.errs) :
    err = timedOut p CtxErr.deadlineExceeded.error ∧ s.1.stopDue ≤ s.1.now ∨
      p = .httpsvc ∧ isCtxErr (some err) = false ∧ .shutdownEnds (some err) ∈ rights τ := by
  obtain ⟨began, htaken⟩ := takeStop_of_stopping hr.host hmem
  obtain ⟨pre, post, hτ⟩ := List.append_of_mem htaken
  obtain ⟨front, c, back, rfl, -, hc⟩ := split_lefts hτ
  obtain ⟨s₁, hr₁, -, hg₁, hback⟩ := hr.split
  have hgTake := (step_sides hg₁).1 _ hc
  obtain ⟨o, hres, ho⟩ := returned_of_takeStop (HostedRun.host hr₁) hgTake
  obtain ⟨pre', post', hfront⟩ := List.append_of_mem hres
  obtain ⟨front', c', back', rfl, -, hc'⟩ := split_lefts hfront
  have hdeed : (Hosting.Action.stopper i (.result o)).deed i = some (.stopReturns o) := by
    simp [Hosting.Action.deed, Hosting.Action.svcAct, SvcAct.deed]
  obtain ⟨b, s₂, rfl, hb, hr₂, hg₂⟩ := HostedRun.meets hr₁ hc' hdeed
  obtain ⟨-, -, -, hgb⟩ := guard_both.mp hg₂
  rcases stopReturns_cases hr₂.service hgb hb with rfl | ⟨e, he, rfl⟩ | ⟨err', hp, hclean, rfl, rfl⟩
  · cases ho
  · obtain ⟨s₂', hr₂', -, -, hback'⟩ := hr₁.split
    obtain rfl : s₂' = s₂ := hr₂'.after_eq.symm.trans hr₂.after_eq
    -- the deadline has passed when the result is received in the loop
    have hdone := expired_step hr₂.host ((step_sides hg₂).1 _ hc') (expired_of_run hr₂ he)
    have hthen := expired_run (hr₂.host.snoc trivial ((step_sides hg₂).1 _ hc'))
      (Run.fst hback') hdone
    have hpc : s₁.1.pc = .waitStop i began :=
      (of_decide_eq_true (hostCan_of_guard hgTake) : s₁.1.pc = .waitStop i began ∧ _).1
    obtain rfl : e = .deadlineExceeded := by
      rcases of_decide_eq_true hthen with ⟨-, -, rfl⟩ | ⟨hafter, -⟩
      · rfl
      · rw [hpc] at hafter
        cases hafter
    have hstep := expired_step (HostedRun.host hr₁) hgTake hthen
    have heffect : ((hosted (component p addr) h i).effect s₁ c).1 = _ := fst_effect hc
    have hlater := Run.fst hback
    rw [heffect] at hlater
    have hnow := expired_run ((HostedRun.host hr₁).snoc trivial hgTake) hlater hstep
    left
    refine ⟨(Option.some.inj ho).symm, ?_⟩
    rcases of_decide_eq_true hnow with ⟨-, hdue, -⟩ | ⟨-, hno⟩
    · exact hdue
    · cases hno
  · right
    obtain rfl : err' = err := Option.some.inj ho
    exact ⟨hp, hclean, by simp [rights, right?]⟩

private theorem released_of_run (hr : ServedRun p addr h i τ s) (hpc : s.1.pc = .returned)
    (hi : i < s.1.launched) (hstopped : .didNotStop i ∉ s.1.errs) :
    s.2.start = .idle ∧ ∃ r, s.2.stop = .returned r := by
  obtain ⟨hserving, hover⟩ := settled_of_hosted hr hpc hi hstopped
  have hdealt := dealt_of_run hr.service
  constructor
  · exact not_not.mp (of_decide_eq_false (hdealt.serving.symm.trans hserving))
  · have hstage := hdealt.stop.symm.trans hover
    cases hstop : s.2.stop with
    | returned r => exact ⟨r, rfl⟩
    | _ =>
        rw [hstop] at hstage
        cases hstage

/-- No `Serve` is under way where no call of `Start` is. -/
private theorem no_serve {υ : List Action} {t : State} (hr : Run p addr υ t)
    (hidle : t.start = .idle) :
    (∀ n, t.serve n ≠ .serving) ∧ (server p addr).guard t .accept = false := by
  have hnone : ∀ n, t.serve n ≠ .serving := by
    intro n hn
    have hwaits := ((placed_of_run hr).current hn).2
    rw [hidle] at hwaits
    cases hwaits
  exact ⟨hnone, Bool.eq_false_iff.mpr fun hg => hnone _ (of_decide_eq_true hg : _ ∧ _).1⟩

/-- A server that was not started has no connections. -/
private theorem unused {υ : List Action} {t : State} (hr : Run p addr υ t) (hno : .start ∉ υ) :
    t.start = .idle ∧ t.conns = 0 := by
  refine hr.invariant (fun υ t => .start ∉ υ → t.start = .idle ∧ t.conns = 0)
    (fun _ => ⟨rfl, rfl⟩) ?_ hno
  intro υ t a hr ih _ hg hno
  rw [List.mem_append, not_or] at hno
  obtain ⟨hidle, hconns⟩ := ih hno.1
  cases a with
  | start => exact absurd (List.mem_singleton_self _) hno.2
  | accept =>
      rw [(no_serve hr hidle).2] at hg
      cases hg
  | hangUp =>
      rw [show (server p addr).guard t .hangUp = decide (0 < t.conns) from rfl, hconns] at hg
      cases hg
  | listened a | listenFailed err | store a | announce | spawn =>
      have hat : t.start = _ := of_decide_eq_true hg
      rw [hidle] at hat
      cases hat
  | takeCtx =>
      have hat : t.start = .serving := (of_decide_eq_true hg : _ ∧ _).1
      rw [hidle] at hat
      cases hat
  | takeServe drained e =>
      have hat : t.start = _ := (of_decide_eq_true hg : _ ∧ _).1
      rw [hidle] at hat
      cases drained <;> cases hat
  | shutdownEnds r =>
      cases r with
      | none => exact ⟨hidle, hconns⟩
      | some err =>
          simp only [server, effect]
          split <;> exact ⟨hidle, hconns⟩
  | httpClose err | grpcStop e => exact ⟨hidle, rfl⟩
  | _ => exact ⟨hidle, hconns⟩

/-- Nothing is left of a server whose `Stop` has returned and whose `Start` is not called. -/
private theorem nothing_left {υ : List Action} {t : State} (hr : Run p addr υ t) {r : Result}
    (hidle : t.start = .idle) (hstop : t.stop = .returned r) :
    t.conns = 0 ∧ (∀ n, t.serve n ≠ .serving) ∧ (server p addr).guard t .accept = false := by
  have hstopping := stopping_of_run hr
  rw [Stopping, hstop] at hstopping
  exact ⟨hstopping.2.1, no_serve hr hidle⟩

theorem hostedServer_of_run (hr : ServedRun p addr h i τ s) : HostedServer p addr h i τ s where
  ready := by
    intro hready
    have honce : s.2.readyOnce = true := (ready_of_hosted hr).symm.trans hready
    have hreadied := readied_of_run hr.service
    obtain ⟨a, haddr⟩ := Option.isSome_iff_exists.mp (hreadied.stored (Or.inl honce))
    exact ⟨a, haddr, hreadied.listened a (Or.inl haddr)⟩
  exits := fun _ hmem => own_of_early hr (early_of_takeExit hr.host hmem)
  failures := fun _ hmem => own_of_failed hr hmem
  stop_errors := fun _ hmem => stopError_of_run hr hmem
  released := by
    intro hpc hstopped
    rcases Nat.lt_or_ge i s.1.launched with hi | hi
    · obtain ⟨hidle, r, hstop⟩ := released_of_run hr hpc hi hstopped
      exact ⟨hidle, fun _ => ⟨r, hstop⟩, nothing_left hr.service hidle hstop⟩
    · obtain ⟨-, -, hno⟩ := uncalled_of_hosted hr hi
      obtain ⟨hidle, hconns⟩ := unused hr.service fun hmem => hno .start hmem rfl
      exact ⟨hidle, fun hlt => absurd hlt (not_lt.mpr hi), hconns, no_serve hr.service hidle⟩

/-- A host whose only service is an HTTP server. -/
def webHost : Host :=
  .ofServices [⟨"http :8080", true, none⟩] (by decide) (by decide) (by simp)

/-- A connection is open when the host shuts down, and is closed by its client. -/
def webRun : List (Beside Hosting.Action Action) :=
  [.left (.host (.run .enter)), .left (.host (.run (.launch 0))),
    .left (.host (.run (.lookReadier 0))), .both (.sup 0 .start) .start,
    .right (.listened "127.0.0.1:8080"), .right (.store "127.0.0.1:8080"),
    .both (.env (.closeReady 0)) .announce, .left (.host (.run (.ready 0))),
    .left (.host (.run (.started 1))), .right .spawn, .right .accept, .left (.env .shutdown),
    .left (.host (.run .takeShutdown)), .both (.host (.run .beginStopping)) .shutdown,
    .left (.host (.stop .enter)), .both (.host (.stop (.cancel 0))) .cancel,
    .left (.host (.stop (.issue 0 0))), .both (.stopper 0 .call) .stop, .right .takeCtx,
    .right .httpShutdown, .right .hangUp,
    .both (.stopper 0 (.result (.returned none))) (.shutdownEnds none),
    .left (.host (.stop (.takeStop 0 0 none))), .right (.serveEnds 1 .stopped),
    .both (.sup 0 (.result 0 (.returned (some CtxErr.canceled.error)))) (.takeServe true .stopped),
    .left (.sup 0 (.check 0 (some CtxErr.canceled.error))),
    .left (.sup 0 (.sendDone (some CtxErr.canceled.error) false)),
    .left (.host (.stop (.takeDone 0 0 none (some CtxErr.canceled.error)))),
    .left (.host (.stop .leave)), .left (.host (.run .join)), .left (.host (.run .ret))]

theorem hostedServer_webRun : HostedServer .httpsvc ":8080" webHost 0 webRun
    ((hosted (component .httpsvc ":8080") webHost 0).after
      (Hosting.State.init webHost, State.init) webRun) :=
  hostedServer_of_run (Lts.Admits.run (by decide))

/-! ## Neither side is in the way -/

theorem component_receptive (p : Package) (addr : String) : (component p addr).Receptive := by
  intro t d hcall hallows
  cases d with
  | start => exact ⟨.start, rfl, rfl, hallows⟩
  | shutdown => exact ⟨.shutdown, rfl, rfl, hallows⟩
  | cancel => exact ⟨.cancel, rfl, rfl, hallows⟩
  | stop => exact ⟨.stop, rfl, rfl, hallows⟩
  | _ => cases hcall

/-- How host and server get on with each other. -/
structure Meshes (p : Package) (addr : String) (h : Host) (i : Nat)
    (s : Hosting.State h × State) : Prop where
  /-- the host can take each of its steps -/
  host_steps : ∀ a, (Hosting.system h).guard s.1 a = true → a.byHost i = true →
    ∃ c : Beside Hosting.Action Action, c.left? = some a ∧
      (hosted (component p addr) h i).guard s c = true
  /-- the service can take each of its own -/
  server_steps : ∀ b, (server p addr).guard s.2 b = true →
    (∀ d, b.deed p addr = some d → d.isCall = false) → (∀ e, b = .expire e → expired s.1 e = true) →
      ∃ c : Beside Hosting.Action Action, c.right? = some b ∧
        (hosted (component p addr) h i).guard s c = true
  /-- when `RunContext` has returned, steps of the service end all that is left of it -/
  ends : s.1.pc = .returned → i < s.1.launched →
    ∃ post s', (hosted (component p addr) h i).Runs s post s' ∧
      (∀ c ∈ post, c.right?.isSome = true) ∧ s'.2.start = .idle ∧
        (∃ r, s'.2.stop = .returned r) ∧ s'.2.conns = 0 ∧ ∀ n, s'.2.serve n ≠ .serving

/-- The steps of both calls are none of the host. -/
private theorem not_call {b : Action} (hb : (b.ofStart || b.ofStop) = true) {d : Deed}
    (hd : b.deed p addr = some d) : d.isCall = false := by
  cases b with
  | listenFailed err | takeServe drained e | httpClose err | takeDone | joined e =>
      cases hd
      rfl
  | shutdownEnds r =>
      simp only [Action.deed] at hd
      split at hd
      · cases hd
      · cases hd
        rfl
  | start | shutdown | cancel | stop => cases hb
  | _ => cases hd

private theorem server_goes_on (hr : ServedRun p addr h i τ s) (hi : i < h.services.length)
    {b : Action} (hg : (server p addr).guard s.2 b = true)
    (hexpire : ∀ e, b = .expire e → expired s.1 e = true)
    (hcall : ∀ d, b.deed p addr = some d → d.isCall = false) :
    ∃ c : Beside Hosting.Action Action, c.right? = some b ∧
      (hosted (component p addr) h i).guard s c = true := by
  refine service_goes_on hr hi hg (fun e he => hexpire e ?_) hcall
  cases b with
  | expire e' => exact congrArg Action.expire (Option.some.inj he)
  | _ => cases he

/-- What the server can do by itself, it can do in its host. -/
private theorem lift_run (hi : i < h.services.length) (hr : ServedRun p addr h i τ s)
    {υ : List Action} {t : State} (hrun : (server p addr).Runs s.2 υ t)
    (hown : ∀ b ∈ υ, (b.ofStart || b.ofStop) = true) :
    ∃ post s' τ', (hosted (component p addr) h i).Runs s post s' ∧
      (∀ c ∈ post, c.right?.isSome = true) ∧ s'.2 = t ∧ ServedRun p addr h i τ' s' := by
  have hstep : ∀ (s : Hosting.State h × State) b, (∃ τ, ServedRun p addr h i τ s) →
      (b.ofStart || b.ofStop) = true → (server p addr).guard s.2 b = true →
        ∃ c : Beside Hosting.Action Action, c.right? = some b ∧
          (hosted (component p addr) h i).guard s c = true ∧
            ∃ τ, ServedRun p addr h i τ ((hosted (component p addr) h i).effect s c) := by
    rintro s b ⟨τ, hr⟩ hb hg
    have hexpire (e : CtxErr) (he : b = .expire e) : expired s.1 e = true := by
      rw [he] at hb
      cases hb
    obtain ⟨c, hc, hgc⟩ := server_goes_on hr hi hg hexpire fun d hd => not_call hb hd
    exact ⟨c, hc, hgc, _, hr.snoc trivial hgc⟩
  obtain ⟨post, s', hpost, hof, ht, τ', hr'⟩ := Run.goes_on hstep ⟨τ, hr⟩ hrun hown
  refine ⟨post, s', τ', hpost, fun c hc => ?_, ht, hr'⟩
  obtain ⟨b, hb, -⟩ := hof c hc
  rw [hb]
  rfl

/-- A `Stop` that is issued can be called. -/
private theorem stop_called (hr : ServedRun p addr h i τ s) (hissued : (s.1.svc i).stop ≠ .unborn)
    (hdue : s.2.stop = .uncalled) :
    (hosted (component p addr) h i).guard s (.both (.stopper i .call) .stop) = true := by
  have hstage : s.2.deal.stop = .due := by
    rw [(dealt_of_run hr.service).stop, hdue]
    rfl
  obtain ⟨b, hb, hg⟩ := stop_goes_on (component_receptive p addr) hr hissued hstage
  have hdeed : b.deed p addr = some .stop := hb
  cases b with
  | stop => exact hg
  | shutdownEnds r =>
      simp only [Action.deed] at hdeed
      split at hdeed <;> cases hdeed
  | _ => cases hdeed

/-- A `Stop` that was called comes to its end when `stopAll` has returned. -/
private theorem stop_returns (hi : i < h.services.length) (hr : ServedRun p addr h i τ s)
    (hafter : s.1.pc.afterLoop = true) (hcalled : s.2.stop ≠ .uncalled) :
    ∃ post s' τ' r, (hosted (component p addr) h i).Runs s post s' ∧
      (∀ c ∈ post, c.right?.isSome = true) ∧ ServedRun p addr h i τ' s' ∧
        s'.2.stop = .returned r := by
  by_cases hover : ∃ r, s.2.stop = .returned r
  · obtain ⟨r, hret⟩ := hover
    exact ⟨[], s, τ, r, .nil, fun c hc => absurd hc List.not_mem_nil, hr, hret⟩
  have hopen (r : Result) : s.2.stop ≠ .returned r := fun hret => hover ⟨r, hret⟩
  cases hctx : s.2.stopCtx with
  | some e =>
      obtain ⟨υ, t, hrun, hown, r, ht⟩ := stop_ends hr.service hctx hcalled hopen
      have hof (b : Action) (hb : b ∈ υ) : (b.ofStart || b.ofStop) = true := by
        rw [hown b hb, Bool.or_true]
      obtain ⟨post, s', τ', hpost, hright, rfl, hr'⟩ := lift_run hi hr hrun hof
      exact ⟨post, s', τ', r, hpost, hright, hr', ht⟩
  | none =>
      have hexpired : expired s.1 .canceled = true := decide_eq_true (Or.inr ⟨hafter, rfl⟩)
      have hg : (hosted (component p addr) h i).guard s (.right (.expire .canceled)) = true :=
        guard_right.mpr ⟨hexpired, if_pos rfl, decide_eq_true hctx⟩
      have hr₁ := hr.snoc trivial hg
      obtain ⟨υ, t, hrun, hown, r, ht⟩ :=
        stop_ends (HostedRun.service hr₁) (e := .canceled) rfl hcalled hopen
      have hof (b : Action) (hb : b ∈ υ) : (b.ofStart || b.ofStop) = true := by
        rw [hown b hb, Bool.or_true]
      obtain ⟨post, s', τ', hpost, hright, rfl, hr'⟩ := lift_run hi hr₁ hrun hof
      refine ⟨_, s', τ', r, (Run.snoc .nil trivial hg).trans hpost, fun c hc => ?_, hr', ht⟩
      rcases List.mem_append.mp hc with hfirst | hrest
      · rw [List.mem_singleton.mp hfirst]
        rfl
      · exact hright c hrest

/-- `Stop` returns once. -/
private theorem returned_step {υ : List Action} {t : State} {b : Action} {r : Result}
    (hr : Run p addr υ t) (hg : (server p addr).guard t b = true) (hstop : t.stop = .returned r) :
    ((server p addr).effect t b).stop = .returned r := by
  have hno {pc : StopPC} (hat : t.stop = pc) (hne : pc ≠ .returned r) : False :=
    hne (hat.symm.trans hstop)
  cases b with
  | stop =>
      have hdue : t.deal.stop = .due := of_decide_eq_true (Bool.and_eq_true_iff.mp hg).2
      rw [(dealt_of_run hr).stop, hstop] at hdue
      cases hdue
  | httpShutdown | goGraceful => exact (hno (of_decide_eq_true hg : _ ∧ _).2 (by simp)).elim
  | shutdownEnds r' =>
      exact (hno (of_decide_eq_true (Bool.and_eq_true_iff.mp hg).1) (by simp)).elim
  | httpClose err | grpcStop e => exact (hno (of_decide_eq_true hg) (by simp)).elim
  | takeDone | takeExpiry e | joined e =>
      exact (hno (of_decide_eq_true hg : _ ∧ _).1 (by simp)).elim
  | _ => exact hstop

/-- Behind a `Stop` that has returned, a call of `Start` comes to its end. -/
private theorem start_returns (hi : i < h.services.length) (hr : ServedRun p addr h i τ s)
    {r : Result} (hstop : s.2.stop = .returned r) :
    ∃ post s' τ', (hosted (component p addr) h i).Runs s post s' ∧
      (∀ c ∈ post, c.right?.isSome = true) ∧ ServedRun p addr h i τ' s' ∧ s'.2.start = .idle ∧
        s'.2.stop = .returned r := by
  by_cases hidle : s.2.start = .idle
  · exact ⟨[], s, τ, .nil, fun c hc => absurd hc List.not_mem_nil, hr, hidle, hstop⟩
  · have hstopping := stopping_of_run hr.service
    rw [Stopping, hstop] at hstopping
    obtain ⟨υ, t, hrun, hown, ht⟩ := start_ends hr.service hstopping.1 hidle
    have hof (b : Action) (hb : b ∈ υ) : (b.ofStart || b.ofStop) = true := by
      rw [hown b hb, Bool.true_or]
    have hkept : t.stop = .returned r := by
      refine hrun.invariant (fun _ t => t.stop = .returned r) hstop ?_
      exact fun _ _ _ hr' hat _ hg => returned_step (Run.trans hr.service hr') hg hat
    obtain ⟨post, s', τ', hpost, hright, rfl, hr'⟩ := lift_run hi hr hrun hof
    exact ⟨post, s', τ', hpost, hright, hr', ht, hkept⟩

/-- What is left of a server service when `RunContext` has returned comes to its end. -/
private theorem ends_of_run (hr : ServedRun p addr h i τ s) (hpc : s.1.pc = .returned)
    (hi : i < s.1.launched) :
    ∃ post s', (hosted (component p addr) h i).Runs s post s' ∧
      (∀ c ∈ post, c.right?.isSome = true) ∧ s'.2.start = .idle ∧
        (∃ r, s'.2.stop = .returned r) ∧ s'.2.conns = 0 ∧ ∀ n, s'.2.serve n ≠ .serving := by
  have hlength := hi.trans_le (Hosting.Placed.launched_le (Hosting.placed_of_run hr.host))
  have hafter : s.1.pc.afterLoop = true := by rw [hpc]; rfl
  have hissued := issued_of_returned hr.host hpc hi
  -- `Stop` is called if it was not
  obtain ⟨first, s₁, τ₁, hfirst, hright₁, hr₁, hafter₁, hcalled⟩ :
      ∃ first s₁ τ₁, (hosted (component p addr) h i).Runs s first s₁ ∧
        (∀ c ∈ first, c.right?.isSome = true) ∧ ServedRun p addr h i τ₁ s₁ ∧
          s₁.1.pc.afterLoop = true ∧ s₁.2.stop ≠ .uncalled := by
    by_cases hdue : s.2.stop = .uncalled
    · have hg := stop_called hr hissued hdue
      refine ⟨[.both (.stopper i .call) .stop], _, _, Run.snoc .nil trivial hg, ?_,
        hr.snoc trivial hg, hafter, StopPC.noConfusion⟩
      intro c hc
      rw [List.mem_singleton.mp hc]
      rfl
    · exact ⟨[], s, τ, .nil, fun c hc => absurd hc List.not_mem_nil, hr, hafter, hdue⟩
  obtain ⟨mid, s₂, τ₂, r, hmid, hright₂, hr₂, hstop⟩ := stop_returns hlength hr₁ hafter₁ hcalled
  obtain ⟨last, s₃, τ₃, hlast, hright₃, hr₃, hidle, hstop₃⟩ := start_returns hlength hr₂ hstop
  obtain ⟨hconns, hserve, -⟩ := nothing_left hr₃.service hidle hstop₃
  refine ⟨_, s₃, (hfirst.trans hmid).trans hlast, fun c hc => ?_, hidle, ⟨r, hstop₃⟩, hconns,
    hserve⟩
  rcases List.mem_append.mp hc with hc | hc
  · exact (List.mem_append.mp hc).elim (hright₁ c) (hright₂ c)
  · exact hright₃ c hc

theorem meshes_of_run (hr : ServedRun p addr h i τ s) (hi : i < h.services.length) :
    Meshes p addr h i s where
  host_steps := fun _ hg ha => host_goes_on (component_receptive p addr) hr hg ha
  server_steps := fun _ hg hcall hexpire => server_goes_on hr hi hg hexpire hcall
  ends := fun hpc hlaunched => ends_of_run hr hpc hlaunched

/-- The deadline passes before the goroutine that calls `Stop` has come to run. -/
def abandonedRun : List (Beside Hosting.Action Action) :=
  webRun.take 17 ++
    [.left (.env (.tick defaultShutdownTimeout)), .left (.host (.stop (.abandon 0 0))),
      .left (.host (.stop .leave)), .left (.host (.run .join)), .left (.host (.run .ret))]

theorem meshes_abandonedRun : Meshes .httpsvc ":8080" webHost 0
    ((hosted (component .httpsvc ":8080") webHost 0).after
      (Hosting.State.init webHost, State.init) abandonedRun) :=
  meshes_of_run (τ := abandonedRun) (Lts.Admits.run (by decide)) (by decide)

end Shost.Ports.Serving
