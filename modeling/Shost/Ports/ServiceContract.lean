import Shost.Ports.HostTypes
import Shost.Verified.Refine

/-!
# What a service may rely on

The contract between a host and one of its services, as a transition system of its
own: calls of `Start`, one after the other; the beginning of the shutdown; the end of
the context that `Start` was given; one call of `Stop`.  It says nothing about how a
host comes to make these calls, and is what the services of the repository are
written against.

After the shutdown has begun `Start` may be called once more, by a supervisor that was
about to call it, but not if a call is in progress.

## Main results

* `honors_of_runs` — what every history allowed by the contract looks like.
-/

namespace Shost.Ports.Hosting

open Shost.Verified Trace

/-- What passes between a host and a service. -/
inductive Deed where
  | start
  | startReturns (o : Outcome)
  /-- the host begins to shut down -/
  | shutdown
  /-- the context of the service is done -/
  | cancel
  | stop
  | stopReturns (o : Outcome)
  deriving DecidableEq

/-- The stages of the call of `Stop`. -/
inductive StopStage where
  | due
  | running
  | over
  deriving DecidableEq

/-- Where host and service stand. -/
structure Deal where
  /-- a call of `Start` is in progress -/
  serving : Bool
  closing : Bool
  /-- `Start` is not called again -/
  spent : Bool
  canceled : Bool
  stop : StopStage
  deriving DecidableEq

def Deal.init : Deal where
  serving := false
  closing := false
  spent := false
  canceled := false
  stop := .due

/-- `Stop` has been called. -/
def StopStage.called : StopStage → Bool
  | .due => false
  | .running | .over => true

def Deal.allows (d : Deal) : Deed → Bool
  | .start => !d.serving && !d.spent
  | .startReturns _ => d.serving
  | .shutdown => !d.closing
  | .cancel => d.closing && !d.canceled
  | .stop => d.canceled && decide (d.stop = .due)
  | .stopReturns _ => decide (d.stop = .running)

def Deal.next (d : Deal) : Deed → Deal
  | .start => { d with serving := true, spent := d.closing }
  | .startReturns _ => { d with serving := false }
  | .shutdown => { d with closing := true, spent := d.serving }
  | .cancel => { d with canceled := true }
  | .stop => { d with stop := .running }
  | .stopReturns _ => { d with stop := .over }

/-- The contract. -/
def contract : Lts Deal Deed where
  guard := Deal.allows
  effect := Deal.next

def Deed.startEnds : Deed → Bool
  | .startReturns _ => true
  | _ => false

/-- A call of `Start` has not returned. -/
def Serving (τ : List Deed) : Prop := τ.countP Deed.startEnds < τ.count .start

/-- What the contract promises of a history. -/
structure Honors (τ : List Deed) : Prop where
  /-- calls of `Start` do not overlap -/
  starts_alone : Guarded (fun pre a => a = .start → ¬ Serving pre) τ
  /-- the shutdown begins once, and after it there is at most one call of `Start`, and
  none if a call was in progress -/
  late_starts : ∀ pre post, τ = pre ++ .shutdown :: post →
    .shutdown ∉ post ∧ post.count .start ≤ 1 ∧ (Serving pre → .start ∉ post)
  cancel_once : τ.count .cancel ≤ 1
  cancel_after : Guarded (fun pre a => a = .cancel → .shutdown ∈ pre) τ
  stop_once : τ.count .stop ≤ 1
  stop_after : Guarded (fun pre a => a = .stop → .cancel ∈ pre) τ

/-- What the state says about the history. -/
private structure Recorded (τ : List Deed) (d : Deal) : Prop where
  serving : τ.count .start = τ.countP Deed.startEnds + d.serving.toNat
  closing : τ.count .shutdown = d.closing.toNat
  canceled : τ.count .cancel = d.canceled.toNat
  stop : τ.count .stop = d.stop.called.toNat

private theorem recorded_of_runs {τ : List Deed} {d : Deal}
    (hr : contract.Runs Deal.init τ d) : Recorded τ d := by
  refine hr.invariant Recorded ⟨rfl, rfl, rfl, rfl⟩ ?_
  intro τ d a _ ih _ hg
  have hallows : d.allows a = true := hg
  show Recorded (τ ++ [a]) (d.next a)
  obtain ⟨hserving, hclosing, hcanceled, hstop⟩ := ih
  cases a <;>
    simp only [Deal.allows, Bool.and_eq_true, Bool.not_eq_true', decide_eq_true_eq] at hallows <;>
    constructor <;>
    simp [Deal.next, Deed.startEnds, StopStage.called, List.count_append, *]

/-- A call is in progress when the state says so. -/
theorem serving_iff_of_runs {τ : List Deed} {d : Deal} (hr : contract.Runs Deal.init τ d) :
    Serving τ ↔ d.serving = true := by
  have hcount := (recorded_of_runs hr).serving
  unfold Serving
  cases hd : d.serving with
  | true =>
      rw [hd, Bool.toNat_true] at hcount
      exact ⟨fun _ => rfl, fun _ => by omega⟩
  | false =>
      rw [hd, Bool.toNat_false] at hcount
      exact ⟨fun hlt => by omega, nofun⟩

/-- `Stop` is called when the context is done, and that is done in the shutdown. -/
theorem order_of_runs {τ : List Deed} {d : Deal} (hr : contract.Runs Deal.init τ d) :
    (d.stop ≠ .due → d.canceled = true) ∧ (d.canceled = true → d.closing = true) := by
  refine hr.invariant (fun _ d => (d.stop ≠ .due → d.canceled = true) ∧
    (d.canceled = true → d.closing = true)) ⟨fun hdue => absurd rfl hdue, nofun⟩ ?_
  intro τ d a _ ih _ hg
  have hallows : d.allows a = true := hg
  cases a with
  | start | startReturns o => exact ih
  | shutdown => exact ⟨ih.1, fun _ => rfl⟩
  | cancel => exact ⟨fun _ => rfl, fun _ => (Bool.and_eq_true_iff.mp hallows).1⟩
  | stop => exact ⟨fun _ => (Bool.and_eq_true_iff.mp hallows).1, ih.2⟩
  | stopReturns o =>
      have hrunning : d.stop ≠ .due := by
        rw [of_decide_eq_true hallows]
        decide
      exact ⟨fun _ => ih.1 hrunning, ih.2⟩

/-- From a deal in its shutdown on there is one more call of `Start`, or none. -/
private theorem closing_run {ok : Deal → Deed → Prop} {τ : List Deed} {d d' : Deal}
    (hclosing : d.closing = true) (hr : contract.Run ok d τ d') :
    d'.closing = true ∧ .shutdown ∉ τ ∧ τ.count .start + d.spent.toNat ≤ d'.spent.toNat := by
  refine hr.invariant (fun τ d' => d'.closing = true ∧ .shutdown ∉ τ ∧
    τ.count .start + d.spent.toNat ≤ d'.spent.toNat) ⟨hclosing, List.not_mem_nil, by simp⟩ ?_
  intro τ d' a _ ih _ hg
  have hallows : d'.allows a = true := hg
  obtain ⟨hclosed, hnone, hcount⟩ := ih
  cases a with
  | start =>
      simp only [Deal.allows, Bool.and_eq_true, Bool.not_eq_true'] at hallows
      rw [hallows.2, Bool.toNat_false] at hcount
      refine ⟨hclosed, by simpa using hnone, ?_⟩
      show (τ ++ [Deed.start]).count .start + d.spent.toNat ≤ d'.closing.toNat
      rw [hclosed, Bool.toNat_true, List.count_append, List.count_singleton_self]
      omega
  | shutdown =>
      rw [Deal.allows, hclosed] at hallows
      cases hallows
  | _ =>
      refine ⟨hclosed, by simpa using hnone, ?_⟩
      rw [List.count_append]
      exact hcount

/-- Every history that the contract allows. -/
theorem honors_of_runs {τ : List Deed} {d : Deal} (hr : contract.Runs Deal.init τ d) :
    Honors τ where
  starts_alone := by
    refine hr.guarded ?_
    rintro τ d a hr - hg rfl
    have hallows : d.allows .start = true := hg
    simp only [Deal.allows, Bool.and_eq_true, Bool.not_eq_true'] at hallows
    rw [serving_iff_of_runs hr, hallows.1]
    nofun
  late_starts := by
    rintro pre post rfl
    obtain ⟨d₁, hr₁, -, -, hr₂⟩ := hr.split
    obtain ⟨-, hnone, hcount⟩ := closing_run (d := d₁.next .shutdown) rfl hr₂
    have hspent := Bool.toNat_le d.spent
    refine ⟨hnone, by omega, fun hserving => ?_⟩
    have hon : (d₁.next .shutdown).spent = true :=
      (serving_iff_of_runs hr₁).mp hserving
    rw [hon, Bool.toNat_true] at hcount
    exact List.count_eq_zero.mp (by omega)
  cancel_once := by
    rw [(recorded_of_runs hr).canceled]
    exact Bool.toNat_le d.canceled
  cancel_after := by
    refine hr.guarded ?_
    rintro τ d a hr - hg rfl
    have hallows : d.allows .cancel = true := hg
    simp only [Deal.allows, Bool.and_eq_true] at hallows
    have hcount := (recorded_of_runs hr).closing
    rw [hallows.1, Bool.toNat_true] at hcount
    exact List.count_pos_iff.mp (by omega)
  stop_once := by
    rw [(recorded_of_runs hr).stop]
    exact Bool.toNat_le _
  stop_after := by
    refine hr.guarded ?_
    rintro τ d a hr - hg rfl
    have hallows : d.allows .stop = true := hg
    simp only [Deal.allows, Bool.and_eq_true] at hallows
    have hcount := (recorded_of_runs hr).canceled
    rw [hallows.1, Bool.toNat_true] at hcount
    exact List.count_pos_iff.mp (by omega)

end Shost.Ports.Hosting
