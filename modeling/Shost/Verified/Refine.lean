import Shost.Verified.Lts

/-!
# Refinement of transition systems

A system refines another when each of its steps is matched by a step of the other or
by none at all, along a relation or an abstraction function between their states.
`vis` says which: it gives the abstract action that a concrete one shows.  A run of the concrete system then is a run of the abstract
one, whose history is what the concrete history shows, so that everything proved about
the runs of the abstract system holds of the concrete one.

Stuttering for ever is excluded by a rank: steps of a kind that each lower it are at
most as many as the rank at the start.

## Main results

* `Run.simulates`, `Run.refines` — a run is matched by a run of the abstract system.
* `Run.count_add_rank_le` — the steps of a kind, with the rank that is left, are at
  most the rank at the start.
-/

namespace Shost.Verified.Lts

open Trace

variable {σ α σ' β : Type*} {M : Lts σ α} {N : Lts σ' β}

/-- The system takes the action that is shown, if any, and stays where it is if none
is. -/
inductive Takes (N : Lts σ' β) (s : σ') : Option β → σ' → Prop
  | stays : Takes N s none s
  | takes {b : β} : N.guard s b = true → Takes N s (some b) (N.effect s b)

/-- What is taken, written as a guard and an equation. -/
theorem Takes.of_effect {s t : σ'} {b : β} (hg : N.guard s b = true) (ht : N.effect s b = t) :
    Takes N s (some b) t := by
  rw [← ht]
  exact .takes hg

theorem Takes.of_eq {s t : σ'} (ht : s = t) : Takes N s none t := by
  rw [ht]
  exact .stays

theorem Takes.enabled {s t : σ'} {b : β} (h : Takes N s (some b) t) : N.guard s b = true := by
  cases h with
  | takes hg => exact hg

/-- A run extended by what is taken. -/
theorem Takes.extend {s₀ s t : σ'} {τ : List β} {shown : Option β} (h : Takes N s shown t)
    (hr : N.Runs s₀ τ s) : N.Runs s₀ (τ ++ shown.toList) t := by
  cases h with
  | stays => simpa using hr
  | takes hg => exact hr.snoc trivial hg

/-- When each step is matched by one of the abstract system, or by none, so is a run. -/
theorem Run.simulates {ok : σ → α → Prop} {s₀ s : σ} {τ : List α} (h : M.Run ok s₀ τ s)
    (R : σ → σ' → Prop) (vis : α → Option β) {t₀ : σ'} (h₀ : R s₀ t₀)
    (hstep : ∀ τ s a t, M.Run ok s₀ τ s → ok s a → M.guard s a = true → R s t →
      ∃ t', Takes N t (vis a) t' ∧ R (M.effect s a) t') :
    ∃ t, N.Runs t₀ (τ.filterMap vis) t ∧ R s t := by
  induction h with
  | nil => exact ⟨t₀, .nil, h₀⟩
  | @snoc τ s a hr hok hg ih =>
      obtain ⟨t, hrun, hrel⟩ := ih
      obtain ⟨t', htakes, hrel'⟩ := hstep τ s a t hr hok hg hrel
      rw [filterMap_snoc]
      exact ⟨t', htakes.extend hrun, hrel'⟩

/-- When each step shows a step of the abstract system or nothing, a run is a run of
the abstract system. -/
theorem Run.refines {ok : σ → α → Prop} {s₀ s : σ} {τ : List α} (h : M.Run ok s₀ τ s)
    (abs : σ → σ') (vis : α → Option β)
    (hstep : ∀ τ s a, M.Run ok s₀ τ s → ok s a → M.guard s a = true →
      Takes N (abs s) (vis a) (abs (M.effect s a))) :
    N.Runs (abs s₀) (τ.filterMap vis) (abs s) := by
  obtain ⟨t, hrun, rfl⟩ := h.simulates (N := N) (fun s t => abs s = t) vis rfl
    (fun τ s a t hr hok hg hrel => ⟨_, hrel ▸ hstep τ s a hr hok hg, rfl⟩)
  exact hrun

/-- Where steps of a kind lower a rank and no step raises it, there are at most as
many of the kind as the rank allows. -/
theorem Run.count_add_rank_le {ok : σ → α → Prop} {s₀ s : σ} {τ : List α}
    (h : M.Run ok s₀ τ s) (kind : α → Bool) (rank : σ → Nat)
    (hstep : ∀ τ s a, M.Run ok s₀ τ s → ok s a → M.guard s a = true →
      rank (M.effect s a) + (if kind a then 1 else 0) ≤ rank s) :
    τ.countP kind + rank s ≤ rank s₀ := by
  induction h with
  | nil => simp
  | @snoc τ s a hr hok hg ih =>
      have hone := hstep τ s a hr hok hg
      have hcount : (τ ++ [a]).countP kind = τ.countP kind + if kind a then 1 else 0 := by
        rw [List.countP_append, List.countP_singleton]
      omega

end Shost.Verified.Lts
