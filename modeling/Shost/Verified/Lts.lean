import Shost.Verified.Trace

/-!
# Guarded transition systems

A system of concurrent processes is given by its actions: each has a guard
that says in which states it can happen, and an effect.  An action carries the
outcome of every choice it stands for, so `effect` is a function, and the list
of the actions taken is the whole history of a run.

`Run ok s₀ τ s` is a run from `s₀` to `s` with history `τ`, each step of which
satisfies `ok`, a predicate on the state before the step and the action.  Plain
runs are the instance with the trivial predicate; a conditional result about
runs is one about `Run ok`.

## Main results

* `Run.invariant` — the induction rule for invariants of state and history.
* `Run.guarded` — an order property holds of every history when every step
  satisfies it at its own moment.
* `Run.split`, `Run.split_append` — a run can be cut at every action of its history, and
  between any two.
* `Admits.run` — lists of actions that can be executed are runs.
* `reaches_of_rank` — a goal is reached by actions that lower a rank until then.
-/

namespace Shost.Verified

open Trace

/-- A transition system with guarded actions. -/
structure Lts (σ α : Type*) where
  guard : σ → α → Bool
  effect : σ → α → σ

namespace Lts

variable {σ α : Type*} (M : Lts σ α)

/-- A run with its history, all steps of which satisfy `ok`. -/
inductive Run (ok : σ → α → Prop) (s₀ : σ) : List α → σ → Prop
  | nil : Run ok s₀ [] s₀
  | snoc {τ : List α} {s : σ} {a : α} : Run ok s₀ τ s → ok s a → M.guard s a = true →
      Run ok s₀ (τ ++ [a]) (M.effect s a)

/-- A run with its history. -/
abbrev Runs (s₀ : σ) (τ : List α) (s : σ) : Prop := M.Run (fun _ _ => True) s₀ τ s

/-- The sum of the durations of those actions that are taken in a state that
satisfies `p`. -/
def spent (p : σ → Bool) (duration : α → Int) (s : σ) : List α → Int
  | [] => 0
  | a :: rest => (if p s then duration a else 0) + spent p duration (M.effect s a) rest

/-- The actions of a list, each with the state it is taken in. -/
def steps (s : σ) : List α → List (σ × α)
  | [] => []
  | a :: rest => (s, a) :: steps (M.effect s a) rest

/-- The state after a list of actions, enabled or not. -/
def after (s : σ) (τ : List α) : σ := τ.foldl M.effect s

/-- A list of actions can be executed, each step satisfying `ok`. -/
def Admits (ok : σ → α → Prop) (s : σ) : List α → Prop
  | [] => True
  | a :: rest => ok s a ∧ M.guard s a = true ∧ Admits ok (M.effect s a) rest

instance Admits.decidable (ok : σ → α → Prop) [∀ s a, Decidable (ok s a)] :
    ∀ (s : σ) (acts : List α), Decidable (M.Admits ok s acts)
  | _, [] => inferInstanceAs (Decidable True)
  | s, a :: rest =>
      have := Admits.decidable ok (M.effect s a) rest
      inferInstanceAs (Decidable (ok s a ∧ M.guard s a = true ∧ M.Admits ok (M.effect s a) rest))

variable {M}

/-- What holds at the start and is preserved by every step holds at the end of
every run. -/
theorem Run.invariant {ok : σ → α → Prop} {s₀ s : σ} {τ : List α}
    (I : List α → σ → Prop) (h : M.Run ok s₀ τ s) (h₀ : I [] s₀)
    (hstep : ∀ τ s a, M.Run ok s₀ τ s → I τ s → ok s a → M.guard s a = true →
      I (τ ++ [a]) (M.effect s a)) : I τ s := by
  induction h with
  | nil => exact h₀
  | snoc hr hok hg ih => exact hstep _ _ _ hr ih hok hg

/-- A history is ordered when each action is in order as it is taken. -/
theorem Run.guarded {ok : σ → α → Prop} {s₀ s : σ} {τ : List α} (h : M.Run ok s₀ τ s)
    {P : List α → α → Prop}
    (hstep : ∀ τ s a, M.Run ok s₀ τ s → ok s a → M.guard s a = true → P τ a) :
    Guarded P τ := by
  induction h with
  | nil => exact guarded_nil P
  | snoc hr hok hg ih => exact guarded_snoc.mpr ⟨ih, hstep _ _ _ hr hok hg⟩

theorem Run.trans {ok : σ → α → Prop} {s₀ s₁ s₂ : σ} {τ₁ τ₂ : List α}
    (h₁ : M.Run ok s₀ τ₁ s₁) (h₂ : M.Run ok s₁ τ₂ s₂) : M.Run ok s₀ (τ₁ ++ τ₂) s₂ := by
  induction h₂ with
  | nil => simpa using h₁
  | snoc _ hok hg ih =>
      rw [← List.append_assoc]
      exact ih.snoc hok hg

/-- A run satisfies what follows, at the actions of its history, from what its steps
satisfy. -/
theorem Run.imp {ok ok' : σ → α → Prop} {s₀ s : σ} {τ : List α} (h : M.Run ok s₀ τ s)
    (himp : ∀ s, ∀ a ∈ τ, ok s a → ok' s a) : M.Run ok' s₀ τ s := by
  induction h with
  | nil => exact .nil
  | snoc _ hok hg ih =>
      have hprefix := ih fun s b hb => himp s b (List.mem_append_left _ hb)
      exact hprefix.snoc (himp _ _ (List.mem_append_right _ (List.mem_singleton_self _)) hok) hg

/-- A run can be cut at every action of its history. -/
theorem Run.split {ok : σ → α → Prop} {s₀ s : σ} {pre post : List α} {a : α}
    (h : M.Run ok s₀ (pre ++ a :: post) s) :
    ∃ s₁, M.Run ok s₀ pre s₁ ∧ ok s₁ a ∧ M.guard s₁ a = true ∧
      M.Run ok (M.effect s₁ a) post s := by
  generalize hτ : pre ++ a :: post = τ at h
  induction h generalizing post with
  | nil => simp at hτ
  | @snoc τ s b hr hok hg ih =>
      rcases List.eq_nil_or_concat post with rfl | ⟨post', last, rfl⟩
      · obtain ⟨rfl, hab⟩ := List.append_inj' hτ rfl
        obtain rfl : a = b := by simpa using hab
        exact ⟨s, hr, hok, hg, .nil⟩
      · rw [List.concat_eq_append, ← List.cons_append, ← List.append_assoc] at hτ
        obtain ⟨hpre, hlast⟩ := List.append_inj' hτ rfl
        obtain rfl : last = b := by simpa using hlast
        obtain ⟨s₁, hr₁, hok₁, hg₁, hr₂⟩ := ih hpre
        exact ⟨s₁, hr₁, hok₁, hg₁, by simpa using hr₂.snoc hok hg⟩

/-- A run can be cut between any two of its steps. -/
theorem Run.split_append {ok : σ → α → Prop} {s₀ s : σ} {pre post : List α}
    (h : M.Run ok s₀ (pre ++ post) s) : ∃ s₁, M.Run ok s₀ pre s₁ ∧ M.Run ok s₁ post s := by
  cases post with
  | nil => exact ⟨s, by simpa using h, .nil⟩
  | cons a rest =>
      obtain ⟨s₁, hpre, hok, hg, hrest⟩ := h.split
      exact ⟨s₁, hpre, (Run.snoc .nil hok hg).trans hrest⟩

/-- Every action of a history was enabled as it was taken. -/
theorem Run.of_mem {ok : σ → α → Prop} {s₀ s : σ} {τ : List α} {a : α}
    (h : M.Run ok s₀ τ s) (ha : a ∈ τ) :
    ∃ pre post s₁, τ = pre ++ a :: post ∧ M.Run ok s₀ pre s₁ ∧ ok s₁ a ∧
      M.guard s₁ a = true := by
  obtain ⟨pre, post, rfl⟩ := List.append_of_mem ha
  obtain ⟨s₁, hr, hok, hg, -⟩ := h.split
  exact ⟨pre, post, s₁, rfl, hr, hok, hg⟩

/-- The history determines where a run ends. -/
theorem Run.after_eq {ok : σ → α → Prop} {s₀ s : σ} {τ : List α} (h : M.Run ok s₀ τ s) :
    M.after s₀ τ = s := by
  induction h with
  | nil => rfl
  | @snoc τ s a hr _ _ ih =>
      have hsnoc : M.after s₀ (τ ++ [a]) = M.effect (M.after s₀ τ) a := by simp [after]
      rw [hsnoc, ih]

/-- A list of actions that can be executed is the history of a run. -/
theorem Admits.run {ok : σ → α → Prop} {acts : List α} :
    ∀ {s : σ}, M.Admits ok s acts → M.Run ok s acts (M.after s acts) := by
  induction acts with
  | nil => exact fun _ => .nil
  | cons a rest ih =>
      intro s h
      obtain ⟨hok, hg, hrest⟩ := h
      exact (Run.snoc .nil hok hg).trans (ih hrest)

/-- Where some action of a kind is always possible, and takes the system to the
goal or lowers a rank, actions of this kind alone reach the goal. -/
theorem reaches_of_rank {ok : σ → α → Prop} {P goal : σ → Prop} {kind : α → Bool}
    (rank : σ → Nat)
    (hstep : ∀ s, P s → ∃ a, kind a = true ∧ ok s a ∧ M.guard s a = true ∧
      (goal (M.effect s a) ∨ P (M.effect s a) ∧ rank (M.effect s a) < rank s)) :
    ∀ s, P s → ∃ τ s', M.Run ok s τ s' ∧ (∀ a ∈ τ, kind a = true) ∧ goal s' := by
  intro s
  generalize hn : rank s = n
  induction n using Nat.strong_induction_on generalizing s with
  | _ n ih =>
      intro hs
      obtain ⟨a, hkind, hok, hg, hgoal | ⟨hP, hless⟩⟩ := hstep s hs
      · exact ⟨[a], _, Run.snoc .nil hok hg, by simpa using hkind, hgoal⟩
      · obtain ⟨τ, s', hr, hall, hgoal⟩ := ih _ (hn ▸ hless) _ rfl hP
        have hfirst : M.Run ok s [a] (M.effect s a) := Run.snoc .nil hok hg
        refine ⟨[a] ++ τ, s', hfirst.trans hr, fun b hb => ?_, hgoal⟩
        rcases List.mem_append.mp hb with hb | hb
        · rw [List.mem_singleton.mp hb]
          exact hkind
        · exact hall b hb

/-- The time spent adds up over the parts of a history. -/
theorem spent_append (p : σ → Bool) (duration : α → Int) (τ τ' : List α) :
    ∀ s : σ, M.spent p duration s (τ ++ τ') =
      M.spent p duration s τ + M.spent p duration (M.after s τ) τ' := by
  induction τ with
  | nil => exact fun _ => (zero_add _).symm
  | cons a rest ih =>
      intro s
      rw [List.cons_append, spent, spent, ih, add_assoc]
      rfl

theorem steps_append (τ τ' : List α) :
    ∀ s : σ, M.steps s (τ ++ τ') = M.steps s τ ++ M.steps (M.after s τ) τ' := by
  induction τ with
  | nil => exact fun _ => rfl
  | cons a rest ih =>
      intro s
      rw [List.cons_append, steps, steps, ih]
      rfl

/-- A run grows by its last action in the state that it has come to. -/
theorem Run.steps_snoc {ok : σ → α → Prop} {s₀ s : σ} {τ : List α} (h : M.Run ok s₀ τ s)
    (a : α) : M.steps s₀ (τ ++ [a]) = M.steps s₀ τ ++ [(s, a)] := by
  rw [steps_append, h.after_eq]
  rfl

/-- The time spent grows along a run by the duration of the step's action. -/
theorem Run.spent_snoc {ok : σ → α → Prop} {s₀ s : σ} {τ : List α} (h : M.Run ok s₀ τ s)
    (p : σ → Bool) (duration : α → Int) (a : α) :
    M.spent p duration s₀ (τ ++ [a]) =
      M.spent p duration s₀ τ + if p s then duration a else 0 := by
  rw [spent_append, h.after_eq, spent, spent, add_zero]

end Lts

end Shost.Verified
