import Shost.Verified.Refine

/-!
# Systems side by side

Two systems that run side by side and meet in some of their actions: an action that shows
a contact is taken together with one of the other side that shows the same contact, all
other actions are taken alone.  What an action shows may depend on the state that it is
taken in.  A step may have to wait for more than its own side knows; that is `may`, a
condition on both states.

Each side takes a run of its own, so that what is proved about the runs of one system
holds of it next to any other.

## Main results

* `Run.fst`, `Run.snd` — what each side does is a run of its system.
* `Run.agree` — both sides have met in the same.
* `Run.relax` — the conditions of `may` can be forgotten.
* `Run.goes_on` — where one side can always go on, its runs are runs of both.
-/

namespace Shost.Verified.Lts

open Trace

variable {σ α σ' β γ δ : Type*}

/-- A step of one side, or of both. -/
inductive Beside (α β : Type*) where
  | left (a : α)
  | right (b : β)
  | both (a : α) (b : β)
  deriving DecidableEq

namespace Beside

def left? : Beside α β → Option α
  | left a => some a
  | right _ => none
  | both a _ => some a

def right? : Beside α β → Option β
  | left _ => none
  | right b => some b
  | both _ b => some b

/-- What the left side has done. -/
def lefts (τ : List (Beside α β)) : List α := τ.filterMap left?

/-- What the right side has done. -/
def rights (τ : List (Beside α β)) : List β := τ.filterMap right?

theorem lefts_snoc (τ : List (Beside α β)) (c : Beside α β) :
    lefts (τ ++ [c]) = lefts τ ++ c.left?.toList := filterMap_snoc _ τ c

theorem rights_snoc (τ : List (Beside α β)) (c : Beside α β) :
    rights (τ ++ [c]) = rights τ ++ c.right?.toList := filterMap_snoc _ τ c

/-- What the left side does, it does in a step of both sides together. -/
theorem split_lefts {τ : List (Beside α β)} {pre post : List α} {a : α}
    (h : lefts τ = pre ++ a :: post) :
    ∃ front c back, τ = front ++ c :: back ∧ lefts front = pre ∧ c.left? = some a := by
  obtain ⟨front, c, back, hτ, hfront, hc, -⟩ := split_filterMap h
  exact ⟨front, c, back, hτ, hfront, hc⟩

end Beside

open Beside

/-- Two systems side by side. -/
def beside (M : Lts σ α) (N : Lts σ' β) [DecidableEq γ] (vis : σ → α → Option γ)
    (vis' : σ' → β → Option γ) (may : σ × σ' → Beside α β → Bool) :
    Lts (σ × σ') (Beside α β) where
  guard s c := may s c &&
    match c with
    | .left a => decide (vis s.1 a = none) && M.guard s.1 a
    | .right b => decide (vis' s.2 b = none) && N.guard s.2 b
    | .both a b =>
        decide (vis s.1 a ≠ none ∧ vis s.1 a = vis' s.2 b) && (M.guard s.1 a && N.guard s.2 b)
  effect s
    | .left a => (M.effect s.1 a, s.2)
    | .right b => (s.1, N.effect s.2 b)
    | .both a b => (M.effect s.1 a, N.effect s.2 b)

section

variable [DecidableEq γ] {M : Lts σ α} {N : Lts σ' β} {vis : σ → α → Option γ}
  {vis' : σ' → β → Option γ} {may : σ × σ' → Beside α β → Bool} {s : σ × σ'}

/-! ## Steps -/

theorem guard_left {a : α} : (beside M N vis vis' may).guard s (.left a) = true ↔
    may s (.left a) = true ∧ vis s.1 a = none ∧ M.guard s.1 a = true := by
  show (_ && (_ && _)) = true ↔ _
  rw [Bool.and_eq_true, Bool.and_eq_true, decide_eq_true_eq]

theorem guard_right {b : β} : (beside M N vis vis' may).guard s (.right b) = true ↔
    may s (.right b) = true ∧ vis' s.2 b = none ∧ N.guard s.2 b = true := by
  show (_ && (_ && _)) = true ↔ _
  rw [Bool.and_eq_true, Bool.and_eq_true, decide_eq_true_eq]

theorem guard_both {a : α} {b : β} : (beside M N vis vis' may).guard s (.both a b) = true ↔
    may s (.both a b) = true ∧ (vis s.1 a ≠ none ∧ vis s.1 a = vis' s.2 b) ∧
      M.guard s.1 a = true ∧ N.guard s.2 b = true := by
  show (_ && (_ && (_ && _))) = true ↔ _
  rw [Bool.and_eq_true, Bool.and_eq_true, Bool.and_eq_true, decide_eq_true_eq]

/-- What a side does in a step is a step of its own, and shows the same as the other
side. -/
theorem step_sides {c : Beside α β} (hg : (beside M N vis vis' may).guard s c = true) :
    (∀ a, c.left? = some a → M.guard s.1 a = true) ∧
      (∀ b, c.right? = some b → N.guard s.2 b = true) ∧
        c.left?.bind (vis s.1) = c.right?.bind (vis' s.2) := by
  cases c with
  | left a =>
      obtain ⟨-, hvis, hguard⟩ := guard_left.mp hg
      refine ⟨fun a' ha => ?_, nofun, hvis⟩
      rwa [← Option.some.inj ha]
  | right b =>
      obtain ⟨-, hvis, hguard⟩ := guard_right.mp hg
      refine ⟨nofun, fun b' hb => ?_, hvis.symm⟩
      rwa [← Option.some.inj hb]
  | both a b =>
      obtain ⟨-, ⟨-, hsame⟩, ha, hb⟩ := guard_both.mp hg
      refine ⟨fun a' ha' => ?_, fun b' hb' => ?_, hsame⟩
      · rwa [← Option.some.inj ha']
      · rwa [← Option.some.inj hb']

theorem fst_effect {c : Beside α β} {a : α} (hc : c.left? = some a) :
    ((beside M N vis vis' may).effect s c).1 = M.effect s.1 a := by
  cases c with
  | right b => cases hc
  | left a' | both a' b =>
      obtain rfl := Option.some.inj hc
      rfl

theorem snd_effect {c : Beside α β} {b : β} (hc : c.right? = some b) :
    ((beside M N vis vis' may).effect s c).2 = N.effect s.2 b := by
  cases c with
  | left a => cases hc
  | right b' | both a b' =>
      obtain rfl := Option.some.inj hc
      rfl

/-! ## Runs -/

variable {ok : σ × σ' → Beside α β → Prop} {s₀ : σ × σ'} {τ : List (Beside α β)}

theorem Run.fst (h : (beside M N vis vis' may).Run ok s₀ τ s) :
    M.Runs s₀.1 (lefts τ) s.1 := by
  induction h with
  | nil => exact .nil
  | @snoc τ s c _ _ hg ih =>
      have hside := (step_sides hg).1
      rw [lefts_snoc]
      cases c with
      | left a | both a b => exact ih.snoc trivial (hside a rfl)
      | right b =>
          rw [left?, Option.toList_none, List.append_nil]
          exact ih

theorem Run.snd (h : (beside M N vis vis' may).Run ok s₀ τ s) :
    N.Runs s₀.2 (rights τ) s.2 := by
  induction h with
  | nil => exact .nil
  | @snoc τ s c _ _ hg ih =>
      have hside := (step_sides hg).2.1
      rw [rights_snoc]
      cases c with
      | right b | both a b => exact ih.snoc trivial (hside b rfl)
      | left a =>
          rw [right?, Option.toList_none, List.append_nil]
          exact ih

/-- A run that had to wait is one that need not have. -/
theorem Run.relax (h : (beside M N vis vis' may).Run ok s₀ τ s) :
    (beside M N vis vis' fun _ _ => true).Run ok s₀ τ s := by
  induction h with
  | nil => exact .nil
  | snoc _ hok hg ih =>
      exact ih.snoc hok (Bool.and_eq_true_iff.mpr ⟨rfl, (Bool.and_eq_true_iff.mp hg).2⟩)

private theorem filterMap_toList (x : Option α) (f : α → Option δ) :
    x.toList.filterMap f = (x.bind f).toList := by
  cases x with
  | none => rfl
  | some a => cases hf : f a <;> simp [hf]

/-- What is read off what the sides show is the same on both. -/
theorem Run.agree (h : (beside M N vis vis' may).Run ok s₀ τ s) (f : α → Option δ)
    (g : β → Option δ) (read : γ → Option δ) (hf : ∀ s a, f a = (vis s a).bind read)
    (hg : ∀ s b, g b = (vis' s b).bind read) :
    (lefts τ).filterMap f = (rights τ).filterMap g := by
  induction h with
  | nil => rfl
  | @snoc τ s c _ _ hguard ih =>
      have hsame : c.left?.bind f = c.right?.bind g := by
        have hshown : (c.left?.bind (vis s.1)).bind read = (c.right?.bind (vis' s.2)).bind read :=
          congrArg (fun x => x.bind read) (step_sides hguard).2.2
        rwa [Option.bind_assoc, Option.bind_assoc, ← funext (hf s.1), ← funext (hg s.2)]
          at hshown
      rw [lefts_snoc, rights_snoc, List.filterMap_append, List.filterMap_append, ih,
        filterMap_toList, filterMap_toList, hsame]

/-- A run of the right side is one of both when the left side lets it go on. -/
theorem Run.goes_on {P : σ × σ' → Prop} {kind : β → Bool}
    (hstep : ∀ s b, P s → kind b = true → N.guard s.2 b = true →
      ∃ c : Beside α β, c.right? = some b ∧ (beside M N vis vis' may).guard s c = true ∧
        P ((beside M N vis vis' may).effect s c)) (hP : P s) {υ : List β} {t : σ'}
    (hr : N.Runs s.2 υ t) (hkind : ∀ b ∈ υ, kind b = true) :
    ∃ post s', (beside M N vis vis' may).Runs s post s' ∧
      (∀ c ∈ post, ∃ b, c.right? = some b ∧ kind b = true) ∧ s'.2 = t ∧ P s' := by
  induction hr with
  | nil => exact ⟨[], s, .nil, nofun, rfl, hP⟩
  | @snoc υ t b _ _ hg ih =>
      obtain ⟨post, s', hpost, hof, rfl, hs'⟩ := ih fun b hb =>
        hkind b (List.mem_append_left _ hb)
      have hb := hkind b (List.mem_append_right _ (List.mem_singleton_self _))
      obtain ⟨c, hc, hgc, hnext⟩ := hstep s' b hs' hb hg
      refine ⟨post ++ [c], _, hpost.snoc trivial hgc, fun c' hc' => ?_, ?_, hnext⟩
      · rcases List.mem_append.mp hc' with hold | hnew
        · exact hof c' hold
        · rw [List.mem_singleton.mp hnew]
          exact ⟨b, hc, hb⟩
      · cases c with
        | left a => cases hc
        | right b' | both a b' =>
            obtain rfl := Option.some.inj hc
            rfl

end

end Shost.Verified.Lts
