import Mathlib.Tactic

/-!
# Order properties of histories

A history is a list of events in the order of their occurrence.  The order
properties considered here all have one shape: whenever an event occurs, what
has occurred before it satisfies a condition.  `Guarded P τ` states this for
the condition `P pre e`.

## Main results

* `guarded_snoc` — one more event: its own condition is all there is to check.
* `guarded_append` — a batch of events, checked behind what is there already.
* `count_reports` — what the events of a history report is counted over those
  events that can report it.
* `filterMap_snoc`, `split_filterMap` — what is read off a history, event by event.
* `forall₂_filter`, `isSome_of_length_eq` — the events kept by a filter are matched one
  by one by what a partial function yields, exactly when it yields something for each.
-/

namespace Shost.Verified.Trace

variable {ε : Type*}

/-- Every event of `τ` occurs after a prefix that satisfies `P`. -/
def Guarded (P : List ε → ε → Prop) (τ : List ε) : Prop :=
  ∀ pre e post, τ = pre ++ e :: post → P pre e

theorem guarded_nil (P : List ε → ε → Prop) : Guarded P [] := by
  intro pre e post h
  simp at h

/-- The events of a batch are checked in front of what was there before. -/
theorem guarded_append {P : List ε → ε → Prop} {τ τ' : List ε} :
    Guarded P (τ ++ τ') ↔ Guarded P τ ∧ Guarded (fun pre => P (τ ++ pre)) τ' := by
  constructor
  · intro h
    constructor
    · intro pre e post hτ
      exact h pre e (post ++ τ') (by rw [hτ]; simp)
    · intro pre e post hτ
      exact h (τ ++ pre) e post (by rw [hτ]; simp)
  · rintro ⟨hτ, hτ'⟩ pre e post heq
    rcases List.append_eq_append_iff.mp heq with ⟨mid, rfl, hmid⟩ | ⟨mid, rfl, hmid⟩
    · exact hτ' mid e post hmid
    · cases mid with
      | nil =>
          have hP := hτ' [] e post (by simpa using hmid.symm)
          simpa using hP
      | cons x rest =>
          rw [List.cons_append, List.cons.injEq] at hmid
          exact hτ pre e rest (by rw [hmid.1])

/-- One more event keeps the property when it satisfies its own condition. -/
theorem guarded_snoc {P : List ε → ε → Prop} {τ : List ε} {e : ε} :
    Guarded P (τ ++ [e]) ↔ Guarded P τ ∧ P τ e := by
  rw [guarded_append]
  constructor
  · rintro ⟨hτ, he⟩
    exact ⟨hτ, by simpa using he [] e [] rfl⟩
  · rintro ⟨hτ, he⟩
    refine ⟨hτ, ?_⟩
    intro pre e' post heq
    obtain ⟨rfl, rfl, rfl⟩ : pre = [] ∧ e' = e ∧ post = [] := by
      cases pre <;> simp_all
    simpa using he

/-- How often a value is reported depends only on the events that can report
it. -/
theorem count_reports {β : Type*} [DecidableEq β] (report : ε → List β) (p : ε → Bool)
    (x : β) (τ : List ε) (hp : ∀ e, x ∈ report e → p e = true) :
    (τ.flatMap report).count x = ((τ.filter p).flatMap report).count x := by
  induction τ with
  | nil => rfl
  | cons e rest ih =>
      by_cases he : p e = true
      · rw [List.filter_cons_of_pos he, List.flatMap_cons, List.flatMap_cons,
          List.count_append, List.count_append, ih]
      · have hnot : x ∉ report e := fun hx => he (hp e hx)
        rw [List.filter_cons_of_neg he, List.flatMap_cons, List.count_append, ih,
          List.count_eq_zero_of_not_mem hnot, Nat.zero_add]

/-- One more event is read last. -/
theorem filterMap_snoc {β : Type*} (f : ε → Option β) (τ : List ε) (e : ε) :
    (τ ++ [e]).filterMap f = τ.filterMap f ++ (f e).toList := by
  rw [List.filterMap_append]
  cases he : f e <;> simp [he]

/-- What is read off a history was read off its events one by one. -/
theorem split_filterMap {β : Type*} {f : ε → Option β} {τ : List ε} {pre post : List β} {b : β}
    (h : τ.filterMap f = pre ++ b :: post) :
    ∃ front e back, τ = front ++ e :: back ∧ front.filterMap f = pre ∧ f e = some b ∧
      back.filterMap f = post := by
  obtain ⟨front, rest, rfl, hfront, hrest⟩ := List.filterMap_eq_append_iff.mp h
  obtain ⟨skipped, e, back, rfl, hnone, he, hback⟩ := List.filterMap_eq_cons_iff.mp hrest
  refine ⟨front ++ skipped, e, back, by simp, ?_, he, hback⟩
  rw [List.filterMap_append, hfront, List.filterMap_eq_nil_iff.mpr hnone, List.append_nil]

/-! ## What a filter keeps and what a partial function yields -/

section Kept

variable {β : Type*} {p : ε → Bool} {f : ε → Option β} {R : ε → β → Prop}

/-- What is kept by `p` is matched by what `f` yields where they agree. -/
theorem forall₂_filter (l : List ε) (hagree : ∀ x ∈ l, p x = (f x).isSome)
    (hR : ∀ x ∈ l, ∀ y, f x = some y → R x y) :
    List.Forall₂ R (l.filter p) (l.filterMap f) := by
  induction l with
  | nil => exact .nil
  | cons x rest ih =>
      have hrest := ih (fun y hy => hagree y (List.mem_cons_of_mem x hy))
        fun y hy => hR y (List.mem_cons_of_mem x hy)
      have hx := hagree x List.mem_cons_self
      cases hf : f x with
      | none =>
          have hp : p x = false := by rw [hx, hf]; rfl
          rw [List.filter_cons_of_neg (by simp [hp]), List.filterMap_cons_none hf]
          exact hrest
      | some y =>
          have hp : p x = true := by rw [hx, hf]; rfl
          rw [List.filter_cons_of_pos hp, List.filterMap_cons_some hf]
          exact .cons (hR x List.mem_cons_self y hf) hrest

theorem length_filterMap_le (l : List ε) (himp : ∀ x ∈ l, (f x).isSome = true → p x = true) :
    (l.filterMap f).length ≤ (l.filter p).length := by
  rw [List.length_filterMap_eq_countP, ← List.countP_eq_length_filter]
  exact List.countP_mono_left himp

/-- Where `p` keeps as many as `f` yields, it keeps no others. -/
theorem isSome_of_length_eq (l : List ε) (himp : ∀ x ∈ l, (f x).isSome = true → p x = true)
    (hlength : (l.filter p).length = (l.filterMap f).length) :
    ∀ x ∈ l, p x = true → (f x).isSome = true := by
  induction l with
  | nil => nofun
  | cons x rest ih =>
      have himp' : ∀ y ∈ rest, (f y).isSome = true → p y = true :=
        fun y hy => himp y (List.mem_cons_of_mem x hy)
      have hle := length_filterMap_le rest himp'
      have hx := himp x List.mem_cons_self
      intro y hy hp
      cases hf : f x with
      | none =>
          rw [List.filterMap_cons_none hf] at hlength
          cases hpx : p x with
          | true =>
              rw [List.filter_cons_of_pos hpx, List.length_cons] at hlength
              omega
          | false =>
              rw [List.filter_cons_of_neg (by simp [hpx])] at hlength
              rcases List.mem_cons.mp hy with rfl | hy
              · rw [hpx] at hp
                cases hp
              · exact ih himp' hlength y hy hp
      | some z =>
          have hpx : p x = true := hx (by rw [hf]; rfl)
          rw [List.filterMap_cons_some hf, List.filter_cons_of_pos hpx, List.length_cons,
            List.length_cons, Nat.succ_inj] at hlength
          rcases List.mem_cons.mp hy with rfl | hy
          · rw [hf]
            rfl
          · exact ih himp' hlength y hy hp

end Kept

end Shost.Verified.Trace
