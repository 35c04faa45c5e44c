import Mathlib.Data.Int.Log
import Mathlib.Tactic

/-!
# Binary numbers of a fixed precision

A number of precision `p` is an integer of at most `p` bits times a power of two.
`nearest p` takes a rational to the number next to it, ties to the even one.  The exponents
have no bounds, so this is floating-point rounding as long as nothing overflows or is
subnormal.

What a rounding does is compared with the numbers of one spacing: `le_nearest_iff` says on
which side of such a number a value ends up.
-/

namespace Shost.Verified

namespace Binary

/-- The integer next to a rational, ties to the even one. -/
def halfEven (x : ℚ) : ℤ :=
  if x - ⌊x⌋ < 1 / 2 then ⌊x⌋
  else if 1 / 2 < x - ⌊x⌋ then ⌊x⌋ + 1
  else if Even ⌊x⌋ then ⌊x⌋ else ⌊x⌋ + 1

theorem halfEven_lt {x : ℚ} {n : ℤ} (h : x < n - 1 / 2) : halfEven x < n := by
  have hfloor : (⌊x⌋ : ℚ) ≤ x := Int.floor_le x
  have hlt : ⌊x⌋ < n := by
    have : (⌊x⌋ : ℚ) < n := by linarith
    exact_mod_cast this
  have hhalf : ¬ 1 / 2 ≤ x - ⌊x⌋ ∨ ⌊x⌋ + 1 < n := by
    by_contra hno
    simp only [not_or, not_not, not_lt] at hno
    have hn : (n : ℚ) ≤ ⌊x⌋ + 1 := by exact_mod_cast hno.2
    linarith [hno.1]
  rw [halfEven]
  rcases hhalf with hhalf | hhalf
  · rw [if_pos (not_le.mp hhalf)]
    exact hlt
  · split
    · exact hlt
    · split
      · exact hhalf
      · split
        · exact hlt
        · exact hhalf

theorem le_halfEven {x : ℚ} {n : ℤ} (h : (n : ℚ) - 1 / 2 < x) : n ≤ halfEven x := by
  have hfloor : x < ⌊x⌋ + 1 := Int.lt_floor_add_one x
  have hle : n ≤ ⌊x⌋ + 1 := by
    have : (n : ℚ) < ⌊x⌋ + 1 + 1 := by linarith
    have : n < ⌊x⌋ + 1 + 1 := by exact_mod_cast this
    omega
  have hhalf : 1 / 2 < x - ⌊x⌋ ∨ n ≤ ⌊x⌋ := by
    by_contra hno
    simp only [not_or, not_lt, not_le] at hno
    have hn : (⌊x⌋ : ℚ) + 1 ≤ n := by exact_mod_cast hno.2
    linarith [hno.1]
  rw [halfEven]
  rcases hhalf with hhalf | hhalf
  · rw [if_neg (by linarith), if_pos hhalf]
    exact hle
  · split
    · exact hhalf
    · split
      · exact hle
      · split
        · exact hhalf
        · exact hle

/-- A tie below an even integer is rounded up. -/
theorem le_halfEven_of_even {x : ℚ} {n : ℤ} (hn : Even n) (h : (n : ℚ) - 1 / 2 ≤ x) :
    n ≤ halfEven x := by
  rcases h.lt_or_eq with hlt | heq
  · exact le_halfEven hlt
  · have hfloor : ⌊x⌋ = n - 1 := by
      rw [Int.floor_eq_iff]
      push_cast
      constructor <;> linarith
    have hodd : ¬Even (n - 1) := by
      rw [Int.even_sub_one, not_not]
      exact hn
    rw [halfEven, hfloor, if_neg (by push_cast; linarith), if_neg (by push_cast; linarith),
      if_neg hodd]
    omega

theorem halfEven_le (x : ℚ) : (halfEven x : ℚ) ≤ x + 1 / 2 := by
  have hfloor : (⌊x⌋ : ℚ) ≤ x := Int.floor_le x
  rw [halfEven]
  split
  · linarith
  · split
    · push_cast
      linarith
    · split
      · linarith
      · push_cast
        linarith

theorem halfEven_mono {x y : ℚ} (h : x ≤ y) : halfEven x ≤ halfEven y := by
  rcases h.lt_or_eq with hlt | rfl
  · apply le_halfEven
    have hle := halfEven_le x
    linarith
  · exact le_rfl

theorem le_halfEven_iff_of_even {x : ℚ} {n : ℤ} (hn : Even n) :
    n ≤ halfEven x ↔ (n : ℚ) - 1 / 2 ≤ x := by
  constructor
  · intro hle
    by_contra hlt
    exact absurd hle (not_le.mpr (halfEven_lt (not_le.mp hlt)))
  · exact le_halfEven_of_even hn

/-! ## Rounding to a precision -/

/-- The spacing of the numbers around a rational. -/
def spacing (p : ℕ) (x : ℚ) : ℚ := 2 ^ (Int.log 2 |x| + 1 - p)

def nearest (p : ℕ) (x : ℚ) : ℚ := halfEven (x / spacing p x) * spacing p x

variable {p : ℕ} {x c : ℚ} {n : ℤ}

theorem spacing_pos (p : ℕ) (x : ℚ) : 0 < spacing p x := zpow_pos (by norm_num) _

/-- The rounded value and a number of its spacing. -/
theorem le_nearest_iff (hc : c = n * spacing p x) :
    c ≤ nearest p x ↔ n ≤ halfEven (x / spacing p x) := by
  rw [hc, nearest, mul_le_mul_iff_left₀ (spacing_pos p x), Int.cast_le]

theorem le_nearest_iff_of_even (hc : c = n * spacing p x) (hn : Even n) :
    c ≤ nearest p x ↔ c - spacing p x / 2 ≤ x := by
  have hpos := spacing_pos p x
  rw [le_nearest_iff hc, le_halfEven_iff_of_even hn, le_div_iff₀ hpos, hc]
  constructor <;> intro h <;> linarith

/-- A number is not passed. -/
theorem le_nearest (hc : c = n * spacing p x) (h : c ≤ x) : c ≤ nearest p x := by
  have hpos := spacing_pos p x
  rw [le_nearest_iff hc]
  apply le_halfEven
  rw [lt_div_iff₀ hpos]
  linarith

theorem nearest_lt (hc : c = n * spacing p x) (h : x < c - spacing p x / 2) :
    nearest p x < c := by
  have hpos := spacing_pos p x
  rw [← not_le, le_nearest_iff hc, not_le]
  apply halfEven_lt
  rw [div_lt_iff₀ hpos]
  linarith

theorem nearest_le (hc : c = n * spacing p x) (h : x ≤ c) : nearest p x ≤ c := by
  have hpos := spacing_pos p x
  have hlt : halfEven (x / spacing p x) < n + 1 := by
    apply halfEven_lt
    rw [div_lt_iff₀ hpos]
    push_cast
    linarith
  rw [nearest, hc]
  apply mul_le_mul_of_nonneg_right _ hpos.le
  exact_mod_cast Int.lt_add_one_iff.mp hlt

/-- The numbers of a spacing are left as they are. -/
theorem nearest_eq_self (hx : x = n * spacing p x) : nearest p x = x :=
  le_antisymm (nearest_le hx le_rfl) (le_nearest hx le_rfl)

@[simp] theorem nearest_zero (p : ℕ) : nearest p 0 = 0 := by
  have hx : (0 : ℚ) = (0 : ℤ) * spacing p 0 := by simp
  exact nearest_eq_self hx

/-! ## Spacings -/

theorem log_eq {e : ℤ} (hlow : (2 : ℚ) ^ e ≤ |x|) (hhigh : |x| < 2 ^ (e + 1)) :
    Int.log 2 |x| = e := by
  have hpos : 0 < |x| := lt_of_lt_of_le (zpow_pos (by norm_num) e) hlow
  apply le_antisymm
  · apply Int.lt_add_one_iff.mp
    exact (Int.lt_zpow_iff_log_lt (by norm_num) hpos).mp (by exact_mod_cast hhigh)
  · exact (Int.zpow_le_iff_le_log (by norm_num) hpos).mp (by exact_mod_cast hlow)

/-- The spacing from a power of two up to the next one. -/
theorem spacing_eq {e : ℕ} (hlow : 2 ^ e ≤ x) (hhigh : x < 2 ^ (e + 1)) :
    spacing p x = 2 ^ (e + 1) / 2 ^ p := by
  have habs : |x| = x := abs_of_nonneg (le_trans (by positivity) hlow)
  have hlog : Int.log 2 |x| = e := by
    apply log_eq
    · rw [habs, zpow_natCast]
      exact hlow
    · rw [habs]
      exact_mod_cast hhigh
  rw [spacing, hlog, zpow_sub₀ (by norm_num), zpow_natCast]
  norm_cast

/-! ## Rounding keeps the order -/

section Order

variable (hp : 0 < p) (hx : 0 < x)

include hx

theorem zpow_log_le : (2 : ℚ) ^ Int.log 2 |x| ≤ x := by
  have habs : |x| = x := abs_of_pos hx
  have hle := Int.zpow_log_le_self (b := 2) (R := ℚ) (by norm_num) (habs.symm ▸ hx : 0 < |x|)
  rw [habs] at hle ⊢
  exact_mod_cast hle

theorem lt_zpow_log : x < (2 : ℚ) ^ (Int.log 2 |x| + 1) := by
  have habs : |x| = x := abs_of_pos hx
  have hlt := Int.lt_zpow_succ_log_self (b := 2) (R := ℚ) (by norm_num) |x|
  rw [habs] at hlt ⊢
  exact_mod_cast hlt

omit hx in
/-- The powers of two around a rational are numbers of its spacing. -/
theorem zpow_eq_mul_spacing (x : ℚ) (k : ℕ) :
    (2 : ℚ) ^ (Int.log 2 |x| + 1 - p + k) = ((2 ^ k : ℤ) : ℚ) * spacing p x := by
  rw [zpow_add₀ (by norm_num), zpow_natCast, mul_comm, spacing]
  push_cast
  rfl

theorem nearest_le_zpow : nearest p x ≤ (2 : ℚ) ^ (Int.log 2 |x| + 1) := by
  have hpow := zpow_eq_mul_spacing (p := p) x p
  rw [sub_add_cancel] at hpow
  exact nearest_le hpow (lt_zpow_log hx).le

include hp

theorem zpow_le_nearest : (2 : ℚ) ^ Int.log 2 |x| ≤ nearest p x := by
  have hpow := zpow_eq_mul_spacing (p := p) x (p - 1)
  rw [show Int.log 2 |x| + 1 - p + ((p - 1 : ℕ) : ℤ) = Int.log 2 |x| by omega] at hpow
  exact le_nearest hpow (zpow_log_le hx)

theorem nearest_pos : 0 < nearest p x :=
  lt_of_lt_of_le (zpow_pos (by norm_num) _) (zpow_le_nearest hp hx)

theorem nearest_mono {y : ℚ} (h : x ≤ y) : nearest p x ≤ nearest p y := by
  have hy : 0 < y := lt_of_lt_of_le hx h
  have hlog : Int.log 2 |x| ≤ Int.log 2 |y| := by
    rw [abs_of_pos hx, abs_of_pos hy]
    exact Int.log_mono_right hx h
  rcases hlog.lt_or_eq with hlt | heq
  · calc nearest p x ≤ (2 : ℚ) ^ (Int.log 2 |x| + 1) := nearest_le_zpow hx
      _ ≤ (2 : ℚ) ^ Int.log 2 |y| := zpow_le_zpow_right₀ (by norm_num) hlt
      _ ≤ nearest p y := zpow_le_nearest hp hy
  · have hspacing : spacing p x = spacing p y := by rw [spacing, spacing, heq]
    have hpos := spacing_pos p y
    rw [nearest, nearest, hspacing]
    refine mul_le_mul_of_nonneg_right ?_ hpos.le
    exact_mod_cast halfEven_mono (div_le_div_of_nonneg_right h hpos.le)

/-- A rounded value is a number of the precision. -/
theorem nearest_nearest : nearest p (nearest p x) = nearest p x := by
  have hlow := zpow_le_nearest hp hx
  have habs : |nearest p x| = nearest p x := abs_of_pos (nearest_pos hp hx)
  rcases (nearest_le_zpow (p := p) hx).lt_or_eq with hlt | heq
  · have hlog : Int.log 2 |nearest p x| = Int.log 2 |x| :=
      log_eq (by rwa [habs]) (by rwa [habs])
    have hspacing : spacing p (nearest p x) = spacing p x := by rw [spacing, spacing, hlog]
    refine nearest_eq_self (n := halfEven (x / spacing p x)) ?_
    rw [hspacing, nearest]
  · have hlog : Int.log 2 |nearest p x| = Int.log 2 |x| + 1 := by
      apply log_eq
      · rw [habs, heq]
      · rw [habs, heq]
        exact zpow_lt_zpow_right₀ (by norm_num) (by omega)
    have hpow := zpow_eq_mul_spacing (p := p) (nearest p x) (p - 1)
    rw [hlog, show Int.log 2 |x| + 1 + 1 - p + ((p - 1 : ℕ) : ℤ) = Int.log 2 |x| + 1 by omega,
      ← heq] at hpow
    exact nearest_eq_self hpow

/-- Rounding up is undone by no factor, and rounding down by any that moves the rounded value:
when a number is not above `x` the next one is not below it. -/
theorem le_of_nearest_lt {c : ℚ} (hc : nearest p c = c) (hlt : nearest p x < c) : x ≤ c := by
  by_contra hle
  have hcpos : 0 < c := (nearest_pos hp hx).trans hlt
  have hmono := nearest_mono hp hcpos (not_le.mp hle).le
  rw [hc] at hmono
  exact absurd hlt (not_lt.mpr hmono)

end Order

/-- Below one the spacing is a fraction of that at one. -/
theorem exists_spacing_eq (p : ℕ) (hpos : 0 < x) (hlt : x < 1) :
    ∃ j : ℕ, spacing p x = 1 / 2 ^ (p + j) := by
  have hlog : Int.log 2 |x| < 0 := by
    rw [abs_of_pos hpos]
    exact (Int.lt_zpow_iff_log_lt (by norm_num) hpos).mp (by simpa using hlt)
  refine ⟨(-(Int.log 2 |x| + 1)).toNat, ?_⟩
  have hexp : Int.log 2 |x| + 1 - p = -((p + (-(Int.log 2 |x| + 1)).toNat : ℕ) : ℤ) := by
    push_cast
    omega
  rw [spacing, hexp, zpow_neg, zpow_natCast, one_div]

/-- Below one every multiple of the spacing at one is a number. -/
private theorem exists_mul_spacing (hpos : 0 < x) (hlt : x < 1) (c : ℤ) :
    (∃ m : ℤ, (c : ℚ) / 2 ^ p = m * spacing p x) ∧ spacing p x / 2 ≤ 1 / 2 ^ (p + 1) := by
  obtain ⟨j, hj⟩ := exists_spacing_eq p hpos hlt
  rw [hj, pow_add]
  refine ⟨⟨c * 2 ^ j, ?_⟩, ?_⟩
  · push_cast
    field_simp
  · rw [div_div, pow_succ]
    apply one_div_le_one_div_of_le (by positivity)
    have hone : (1 : ℚ) ≤ 2 ^ j := one_le_pow₀ (by norm_num)
    have hp : (0 : ℚ) < 2 ^ p := by positivity
    nlinarith

theorem nearest_lt_of_lt_one (hpos : 0 < x) (hlt : x < 1) {c : ℤ}
    (hc : x < c / 2 ^ p - 1 / 2 ^ (p + 1)) : nearest p x < c / 2 ^ p := by
  obtain ⟨⟨m, hm⟩, hsmall⟩ := exists_mul_spacing (p := p) hpos hlt c
  apply nearest_lt hm
  linarith

theorem le_nearest_of_lt_one (hpos : 0 < x) (hlt : x < 1) {c : ℤ} (hc : (c : ℚ) / 2 ^ p ≤ x) :
    (c : ℚ) / 2 ^ p ≤ nearest p x := by
  obtain ⟨⟨m, hm⟩, -⟩ := exists_mul_spacing (p := p) hpos hlt c
  exact le_nearest hm hc

/-- An integer of at most `p` bits is a number of precision `p`. -/
theorem nearest_intCast {m : ℤ} (hm : |m| < 2 ^ p) : nearest p m = m := by
  rcases eq_or_ne m 0 with rfl | hne
  · simp
  · have hpos : (0 : ℚ) < |(m : ℚ)| := abs_pos.mpr (Int.cast_ne_zero.mpr hne)
    have hlog : Int.log 2 |(m : ℚ)| < p := by
      apply (Int.lt_zpow_iff_log_lt (by norm_num) hpos).mp
      exact_mod_cast hm
    obtain ⟨j, hj⟩ := Int.eq_ofNat_of_zero_le (show 0 ≤ p - (Int.log 2 |(m : ℚ)| + 1) by omega)
    have hspacing : spacing p m = 1 / 2 ^ j := by
      have hexp : Int.log 2 |(m : ℚ)| + 1 - p = -(j : ℤ) := by omega
      rw [spacing, hexp, zpow_neg, zpow_natCast, one_div]
    have hmultiple : (m : ℚ) = ((m * 2 ^ j : ℤ) : ℚ) * spacing p m := by
      rw [hspacing]
      push_cast
      field_simp
    exact nearest_eq_self hmultiple

end Binary

end Shost.Verified
