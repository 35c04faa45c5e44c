import Shost.Ports.GoTime
import Shost.Verified.Binary

/-!
# Durations as floating-point seconds

`Duration.Seconds` adds the whole seconds and the fraction as `float64` values, and a
conversion to `int` cuts the fraction off again.  The values are far from the bounds of the
exponent, so a `float64` operation is the exact one followed by `nearest 53`.

## Main results

* `int_seconds` — whole seconds come back, or one more when the sum is rounded up to it.
-/

namespace Shost.Ports.GoTime

open Verified Binary

/-- The rounding of an operation on `float64`. -/
def float64 (x : ℚ) : ℚ := nearest 53 x

/-- `Duration.Seconds`. -/
def seconds (d : Int) : ℚ :=
  let sec := d.tdiv second
  let nsec := d.tmod second
  float64 (float64 sec + float64 (float64 nsec / 1000000000))

/-- The conversion of a `float64` to an `int`. -/
def int (x : ℚ) : Int := if x < 0 then ⌈x⌉ else ⌊x⌋

/--
The sum of the seconds and the fraction is nearer to the next whole second than to anything
below it.  Before 194 days a nanosecond keeps them apart.
-/
def RoundsUp (d : Int) : Prop :=
  second ≤ d ∧ d % second ≠ 0 ∧
    (second - d % second) * 2 ^ 44 ≤ 5 ^ 9 * 2 ^ Nat.log 2 (d / second).toNat

instance (d : Int) : Decidable (RoundsUp d) := inferInstanceAs (Decidable (_ ∧ _ ∧ _))

theorem float64_intCast {m : Int} (hm : |m| < 2 ^ 53) : float64 m = m := nearest_intCast hm

/-! ## The fraction -/

section Fraction

variable {r : Int}

private theorem fraction_mem (hpos : 0 < r) (hlt : r < second) :
    (0 : ℚ) < r / 1000000000 ∧ (r : ℚ) / 1000000000 ≤ 1 - 1 / 1000000000 := by
  have hr : (r : ℚ) ≤ 999999999 := by
    have hle : r ≤ 999999999 := Int.le_sub_one_of_lt hlt
    exact_mod_cast hle
  exact ⟨by positivity, by linarith⟩

theorem fraction_nonneg (hpos : 0 < r) (hlt : r < second) :
    0 ≤ float64 ((r : ℚ) / 1000000000) := by
  obtain ⟨hlow, hhigh⟩ := fraction_mem hpos hlt
  have hzero : ((0 : ℤ) : ℚ) / 2 ^ 53 ≤ r / 1000000000 := by
    rw [Int.cast_zero, zero_div]
    exact hlow.le
  have hle := le_nearest_of_lt_one hlow (by linarith) hzero
  rw [Int.cast_zero, zero_div] at hle
  exact hle

/-- A fraction of a second stays clear of one. -/
theorem fraction_lt (hpos : 0 < r) (hlt : r < second) :
    float64 ((r : ℚ) / 1000000000) < 1 - 1 / 2 ^ 31 := by
  obtain ⟨hlow, hhigh⟩ := fraction_mem hpos hlt
  have hc : (1 : ℚ) - 1 / 2 ^ 31 = ((2 ^ 53 - 2 ^ 22 : ℤ) : ℚ) / 2 ^ 53 := by norm_num
  rw [hc]
  apply nearest_lt_of_lt_one hlow (by linarith)
  rw [← hc]
  linarith

/-- Which fractions reach a number below one. -/
theorem le_fraction_iff {e : ℕ} (he : e ≤ 33) (hpos : 0 < r) (hlt : r < second) :
    (1 : ℚ) - 2 ^ e / 2 ^ 53 ≤ float64 (r / 1000000000) ↔
      (second - r) * 2 ^ 44 ≤ 5 ^ 9 * 2 ^ e := by
  obtain ⟨hlow, hhigh⟩ := fraction_mem hpos hlt
  have hc : (1 : ℚ) - 2 ^ e / 2 ^ 53 = ((2 ^ 53 - 2 ^ e : ℤ) : ℚ) / 2 ^ 53 := by
    push_cast
    ring
  rw [hc]
  constructor
  · intro hle
    by_contra hgap
    rw [not_le] at hgap
    -- both sides are multiples of the same power of two, so the gap is one of them at least
    have hwide : 5 ^ 9 * (2 * 2 ^ e + 1) < (second - r) * 2 ^ 45 := by
      rw [second] at hgap hlt ⊢
      interval_cases e <;> omega
    have hwideQ : (5 : ℚ) ^ 9 * (2 * 2 ^ e + 1) < (1000000000 - r) * 2 ^ 45 := by
      exact_mod_cast hwide
    refine absurd hle (not_le.mpr (nearest_lt_of_lt_one hlow (by linarith) ?_))
    push_cast
    rw [div_lt_iff₀ (by norm_num)]
    linarith
  · intro hgap
    have hgapQ : ((1000000000 : ℚ) - r) * 2 ^ 44 ≤ 5 ^ 9 * 2 ^ e := by
      exact_mod_cast hgap
    apply le_nearest_of_lt_one hlow (by linarith)
    push_cast
    rw [le_div_iff₀ (by norm_num)]
    linarith

end Fraction

/-! ## The sum -/

section Sum

variable {s : Int} {q : ℚ}

/-- A fraction alone stays below a second. -/
theorem float64_fraction (hlow : 0 ≤ q) (hhigh : q < 1 - 1 / 2 ^ 31) :
    0 ≤ float64 q ∧ float64 q < 1 := by
  rcases hlow.eq_or_lt with rfl | hpos
  · simp [float64]
  · have hone : q < 1 := by linarith
    have hzero : ((0 : ℤ) : ℚ) / 2 ^ 53 ≤ q := by
      rw [Int.cast_zero, zero_div]
      exact hlow
    have hle := le_nearest_of_lt_one hpos hone hzero
    rw [Int.cast_zero, zero_div] at hle
    have hc : ((2 ^ 53 : ℤ) : ℚ) / 2 ^ 53 = 1 := by norm_num
    have hlt := @nearest_lt_of_lt_one 53 q hpos hone (2 ^ 53) (by rw [hc]; linarith)
    rw [hc] at hlt
    exact ⟨hle, hlt⟩

/-- The sum is rounded to the second it lies in, or up to the next one. -/
theorem float64_sum {e : ℕ} (he : e ≤ 33) (hs : 2 ^ e ≤ s) (hs' : s < 2 ^ (e + 1)) (hlow : 0 ≤ q)
    (hhigh : q < 1) :
    (s : ℚ) ≤ float64 (s + q) ∧ float64 (s + q) ≤ s + 1 ∧
      ((s : ℚ) + 1 ≤ float64 (s + q) ↔ 1 - 2 ^ e / 2 ^ 53 ≤ q) := by
  have hsQ : (2 : ℚ) ^ e ≤ s := by exact_mod_cast hs
  have hsQ' : (s : ℚ) + 1 ≤ 2 ^ (e + 1) := by exact_mod_cast Int.add_one_le_iff.mpr hs'
  have hspacing : spacing 53 ((s : ℚ) + q) = 2 ^ (e + 1) / 2 ^ 53 :=
    spacing_eq (by linarith) (by linarith)
  obtain ⟨j, hj⟩ := Nat.exists_eq_add_of_le he
  have hmultiple : ∀ m : ℤ, (m : ℚ) = ((m * 2 ^ (19 + j) : ℤ) : ℚ) * spacing 53 (s + q) := by
    intro m
    have h53 : (2 : ℚ) ^ 53 = 2 ^ (19 + j) * 2 ^ (e + 1) := by
      rw [← pow_add]
      congr 1
      omega
    rw [hspacing, h53]
    push_cast
    field_simp
  have heven : Even ((s + 1) * 2 ^ (19 + j)) := by
    apply Even.mul_left
    rw [Nat.add_comm, pow_add]
    exact Even.mul_left (by decide) _
  have hsucc : (s : ℚ) + 1 = (((s + 1) * 2 ^ (19 + j) : ℤ) : ℚ) * spacing 53 (s + q) := by
    rw [← hmultiple]
    push_cast
    rfl
  refine ⟨le_nearest (hmultiple s) (by linarith), nearest_le hsucc (by linarith), ?_⟩
  rw [float64, le_nearest_iff_of_even hsucc heven, hspacing, pow_succ]
  constructor <;> intro h <;> linarith

end Sum

theorem int_eq {x : ℚ} {n : Int} (hn : 0 ≤ n) (hlow : n ≤ x) (hhigh : x < n + 1) : int x = n := by
  have hx : ¬x < 0 := not_lt.mpr (le_trans (by exact_mod_cast hn) hlow)
  rw [int, if_neg hx]
  exact Int.floor_eq_iff.mpr ⟨hlow, hhigh⟩

section Seconds

variable {d : Int}

theorem seconds_eq (hpos : 0 < d) (hlt : d < 2 ^ 63) :
    seconds d = float64 ((d / second : Int) + float64 ((d % second : Int) / 1000000000)) := by
  have hsec : |d / second| < 2 ^ 53 := by
    rw [abs_lt, second]
    omega
  have hnsec : |d % second| < 2 ^ 53 := by
    rw [abs_lt, second]
    omega
  simp only [seconds, Int.tdiv_eq_ediv_of_nonneg hpos.le, Int.tmod_eq_emod_of_nonneg hpos.le,
    float64_intCast hsec, float64_intCast hnsec]

/-- The number of seconds that a conversion to `int` leaves of a duration. -/
theorem int_seconds (hpos : 0 < d) (hlt : d < 2 ^ 63) :
    int (seconds d) = d / second + if RoundsUp d then 1 else 0 := by
  rw [seconds_eq hpos hlt]
  have hnonneg : 0 ≤ d / second := Int.ediv_nonneg hpos.le (by decide)
  have hr0 : 0 ≤ d % second := Int.emod_nonneg d (by decide)
  have hr1 : d % second < second := Int.emod_lt_of_pos d (by decide)
  rcases hr0.eq_or_lt with hzero | hr
  · -- whole seconds are exact
    have hno : ¬RoundsUp d := fun hup => hup.2.1 hzero.symm
    have hwhole : |d / second| < 2 ^ 53 := by
      rw [abs_lt, second]
      omega
    have hfloat : float64 (0 : ℚ) = 0 := nearest_zero 53
    rw [if_neg hno, ← hzero, Int.cast_zero, zero_div, hfloat, add_zero, float64_intCast hwhole,
      int_eq hnonneg le_rfl (lt_add_one _), add_zero]
  · have hlow := fraction_nonneg hr hr1
    have hhigh := fraction_lt hr hr1
    rcases lt_or_ge d second with hshort | hlong
    · have hno : ¬RoundsUp d := fun hup => not_le.mpr hshort hup.1
      have hs : d / second = 0 := Int.ediv_eq_zero_of_lt hpos.le hshort
      obtain ⟨hle, hone⟩ := float64_fraction hlow hhigh
      rw [if_neg hno, hs, Int.cast_zero, zero_add]
      exact int_eq le_rfl (by simpa using hle) (by simpa using hone)
    · -- the binade of the whole seconds decides the spacing of the sum
      obtain ⟨s, hsec⟩ := Int.eq_ofNat_of_zero_le hnonneg
      have hs : 0 < s ∧ s < 2 ^ 34 := by
        rw [second] at hlong hsec
        omega
      have he : Nat.log 2 s ≤ 33 := Nat.lt_succ_iff.mp (Nat.log_lt_of_lt_pow hs.1.ne' hs.2)
      have hbinade : 2 ^ Nat.log 2 s ≤ s := Nat.pow_log_le_self 2 hs.1.ne'
      have hbinade' : s < 2 ^ (Nat.log 2 s + 1) := Nat.lt_pow_succ_log_self (by norm_num) s
      have hup : RoundsUp d ↔ (second - d % second) * 2 ^ 44 ≤ 5 ^ 9 * 2 ^ Nat.log 2 s := by
        have htoNat : (d / second).toNat = s := by omega
        rw [← htoNat]
        exact ⟨fun h => h.2.2, fun h => ⟨hlong, hr.ne', h⟩⟩
      obtain ⟨hsum, hsum', hnext⟩ := @float64_sum s _ _ he (by exact_mod_cast hbinade)
        (by exact_mod_cast hbinade') hlow (hhigh.trans (by norm_num))
      have hreach := hnext.trans (le_fraction_iff he hr hr1)
      rw [hsec]
      split
      · next h =>
          apply int_eq (by omega)
          · rw [Int.cast_add, Int.cast_one]
            exact hreach.mpr (hup.mp h)
          · rw [Int.cast_add, Int.cast_one]
            linarith
      · next h =>
          have hbelow := not_le.mp fun hle => h (hup.mpr (hreach.mp hle))
          rw [add_zero]
          exact int_eq (by omega) hsum hbelow

end Seconds

end Shost.Ports.GoTime
