import Shost.Ports.CronGrammar

/-!
# Cron expressions: what a field denotes

The loop of `parsePart` counts from the low end of a range in steps, in Go's `int`.
With a step close to the largest `int` the counter wraps, and two steps further it is
back below the low end, at a value that the part does not denote; while such a value is
not negative, its bit is set.

## Main results

* `hasBit_stepBits_iff` — the bits that the loop sets.
* `expr_denotes_iff` — the sets of a schedule are what the text denotes exactly when
  the values that the counter comes back to are denoted too, and no part sets a bit
  outside its range exactly when no counter comes back.
-/

namespace Shost.Ports.CronDenote

open Shost.Ports.CronExpr Shost.Ports.CronGrammar

/-! ## What the text denotes -/

/-- A part denotes a value. -/
def PartDenotes (k : Kind) (part : List Char) (v : Int) : Prop :=
  ∃ low high step, Part k false part low high step ∧ low ≤ v ∧ v ≤ high ∧ step ∣ v - low

/-- One of the parts of a field denotes a value. -/
def FieldDenotes (k : Kind) (field : List Char) (v : Int) : Prop :=
  ∃ part ∈ field.splitOn ',', PartDenotes k part v

/-- A field is to admit the values it denotes, and `0` where it denotes `7`, if `7` is
Sunday. -/
def ToAdmit (k : Kind) (field : List Char) (v : Int) : Prop :=
  FieldDenotes k field v ∨ k.sevenIsZero = true ∧ v = 0 ∧ FieldDenotes k field 7

/-! ## The counter -/

/-- The counter starts at `v` and takes the value `w` in the loop. -/
inductive Takes (high step : Int) : Int → Int → Prop
  | here {v : Int} : v ≤ high → Takes high step v v
  | next {v w : Int} : v ≤ high → Takes high step (wrap64 (v + step)) w → Takes high step v w

/-- The counter comes back to `w` by wrapping: two steps lower it by `2 ^ 64 - 2 * step`. -/
def Stray (low step w : Int) : Prop :=
  ∃ j : Nat, 0 < j ∧ w = low - j * (2 ^ 64 - 2 * step) ∧ 0 ≤ w

variable {high step v w : Int}

theorem takes_step : Takes high step v w ↔ v ≤ high ∧
    (w = v ∨ Takes high step (wrap64 (v + step)) w) := by
  constructor
  · intro h
    cases h with
    | here hle => exact ⟨hle, Or.inl rfl⟩
    | next hle h => exact ⟨hle, Or.inr h⟩
  · rintro ⟨hle, rfl | h⟩
    · exact .here hle
    · exact .next hle h

theorem not_takes (step w : Int) (h : high < v) : ¬ Takes high step v w :=
  fun htakes => absurd (takes_step.mp htakes).1 (not_le.mpr h)

/-- A negative counter sets no bit. -/
theorem hasBit_bitOf_iff (hlow : -2 ^ 63 ≤ v) (hv : v < 64) (h0 : 0 ≤ w) (h64 : w < 64) :
    hasBit (bitOf v) w = true ↔ w = v := by
  rcases Int.lt_or_le v 0 with hneg | hpos
  · have hzero : bitOf v = 0 := by
      unfold bitOf bit
      rw [if_neg (by omega)]
      rfl
    rw [hzero, hasBit_eq _ h0 h64]
    simp
    omega
  · rw [hasBit_eq _ h0 h64, bitOf_eq hpos hv, BitVec.getLsbD_twoPow]
    simp
    omega

theorem wrap64_ge (v : Int) : -2 ^ 63 ≤ wrap64 v := by
  unfold wrap64
  omega

theorem hasBit_stepBits_takes (hhigh : high < 64) (h0 : 0 ≤ w) (h64 : w < 64) {n : Nat} :
    ∀ {v : Int} {bits : BitVec 64}, -2 ^ 63 ≤ v → LoopEnds high step n v →
      (hasBit (stepBits high step n v bits) w = true ↔
        hasBit bits w = true ∨ Takes high step v w) := by
  induction n with
  | zero => exact fun _ hends => hends.elim
  | succ n ih =>
      intro v bits hv hends
      rw [stepBits]
      rcases Int.lt_or_le high v with hout | hin
      · rw [if_neg (not_le.mpr hout)]
        simp [not_takes step w hout]
      · have hrest : LoopEnds high step n (wrap64 (v + step)) :=
          hends.resolve_left (not_lt.mpr hin)
        rw [if_pos hin, ih (wrap64_ge _) hrest, hasBit_or _ _ h0 h64, Bool.or_eq_true,
          hasBit_bitOf_iff hv (by omega) h0 h64, takes_step (v := v)]
        tauto

theorem not_stray (w : Int) {low : Int} (hstep : low + 2 * step < 2 ^ 64) (hmax : step < 2 ^ 63) :
    ¬ Stray low step w := by
  rintro ⟨j, hj, rfl, hw⟩
  have hone : (1 : Int) ≤ j := by exact_mod_cast hj
  nlinarith

/-- The counter comes back two steps after `low`, or later. -/
theorem stray_iff {low : Int} (h0 : 0 ≤ w) :
    Stray low step w ↔
      w = low - (2 ^ 64 - 2 * step) ∨ Stray (low - (2 ^ 64 - 2 * step)) step w := by
  constructor
  · rintro ⟨j, hj, hw, -⟩
    obtain ⟨i, rfl⟩ : ∃ i, j = i + 1 := ⟨j - 1, by omega⟩
    rcases Nat.eq_zero_or_pos i with rfl | hi
    · exact Or.inl (by simpa using hw)
    · push_cast at hw
      exact Or.inr ⟨i, hi, by linarith, h0⟩
  · rintro (hw | ⟨j, -, hw, -⟩)
    · exact ⟨1, Nat.one_pos, by simpa using hw, h0⟩
    · exact ⟨j + 1, Nat.succ_pos j, by push_cast; linarith, h0⟩

/-- With a large step the counter leaves the range at once, or wraps. -/
theorem takes_of_large (hhigh : high < 64) (hlarge : 2 ^ 62 < step) (hmax : step < 2 ^ 63)
    (h0 : 0 ≤ w) : 0 ≤ v → v ≤ high → (Takes high step v w ↔ w = v ∨ Stray v step w) := by
  generalize hn : v.toNat = n
  induction n using Nat.strong_induction_on generalizing v with
  | _ n ih =>
      intro hv hle
      rw [takes_step]
      rcases Int.lt_or_le (v + step) (2 ^ 63) with hfar | hwrap
      · -- the next value is behind the range
        rw [wrap64_of_lt (by omega) hfar]
        have hout := not_takes step w (show high < v + step by omega)
        have hnone := not_stray w (show v + 2 * step < 2 ^ 64 by omega) hmax
        simp only [hle, hout, hnone, true_and, or_false]
      · rw [wrap64_of_ge hwrap (by omega), takes_step (v := v + step - 2 ^ 64),
          wrap64_of_lt (by omega) (by omega), stray_iff h0]
        have hback : v + step - 2 ^ 64 + step = v - (2 ^ 64 - 2 * step) := by ring
        rw [hback]
        have hneg : ¬ w = v + step - 2 ^ 64 := by omega
        rcases Int.lt_or_le (v - (2 ^ 64 - 2 * step)) 0 with hbelow | habove
        · -- back below zero, from where the next step leaves the range
          have hnone := not_stray w
            (show v - (2 ^ 64 - 2 * step) + 2 * step < 2 ^ 64 by omega) hmax
          have hlast : ¬ Takes high step (v - (2 ^ 64 - 2 * step)) w := by
            rw [takes_step, wrap64_of_lt (by omega) (by omega)]
            have hout := not_takes step w
              (show high < v - (2 ^ 64 - 2 * step) + step by omega)
            have hnot : ¬ w = v - (2 ^ 64 - 2 * step) := by omega
            simp only [hnot, hout, or_false, and_false, not_false_eq_true]
          have hnot : ¬ w = v - (2 ^ 64 - 2 * step) := by omega
          simp only [hle, hneg, hnot, hnone, hlast, true_and, or_false, and_false]
        · have hin : v + step - 2 ^ 64 ≤ high := by omega
          have hagain := ih (v - (2 ^ 64 - 2 * step)).toNat (by omega) rfl habove (by omega)
          simp only [hle, hneg, hin, hagain, true_and, false_or]

/-- With a small step the counter goes through the range. -/
theorem takes_of_small (hhigh : high < 64) (hstep : 0 < step) (hsmall : step ≤ 2 ^ 62) :
    0 ≤ v → (Takes high step v w ↔ v ≤ w ∧ w ≤ high ∧ step ∣ w - v) := by
  generalize hn : (high + 1 - v).toNat = n
  induction n using Nat.strong_induction_on generalizing v with
  | _ n ih =>
      intro hv
      rcases Int.lt_or_le high v with hout | hin
      · have hnot := not_takes step w hout
        have hnone : ¬ (v ≤ w ∧ w ≤ high ∧ step ∣ w - v) := by omega
        tauto
      · rw [takes_step, wrap64_of_lt (by omega) (by omega), ih _ (by omega) rfl (by omega)]
        have hshift : step ∣ w - (v + step) ↔ step ∣ w - v := by
          rw [← sub_sub, dvd_sub_self_right]
        rw [hshift]
        constructor
        · rintro ⟨-, rfl | ⟨hge, hle, hdvd⟩⟩
          · exact ⟨le_refl w, hin, by simp⟩
          · exact ⟨by omega, hle, hdvd⟩
        · rintro ⟨hge, hle, hdvd⟩
          refine ⟨hin, ?_⟩
          rcases eq_or_lt_of_le hge with heq | hlt
          · exact Or.inl heq.symm
          · have hfar := Int.le_of_dvd (by omega) hdvd
            exact Or.inr ⟨by omega, hle, hdvd⟩

/-- The loop sets the bits of the values that the part denotes, and of those that the
counter comes back to. -/
theorem hasBit_stepBits_iff {low : Int} (hlow : 0 ≤ low) (hle : low ≤ high) (hhigh : high < 64)
    (hstep : 0 < step) (hmax : step < 2 ^ 63) (h0 : 0 ≤ w) (h64 : w < 64) :
    hasBit (stepBits high step stepFuel low 0) w = true ↔
      (low ≤ w ∧ w ≤ high ∧ step ∣ w - low) ∨ Stray low step w := by
  rw [hasBit_stepBits_takes hhigh h0 h64 (by omega)
    (loopEnds_stepFuel hlow hle hhigh hstep hmax), hasBit_zero]
  rcases Int.lt_or_le (2 ^ 62) step with hlarge | hsmall
  · have hone : (low ≤ w ∧ w ≤ high ∧ step ∣ w - low) ↔ w = low := by
      constructor
      · rintro ⟨hge, hwhigh, hdvd⟩
        have hzero := Int.eq_zero_of_dvd_of_nonneg_of_lt (by omega) (by omega) hdvd
        omega
      · rintro rfl
        exact ⟨le_refl w, hle, by simp⟩
    rw [takes_of_large hhigh hlarge hmax h0 hlow hle, hone]
    tauto
  · have hnone := not_stray w
      (show low + 2 * step < 2 ^ 64 by omega) hmax
    rw [takes_of_small hhigh hstep hsmall hlow]
    tauto

/-! ## Parts and fields -/

variable {k : Kind} {field part : List Char}

theorem part_bounds {low high step : Int} (h : Part k false part low high step) :
    k.min ≤ low ∧ low ≤ high ∧ high ≤ k.max ∧ 0 < step ∧ step < 2 ^ 63 := by
  cases h with
  | plain hbase =>
      obtain ⟨hlow, hle, hhigh⟩ :=
        parseRange_bounds k.within k.min_le_max (parseRange_iff.mpr hbase)
      exact ⟨hlow, hle, hhigh, by decide, by decide⟩
  | stepped hbase ht hpos =>
      obtain ⟨hlow, hle, hhigh⟩ :=
        parseRange_bounds k.within k.min_le_max (parseRange_iff.mpr hbase)
      exact ⟨hlow, hle, hhigh, hpos, lt_of_atoi ht⟩

/-- The counter of one of the parts comes back to a value. -/
def FieldStrays (k : Kind) (field : List Char) (v : Int) : Prop :=
  ∃ part ∈ field.splitOn ',', ∃ low high step, Part k false part low high step ∧
    Stray low step v

/-- The counter comes back below the range. -/
theorem stray_lt {low : Int} (hmax : step < 2 ^ 63) (h : Stray low step w) : 0 ≤ w ∧ w < low := by
  obtain ⟨j, hj, hw, h0⟩ := h
  have hone : (1 : Int) ≤ j := by exact_mod_cast hj
  exact ⟨h0, by nlinarith⟩

theorem fieldStrays_lt (h : FieldStrays k field w) : 0 ≤ w ∧ w < k.max := by
  obtain ⟨part, -, low, high, step, hpart, hstray⟩ := h
  obtain ⟨-, hle, hhigh, -, hmax⟩ := part_bounds hpart
  obtain ⟨h0, hlt⟩ := stray_lt hmax hstray
  exact ⟨h0, by omega⟩

/-- The bits of a part. -/
theorem hasBit_parsePart {bits : BitVec 64} {low high step : Int}
    (hpart : Part k false part low high step)
    (hbits : parsePart part k.min k.max k.names = .ok bits) (h0 : 0 ≤ w) (h64 : w < 64) :
    hasBit bits w = true ↔ (low ≤ w ∧ w ≤ high ∧ step ∣ w - low) ∨ Stray low step w := by
  obtain ⟨low', high', step', hpart', rfl⟩ := parsePart_iff.mp hbits
  obtain ⟨rfl, rfl, rfl⟩ := hpart.unique hpart'
  obtain ⟨hlow, hle, hhigh, hstep, hmax⟩ := part_bounds hpart
  have hmin := k.min_nonneg
  have hlt := k.max_lt
  exact hasBit_stepBits_iff (by omega) hle (by omega) hstep hmax h0 h64

private theorem hasBit_parseParts {min max : Int} {names : Names} (h0 : 0 ≤ w) (h64 : w < 64)
    {parts : List (List Char)} : ∀ {acc bits : BitVec 64},
      parseParts min max names acc parts = .ok bits →
        (hasBit bits w = true ↔ hasBit acc w = true ∨
          ∃ part ∈ parts, ∃ b, parsePart part min max names = .ok b ∧ hasBit b w = true) := by
  induction parts with
  | nil =>
      intro acc bits h
      obtain rfl := Except.ok.inj h
      simp
  | cons part rest ih =>
      intro acc bits h
      obtain ⟨b, hb, h⟩ := bind_eq_ok h
      rw [ih h, hasBit_or _ _ h0 h64, Bool.or_eq_true]
      simp only [List.mem_cons, exists_eq_or_imp, hb, Except.ok.injEq, exists_eq_left']
      tauto

theorem hasBit_parseField {bits : BitVec 64}
    (h : parseField field k.min k.max k.names = .ok bits) (h0 : 0 ≤ w) (h64 : w < 64) :
    hasBit bits w = true ↔ FieldDenotes k field w ∨ FieldStrays k field w := by
  rw [hasBit_parseParts h0 h64 h, hasBit_zero]
  constructor
  · rintro (hbit | ⟨part, hmem, b, hb, hbit⟩)
    · cases hbit
    · obtain ⟨low, high, step, hpart, -⟩ := parsePart_iff.mp hb
      rcases (hasBit_parsePart hpart hb h0 h64).mp hbit with hin | hstray
      · exact Or.inl ⟨part, hmem, low, high, step, hpart, hin⟩
      · exact Or.inr ⟨part, hmem, low, high, step, hpart, hstray⟩
  · have hbits : ∀ {part low high step}, Part k false part low high step →
        ∃ b, parsePart part k.min k.max k.names = .ok b :=
      fun hpart => ⟨_, parsePart_iff.mpr ⟨_, _, _, hpart, rfl⟩⟩
    rintro (⟨part, hmem, low, high, step, hpart, hin⟩ |
      ⟨part, hmem, low, high, step, hpart, hstray⟩)
    · obtain ⟨b, hb⟩ := hbits hpart
      exact Or.inr ⟨part, hmem, b, hb, (hasBit_parsePart hpart hb h0 h64).mpr (Or.inl hin)⟩
    · obtain ⟨b, hb⟩ := hbits hpart
      exact Or.inr ⟨part, hmem, b, hb, (hasBit_parsePart hpart hb h0 h64).mpr (Or.inr hstray)⟩

/-- The set of a field, with the bit of Sunday. -/
def setOf (k : Kind) (bits : BitVec 64) : BitVec 64 :=
  if k.sevenIsZero then foldSunday bits else bits

theorem hasBit_foldSunday {bits : BitVec 64} (h0 : 0 ≤ w) (h64 : w < 64) :
    hasBit (foldSunday bits) w = true ↔
      hasBit bits w = true ∨ w = 0 ∧ hasBit bits 7 = true := by
  unfold foldSunday
  by_cases h7 : hasBit bits 7 = true
  · rw [if_pos h7, hasBit_or _ _ h0 h64, Bool.or_eq_true,
      hasBit_bitOf_iff (by decide) (by decide) h0 h64]
    simp [h7]
  · rw [if_neg h7]
    simp [h7]

/-- The set of a field has what the field is to admit, and what the counters come back
to: never `7`, where `7` is Sunday. -/
theorem hasBit_setOf {bits : BitVec 64} (h : parseField field k.min k.max k.names = .ok bits)
    (h0 : 0 ≤ w) (h64 : w < 64) :
    hasBit (setOf k bits) w = true ↔ ToAdmit k field w ∨ FieldStrays k field w := by
  unfold setOf ToAdmit
  by_cases hseven : k.sevenIsZero = true
  · have hnone : ¬ FieldStrays k field 7 := fun hstray => by
      have hlt := (fieldStrays_lt hstray).2
      rw [k.seven hseven] at hlt
      omega
    rw [if_pos hseven, hasBit_foldSunday h0 h64, hasBit_parseField h h0 h64,
      hasBit_parseField h (by decide) (by decide)]
    tauto
  · rw [if_neg hseven, hasBit_parseField h h0 h64]
    tauto

/-! ## Expressions -/

/-- The fields of an expression. -/
def specFields (spec : String) : List (List Char) := fields (expand spec.toList)

/-- The kinds of its fields. -/
def kinds : List Kind := [minute, hour, dayOfMonth, month, dayOfWeek]

/-- The sets of a schedule, in the order of the fields. -/
def sets (s : ExprSchedule) : List (BitVec 64) := [s.min, s.hour, s.dom, s.month, s.dow]

/-- All fields of an expression satisfy a condition. -/
def EachField (spec : String) (P : Kind → List Char → Prop) : Prop :=
  ∀ (i : Nat) k field, kinds[i]? = some k → (specFields spec)[i]? = some field → P k field

/-- The sets of a schedule are what the fields of the expression are to admit. -/
def Denoted (spec : String) (s : ExprSchedule) : Prop :=
  ∀ (i : Nat) k field set, kinds[i]? = some k → (specFields spec)[i]? = some field →
    (sets s)[i]? = some set →
    ∀ v, 0 ≤ v → v < 64 → (hasBit set v = true ↔ ToAdmit k field v)

/-- No part of a field sets a bit outside its range. -/
def PartsWithin (k : Kind) (field : List Char) : Prop :=
  ∀ part ∈ field.splitOn ',', ∀ low high step, Part k false part low high step →
    ∀ bits, parsePart part k.min k.max k.names = .ok bits →
      ∀ v, 0 ≤ v → v < 64 → hasBit bits v = true → low ≤ v ∧ v ≤ high

/-- The values that counters come back to are to be admitted anyway. -/
def StraysDenoted (k : Kind) (field : List Char) : Prop :=
  ∀ v, FieldStrays k field v → ToAdmit k field v

/-- No counter comes back to a value that is not negative. -/
def StepsFit (k : Kind) (field : List Char) : Prop :=
  ∀ part ∈ field.splitOn ',', ∀ low high step, Part k false part low high step →
    low + 2 * step < 2 ^ 64

theorem partsWithin_iff {field : List Char} : PartsWithin k field ↔ StepsFit k field := by
  constructor
  · intro hwithin part hmem low high step hpart
    by_contra hback
    obtain ⟨hlow, hle, hhigh, -, hmax⟩ := part_bounds hpart
    have hlt := k.max_lt
    obtain ⟨bits, hbits⟩ : ∃ bits, parsePart part k.min k.max k.names = .ok bits :=
      ⟨_, parsePart_iff.mpr ⟨low, high, step, hpart, rfl⟩⟩
    have hstray : Stray low step (low - (2 ^ 64 - 2 * step)) :=
      ⟨1, Nat.one_pos, by simp, by omega⟩
    obtain ⟨h0, hbelow⟩ := stray_lt hmax hstray
    have hset := (hasBit_parsePart hpart hbits h0 (by omega)).mpr (Or.inr hstray)
    have hin := hwithin part hmem low high step hpart bits hbits _ h0 (by omega) hset
    omega
  · intro hfit part hmem low high step hpart bits hbits v h0 h64 hset
    rcases (hasBit_parsePart hpart hbits h0 h64).mp hset with hin | hstray
    · exact ⟨hin.1, hin.2.1⟩
    · obtain ⟨-, -, -, -, hmax⟩ := part_bounds hpart
      exact absurd hstray (not_stray v (hfit part hmem low high step hpart) hmax)

theorem straysDenoted_of_stepsFit {field : List Char} (h : StepsFit k field) :
    StraysDenoted k field := by
  rintro v ⟨part, hmem, low, high, step, hpart, hstray⟩
  obtain ⟨-, -, -, -, hmax⟩ := part_bounds hpart
  exact absurd hstray (not_stray v (h part hmem low high step hpart) hmax)

/-- The sets of a parsed text are those of its fields. -/
theorem parsed_field {text : List Char} {s : ExprSchedule} {f0 f1 f2 f3 f4 : List Char}
    (hp : Parsed text s f0 f1 f2 f3 f4) {i : Nat} {k : Kind} {field : List Char}
    (hk : kinds[i]? = some k) (hfield : (fields text)[i]? = some field) :
    ∃ bits, parseField field k.min k.max k.names = .ok bits ∧
      (sets s)[i]? = some (setOf k bits) := by
  rw [hp.fields_eq] at hfield
  obtain ⟨dow, hdow, hfold⟩ := hp.dow
  match i with
  | 0 =>
      obtain ⟨rfl, rfl⟩ : minute = k ∧ f0 = field := by simpa [kinds] using And.intro hk hfield
      exact ⟨_, hp.min, rfl⟩
  | 1 =>
      obtain ⟨rfl, rfl⟩ : hour = k ∧ f1 = field := by simpa [kinds] using And.intro hk hfield
      exact ⟨_, hp.hour, rfl⟩
  | 2 =>
      obtain ⟨rfl, rfl⟩ : dayOfMonth = k ∧ f2 = field := by
        simpa [kinds] using And.intro hk hfield
      exact ⟨_, hp.dom, rfl⟩
  | 3 =>
      obtain ⟨rfl, rfl⟩ : month = k ∧ f3 = field := by simpa [kinds] using And.intro hk hfield
      exact ⟨_, hp.month, rfl⟩
  | 4 =>
      obtain ⟨rfl, rfl⟩ : dayOfWeek = k ∧ f4 = field := by
        simpa [kinds] using And.intro hk hfield
      exact ⟨dow, hdow, congrArg some hfold⟩
  | n + 5 => simp at hfield

theorem denoted_iff {spec : String} {s : ExprSchedule} (h : expr spec = .ok s) :
    Denoted spec s ↔ EachField spec StraysDenoted := by
  obtain ⟨f0, f1, f2, f3, f4, hp⟩ := expr_iff.mp h
  constructor
  · intro hdenoted i k field hk hfield v hstray
    obtain ⟨bits, hbits, hset⟩ := parsed_field hp hk hfield
    obtain ⟨h0, hlt⟩ := fieldStrays_lt hstray
    have h64 : v < 64 := hlt.trans k.max_lt
    exact (hdenoted i k field _ hk hfield hset v h0 h64).mp
      ((hasBit_setOf hbits h0 h64).mpr (Or.inr hstray))
  · intro hall i k field set hk hfield hset v h0 h64
    obtain ⟨bits, hbits, hset'⟩ := parsed_field hp hk hfield
    obtain rfl := Option.some.inj (hset.symm.trans hset')
    rw [hasBit_setOf hbits h0 h64]
    exact or_iff_left_of_imp (hall i k field hk hfield v)

theorem denoted_of_stepsFit {spec : String} {s : ExprSchedule} (h : expr spec = .ok s)
    (hfit : EachField spec StepsFit) : Denoted spec s :=
  (denoted_iff h).mpr fun i k field hk hfield => straysDenoted_of_stepsFit (hfit i k field hk hfield)

/-- The sets are right exactly when every value that a counter comes back to is to be
admitted; they are, and every part stays within its range, exactly when every part with
low end `low` and step `step` has `low + 2 * step < 2 ^ 64`. -/
theorem expr_denotes_iff (spec : String) (s : ExprSchedule) (h : expr spec = .ok s) :
    (Denoted spec s ↔ EachField spec StraysDenoted) ∧
      (Denoted spec s ∧ EachField spec PartsWithin ↔ EachField spec StepsFit) := by
  refine ⟨denoted_iff h, ?_⟩
  constructor
  · rintro ⟨-, hwithin⟩ i k field hk hfield
    exact partsWithin_iff.mp (hwithin i k field hk hfield)
  · intro hfit
    exact ⟨denoted_of_stepsFit h hfit,
      fun i k field hk hfield => partsWithin_iff.mpr (hfit i k field hk hfield)⟩

/-- Parts without a step fit. -/
theorem stepsFit_of_plain {spec : String}
    (hplain : ∀ field ∈ specFields spec, ∀ part ∈ field.splitOn ',', '/' ∉ part) :
    EachField spec StepsFit := by
  intro i k field _ hfield part hmem low high step hpart
  obtain ⟨-, hle, hmax, -, -⟩ := part_bounds hpart
  have hlt := k.max_lt
  cases hpart with
  | plain hbase => omega
  | stepped hbase hstep hpos =>
      exact absurd (List.mem_append_right _ (List.mem_cons_self ..))
        (hplain field (List.mem_of_getElem? hfield) _ hmem)

/-- Workdays at nine. -/
def workdays : ExprSchedule := ⟨0x1, 0x200, 0xfffffffe, 0x1ffe, 0x3e, true, false⟩

theorem expr_denotes_workdays :
    Denoted "0 9 * * mon-fri" workdays ∧ EachField "0 9 * * mon-fri" PartsWithin :=
  (expr_denotes_iff _ workdays rfl).2.mpr (stepsFit_of_plain (by decide))

/-- Of the minutes from 2 on, this step is to admit the first one only; minute 0 is
admitted too. -/
theorem minute_comes_back :
    ∃ s, expr "2/9223372036854775807 * * * *" = .ok s ∧
      ¬ Denoted "2/9223372036854775807 * * * *" s ∧
      ¬ EachField "2/9223372036854775807 * * * *" PartsWithin := by
  let field := "2/9223372036854775807".toList
  have hfield : (specFields "2/9223372036854775807 * * * *")[0]? = some field := by decide
  have hparts : field.splitOn ',' = [field] := by decide
  have htwo : Value minute "2".toList 2 := .number (by decide) (by decide) (by decide)
  have hpart : Part minute false field 2 59 9223372036854775807 :=
    .stepped (s := "2".toList) (t := "9223372036854775807".toList) (.upwards htwo nofun)
      (by decide) (by decide)
  refine ⟨⟨0x5, 0xffffff, 0xfffffffe, 0x1ffe, 0xff, true, true⟩, rfl, ?_, ?_⟩
  · intro hdenoted
    have hzero := (hdenoted 0 minute field _ rfl hfield rfl 0 (by decide) (by decide)).mp rfl
    rcases hzero with ⟨part, hmem, low, high, step, hpart', hle, -⟩ | ⟨hseven, -⟩
    · rw [hparts, List.mem_singleton] at hmem
      subst hmem
      have hlow := (hpart.unique hpart').1
      omega
    · cases hseven
  · intro hwithin
    have hbits : parsePart field minute.min minute.max minute.names = .ok 0x5 := rfl
    have hin := hwithin 0 minute field rfl hfield field (by simp [hparts]) _ _ _ hpart _ hbits 0
      (by decide) (by decide) rfl
    omega

end Shost.Ports.CronDenote
