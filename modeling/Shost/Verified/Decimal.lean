import Shost.Verified.Bytes

/-!
# Decimal numerals

A numeral is a text of digits, behind a sign or none.  `parseInt` reads one into a signed
integer of a given width, digit by digit, and gives up when a value no longer fits.

## Main results

* `parseInt_eq_ok_iff` — `parseInt` accepts exactly the numerals of the integers that fit.
-/

namespace Shost.Verified.Decimal

open Bytes

/-! ## Numerals -/

def isDigit (c : UInt8) : Bool := decide (0x30 ≤ c.toNat ∧ c.toNat ≤ 0x39)

/-- Digits, and at least one. -/
structure Digits (s : Bytes) : Prop where
  ne_nil : s ≠ []
  digits : ∀ c ∈ s, isDigit c = true

/-- The text is a numeral of the integer. -/
inductive Numeral : Bytes → Int → Prop
  | unsigned {s : Bytes} : Digits s → Numeral s (ofDecimal s)
  | plus {s : Bytes} : Digits s → Numeral (0x2B :: s) (ofDecimal s)
  | minus {s : Bytes} : Digits s → Numeral (0x2D :: s) (-(ofDecimal s : Int))

/-! ## Reading numerals -/

/-- `ErrSyntax` and `ErrRange`. -/
inductive NumError where
  | errSyntax
  | errRange
  deriving DecidableEq

/-- The loop of `ParseUint`, with the value of the digits before. -/
def parseDigits (w n : Nat) : Bytes → Except NumError Nat
  | [] => .ok n
  | c :: rest =>
      if isDigit c then
        if 10 * n + (c.toNat - 0x30) < 2 ^ w then
          parseDigits w (10 * n + (c.toNat - 0x30)) rest
        else .error .errRange
      else .error .errSyntax

/-- `ParseUint` in base ten. -/
def parseUint (w : Nat) (s : Bytes) : Except NumError Nat :=
  if s = [] then .error .errSyntax else parseDigits w 0 s

/-- `ParseInt` in base ten. -/
def parseInt (w : Nat) (s : Bytes) : Except NumError Int := do
  let neg := s.head? = some 0x2D
  let un ← parseUint w (if s.head? = some 0x2B ∨ neg then s.tail else s)
  if ¬neg ∧ 2 ^ (w - 1) ≤ un then .error .errRange
  else if neg ∧ 2 ^ (w - 1) < un then .error .errRange
  else .ok (if neg then -un else un)

variable {w n : Nat} {s rest : Bytes} {c : UInt8}

theorem ofDecimal_snoc (s : Bytes) (c : UInt8) :
    ofDecimal (s ++ [c]) = 10 * ofDecimal s + (c.toNat - 0x30) := by
  rw [ofDecimal, List.reverse_append, List.reverse_singleton, List.singleton_append, List.map_cons,
    Nat.ofDigits_cons, ← ofDecimal, Nat.add_comm]

theorem ofDecimal_le_append (s rest : Bytes) : ofDecimal s ≤ ofDecimal (s ++ rest) := by
  induction rest using List.reverseRecOn with
  | nil => rw [List.append_nil]
  | append_singleton rest c ih =>
      rw [← List.append_assoc, ofDecimal_snoc]
      omega

/-- What the loop accepts behind the digits that it has read. -/
theorem parseDigits_eq_ok_iff (hs : ofDecimal s < 2 ^ w) :
    parseDigits w (ofDecimal s) rest = .ok n ↔
      (∀ c ∈ rest, isDigit c = true) ∧ ofDecimal (s ++ rest) = n ∧ n < 2 ^ w := by
  induction rest generalizing s with
  | nil =>
      rw [parseDigits, List.append_nil]
      constructor
      · intro hok
        obtain rfl := Except.ok.inj hok
        exact ⟨fun _ hc => absurd hc List.not_mem_nil, rfl, hs⟩
      · rintro ⟨-, rfl, -⟩
        rfl
  | cons c rest ih =>
      rw [parseDigits, ← ofDecimal_snoc, List.append_cons s c rest, List.forall_mem_cons]
      by_cases hc : isDigit c = true
      · rw [if_pos hc]
        by_cases hfits : ofDecimal (s ++ [c]) < 2 ^ w
        · rw [if_pos hfits, ih hfits, and_assoc, and_iff_right hc]
        · rw [if_neg hfits]
          refine iff_of_false nofun fun h => hfits ?_
          obtain ⟨-, rfl, hlt⟩ := h
          exact (ofDecimal_le_append _ _).trans_lt hlt
      · rw [if_neg hc]
        exact iff_of_false nofun fun h => hc h.1.1

theorem parseUint_eq_ok_iff : parseUint w s = .ok n ↔ Digits s ∧ ofDecimal s = n ∧ n < 2 ^ w := by
  rw [parseUint]
  split
  · next hnil => exact iff_of_false nofun fun h => h.1.ne_nil hnil
  · next hne =>
      have hzero : ofDecimal [] < 2 ^ w := Nat.two_pow_pos w
      have hloop : parseDigits w 0 s = .ok n ↔
          (∀ c ∈ s, isDigit c = true) ∧ ofDecimal s = n ∧ n < 2 ^ w :=
        parseDigits_eq_ok_iff hzero
      exact hloop.trans (and_congr_left' ⟨fun h => ⟨hne, h⟩, Digits.digits⟩)

/-! ## Signs -/

theorem head?_ne_of_digits (hs : Digits s) (hc : isDigit c = false) : s.head? ≠ some c := by
  intro hhead
  have hdigit := hs.digits c (List.mem_of_head? hhead)
  rw [hc] at hdigit
  cases hdigit

theorem Numeral.ne_nil {z : Int} (hz : Numeral s z) : s ≠ [] := by
  cases hz with
  | unsigned hs => exact hs.ne_nil
  | plus hs | minus hs => exact List.cons_ne_nil _ _

/-- Which texts are numerals, by their first byte. -/
theorem numeral_iff {z : Int} : Numeral s z ↔
    if s.head? = some 0x2D then Digits s.tail ∧ z = -(ofDecimal s.tail : Int)
    else if s.head? = some 0x2B then Digits s.tail ∧ z = ofDecimal s.tail
    else Digits s ∧ z = ofDecimal s := by
  constructor
  · intro h
    cases h with
    | unsigned hs =>
        rw [if_neg (head?_ne_of_digits hs rfl), if_neg (head?_ne_of_digits hs rfl)]
        exact ⟨hs, rfl⟩
    | plus hs => exact ⟨hs, rfl⟩
    | minus hs => exact ⟨hs, rfl⟩
  · split
    · next hminus =>
        obtain ⟨rest, rfl⟩ := List.head?_eq_some_iff.mp hminus
        rintro ⟨hs, rfl⟩
        exact .minus hs
    · split
      · next hplus =>
          obtain ⟨rest, rfl⟩ := List.head?_eq_some_iff.mp hplus
          rintro ⟨hs, rfl⟩
          exact .plus hs
      · rintro ⟨hs, rfl⟩
        exact .unsigned hs

/-- A numeral has one value. -/
theorem Numeral.unique {y z : Int} (hy : Numeral s y) (hz : Numeral s z) : y = z := by
  rw [numeral_iff] at hy hz
  split_ifs at hy hz <;> exact hy.2.trans hz.2.symm

private theorem parseUint_bind {z : Int} (f : Nat → Except NumError Int) :
    parseUint w s >>= f = .ok z ↔ Digits s ∧ ofDecimal s < 2 ^ w ∧ f (ofDecimal s) = .ok z := by
  cases hun : parseUint w s with
  | error err =>
      refine iff_of_false nofun fun h => ?_
      rw [parseUint_eq_ok_iff.mpr ⟨h.1, rfl, h.2.1⟩] at hun
      cases hun
  | ok n =>
      obtain ⟨hs, rfl, hlt⟩ := parseUint_eq_ok_iff.mp hun
      exact ⟨fun h => ⟨hs, hlt, h⟩, fun h => h.2.2⟩

private theorem guard_eq_ok_iff {p : Prop} [Decidable p] {y z : Int} :
    (if p then .error .errRange else .ok y : Except NumError Int) = .ok z ↔ ¬p ∧ z = y := by
  split
  · next hp => exact iff_of_false nofun fun h => h.1 hp
  · next hp => exact ⟨fun h => ⟨hp, (Except.ok.inj h).symm⟩, fun h => by rw [h.2]⟩

/-- `parseInt` accepts the numerals of the integers that fit. -/
theorem parseInt_eq_ok_iff (hw : 0 < w) {z : Int} :
    parseInt w s = .ok z ↔ Numeral s z ∧ -2 ^ (w - 1) ≤ z ∧ z < 2 ^ (w - 1) := by
  obtain ⟨v, rfl⟩ := Nat.exists_eq_succ_of_ne_zero hw.ne'
  have hcast : ((2 ^ v : Nat) : Int) = 2 ^ v := Nat.cast_pow 2 v
  have hpos : 0 < 2 ^ v := Nat.two_pow_pos v
  rw [parseInt, parseUint_bind, numeral_iff, Nat.succ_sub_one, Nat.pow_succ, ← hcast]
  by_cases hminus : s.head? = some 0x2D
  · simp only [hminus, or_true, ↓reduceIte, not_true_eq_false, false_and, true_and,
      guard_eq_ok_iff]
    constructor
    · rintro ⟨hs, -, hfits, rfl⟩
      exact ⟨⟨hs, rfl⟩, by omega, by omega⟩
    · rintro ⟨⟨hs, rfl⟩, hle, -⟩
      exact ⟨hs, by omega, by omega, rfl⟩
  · have hunsigned : (if s.head? = some 0x2B then Digits s.tail ∧ z = ofDecimal s.tail
        else Digits s ∧ z = ofDecimal s) ↔
        Digits (if s.head? = some 0x2B then s.tail else s) ∧
          z = ofDecimal (if s.head? = some 0x2B then s.tail else s) := by
      split <;> rfl
    simp only [hminus, hunsigned, or_false, ↓reduceIte, not_false_eq_true, true_and, false_and,
      guard_eq_ok_iff]
    constructor
    · rintro ⟨hs, -, hfits, rfl⟩
      exact ⟨⟨hs, rfl⟩, by omega, by omega⟩
    · rintro ⟨⟨hs, rfl⟩, -, hlt⟩
      exact ⟨hs, by omega, by omega, rfl⟩

end Shost.Verified.Decimal
