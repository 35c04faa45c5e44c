import Mathlib.Tactic

/-!
# Strings as bytes

A string is a list of bytes, which need not be the encoding of a text.  The functions
of this file are the search for a byte and the cutting out of a part.
-/

namespace Shost.Verified

abbrev Bytes := List UInt8

namespace Bytes

/-- The encoding of a text. -/
def utf8 (s : String) : Bytes := s.toList.flatMap String.utf8EncodeChar

/-- The index of the first occurrence of a byte, if there is one. -/
def indexByte (s : Bytes) (c : UInt8) : Option Nat := s.idxOf? c

/-- The part from one index to another. -/
def slice (s : Bytes) (i j : Nat) : Bytes := (s.take j).drop i

variable {c d : UInt8} {text name rest : Bytes}

theorem indexByte_lt {s : Bytes} {i : Nat} (h : indexByte s c = some i) : i < s.length :=
  (List.idxOf?_eq_some_iff.mp h).1

theorem indexByte_of_not_mem (hc : c ∉ text) : indexByte text c = none :=
  List.idxOf?_eq_none_iff.mpr hc

theorem indexByte_append (hc : c ∉ text) (rest : Bytes) :
    indexByte (text ++ c :: rest) c = some text.length := by
  refine List.idxOf?_eq_some_iff.mpr ⟨by simp, by simp, fun j hj heq => ?_⟩
  rw [List.getElem_append_left hj] at heq
  exact hc (heq ▸ List.getElem_mem hj)

/-- What stands between two bytes. -/
theorem slice_between (c d : UInt8) (text name rest : Bytes) :
    slice (text ++ c :: (name ++ d :: rest)) (text.length + 1) (text.length + (name.length + 1)) =
      name := by
  have htake : (text ++ c :: (name ++ d :: rest)).take (text.length + (name.length + 1)) =
      text ++ c :: name := by
    rw [List.take_length_add_append, List.take_succ_cons, List.take_left]
  rw [slice, htake, List.drop_length_add_append, List.drop_succ_cons, List.drop_zero]

/-- What stands behind the second of two bytes. -/
theorem drop_between (c d : UInt8) (text name rest : Bytes) :
    (text ++ c :: (name ++ d :: rest)).drop (text.length + (name.length + 1) + 1) = rest := by
  rw [Nat.add_assoc, List.drop_length_add_append, List.drop_succ_cons, List.drop_length_add_append,
    List.drop_succ_cons, List.drop_zero]

/-- What stands up to the second of two bytes. -/
theorem take_between (c d : UInt8) (text name rest : Bytes) :
    (text ++ c :: (name ++ d :: rest)).take (text.length + (name.length + 1) + 1) =
      text ++ c :: (name ++ [d]) := by
  rw [Nat.add_assoc, List.take_length_add_append, List.take_succ_cons, List.take_length_add_append,
    List.take_succ_cons, List.take_zero]

/-- The first occurrence of a byte is where it is. -/
theorem append_cons_inj {text' rest' : Bytes} (hc : c ∉ text) (hc' : c ∉ text')
    (heq : text ++ c :: rest = text' ++ c :: rest') : text = text' ∧ rest = rest' := by
  have hlength : some text.length = some text'.length := by
    rw [← indexByte_append hc rest, heq, indexByte_append hc' rest']
  obtain ⟨htext, hrest⟩ := List.append_inj heq (Option.some.inj hlength)
  exact ⟨htext, (List.cons.inj hrest).2⟩

/-! ## Decimal numbers -/

def decimal (n : Nat) : Bytes :=
  if n = 0 then [0x30] else (Nat.digits 10 n).reverse.map fun d => 0x30 + UInt8.ofNat d

def ofDecimal (s : Bytes) : Nat := Nat.ofDigits 10 (s.reverse.map fun c => c.toNat - 0x30)

/-- An integer with its sign. -/
def signed (n : Int) : Bytes := if n < 0 then 0x2D :: decimal n.natAbs else decimal n.natAbs

def ofSigned (s : Bytes) : Int :=
  if s.head? = some 0x2D then -(ofDecimal s.tail : Int) else ofDecimal s

private theorem toNat_digit {k : Nat} (hk : k < 10) : (0x30 + UInt8.ofNat k).toNat = 0x30 + k := by
  rw [UInt8.toNat_add, UInt8.toNat_ofNat']
  simp
  omega

private theorem mem_decimal {n : Nat} (hc : c ∈ decimal n) : ∃ k < 10, c = 0x30 + UInt8.ofNat k := by
  rw [decimal] at hc
  split at hc
  · exact ⟨0, by decide, by simpa using hc⟩
  · obtain ⟨k, hk, rfl⟩ := List.mem_map.mp hc
    exact ⟨k, Nat.digits_lt_base (by decide) (List.mem_reverse.mp hk), rfl⟩

theorem ofDecimal_decimal (n : Nat) : ofDecimal (decimal n) = n := by
  rw [ofDecimal, decimal]
  split
  · next hzero => simp [hzero]
  · have hdigits : (Nat.digits 10 n).map (fun k => (0x30 + UInt8.ofNat k).toNat - 0x30) =
        Nat.digits 10 n := by
      apply (List.map_congr_left fun k hk => ?_).trans (List.map_id _)
      rw [toNat_digit (Nat.digits_lt_base (by decide) hk)]
      exact Nat.add_sub_cancel_left 0x30 k
    rw [← List.map_reverse, List.reverse_reverse, List.map_map]
    exact (congrArg _ hdigits).trans (Nat.ofDigits_digits 10 n)

theorem ofSigned_signed (n : Int) : ofSigned (signed n) = n := by
  rw [signed]
  split
  · rw [ofSigned, List.head?_cons, if_pos rfl, List.tail_cons, ofDecimal_decimal]
    omega
  · have hhead : (decimal n.natAbs).head? ≠ some 0x2D := by
      intro hminus
      obtain ⟨k, hk, heq⟩ := mem_decimal (List.mem_of_head? hminus)
      have hvalue := congrArg UInt8.toNat heq
      rw [toNat_digit hk] at hvalue
      have hminus' : (0x2D : UInt8).toNat = 0x2D := rfl
      omega
    rw [ofSigned, if_neg hhead, ofDecimal_decimal]
    omega

/-- A number is written in the characters from the minus sign to nine. -/
theorem le_toNat_of_mem_signed {n : Int} (hc : c ∈ signed n) : 0x2D ≤ c.toNat := by
  have hdigit : ∀ m, c ∈ decimal m → 0x2D ≤ c.toNat := by
    intro m hm
    obtain ⟨k, hk, rfl⟩ := mem_decimal hm
    rw [toNat_digit hk]
    omega
  rw [signed] at hc
  split at hc
  · rcases List.mem_cons.mp hc with rfl | hc
    · decide
    · exact hdigit _ hc
  · exact hdigit _ hc

end Bytes

end Shost.Verified
