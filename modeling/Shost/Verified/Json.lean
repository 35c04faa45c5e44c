import Shost.Verified.Bytes

/-!
# Strings in JSON

A string of bytes is written between quotes as the characters that it encodes, some of
them escaped; each byte that belongs to no character is written as the replacement
character.  Besides what JSON demands, the characters that end a script or a line of one
are escaped, so that the result can stand in a page.

## Main results

* `runes_encode` — an encoded text is decoded again.
* `encode_readable_iff` — the strings that are encodings of texts.
* `readQuoted_quote` — what is read from a written string.
-/

namespace Shost.Verified.Json

open Bytes

/-! ## Characters -/

def encode (cs : List Char) : Bytes := cs.flatMap String.utf8EncodeChar

/-- The first character of a string, if the string begins with one. -/
def decodeRune (s : Bytes) : Option Char := s.toByteArray.utf8DecodeChar? 0

/-- The characters of a string, and nothing for a byte that belongs to none. -/
def runes : Bytes → List (Option Char)
  | [] => []
  | b :: s =>
      match decodeRune (b :: s) with
      | some c => some c :: runes ((b :: s).drop c.utf8Size)
      | none => none :: runes s
termination_by s => s.length
decreasing_by
  · have hpos := c.utf8Size_pos
    rw [List.length_drop, List.length_cons]
    omega
  · exact Nat.lt_succ_self _

/-- The replacement character. -/
def replacement : Char := '\ufffd'

/-- The text that a string is taken for. -/
def readable (s : Bytes) : List Char := (runes s).map fun r => r.getD replacement

/-- The string is the encoding of a text. -/
def Valid (s : Bytes) : Prop := none ∉ runes s

theorem decodeRune_append (c : Char) (s : Bytes) :
    decodeRune (String.utf8EncodeChar c ++ s) = some c := by
  rw [decodeRune, List.toByteArray_append]
  exact ByteArray.utf8DecodeChar?_utf8EncodeChar_append

theorem append_of_decodeRune {s : Bytes} {c : Char} (hc : decodeRune s = some c) :
    ∃ rest, s = String.utf8EncodeChar c ++ rest := by
  obtain ⟨l, hl⟩ := ByteArray.exists_of_utf8DecodeChar?_eq_some hc
  have hdata := congrArg (fun b : ByteArray => b.data.toList) hl
  simp only [List.toList_data_toByteArray, ByteArray.data_append, Array.toList_append] at hdata
  exact ⟨l.data.toList, hdata⟩

private theorem drop_encoded (c : Char) (s : Bytes) :
    (String.utf8EncodeChar c ++ s).drop c.utf8Size = s := by
  rw [← String.length_utf8EncodeChar, List.drop_left]

theorem runes_append (c : Char) (s : Bytes) :
    runes (String.utf8EncodeChar c ++ s) = some c :: runes s := by
  have hdecode := decodeRune_append c s
  have hdrop := drop_encoded c s
  cases henc : String.utf8EncodeChar c with
  | nil => exact absurd henc String.utf8EncodeChar_ne_nil
  | cons b bs =>
      rw [henc, List.cons_append] at hdecode hdrop
      rw [List.cons_append, runes, hdecode]
      simp only [hdrop]

/-- The characters of a text stand before those of what follows its encoding. -/
theorem runes_encode_append (cs : List Char) (s : Bytes) :
    runes (encode cs ++ s) = cs.map some ++ runes s := by
  induction cs with
  | nil => rfl
  | cons c cs ih =>
      rw [encode, List.flatMap_cons, List.append_assoc, runes_append, List.map_cons]
      exact congrArg _ ih

/-- A text is what its encoding is decoded to. -/
theorem runes_encode (cs : List Char) : runes (encode cs) = cs.map some := by
  have hall := runes_encode_append cs []
  simpa [runes] using hall

theorem valid_append {cs : List Char} {s : Bytes} : Valid (encode cs ++ s) ↔ Valid s := by
  simp [Valid, runes_encode_append]

theorem valid_encode (cs : List Char) : Valid (encode cs) := by
  simp [Valid, runes_encode]

theorem encode_append (cs cs' : List Char) : encode (cs ++ cs') = encode cs ++ encode cs' :=
  List.flatMap_append

private theorem encode_of_valid (s : Bytes) (hs : Valid s) : encode (readable s) = s := by
  induction s using runes.induct with
  | case1 => simp [readable, runes, encode]
  | case2 b s c hc ih =>
      obtain ⟨rest, hrest⟩ := append_of_decodeRune hc
      rw [hrest, drop_encoded] at ih
      rw [Valid, hrest, runes_append, List.mem_cons, not_or] at hs
      rw [hrest, readable, runes_append]
      exact congrArg _ (ih hs.2)
  | case3 b s hnone _ =>
      rw [Valid, runes, hnone] at hs
      exact absurd List.mem_cons_self hs

/-- A string encodes the text that it is taken for, if it encodes a text. -/
theorem encode_readable_iff {s : Bytes} : encode (readable s) = s ↔ Valid s := by
  refine ⟨fun hsame => ?_, encode_of_valid s⟩
  rw [← hsame]
  exact valid_encode _

/-! ## Quoted strings -/

/-- A digit in base 16. -/
def hexDigit (d : Nat) : Char := "0123456789abcdef".toList.getD d '0'

/-- The escape of a character by its number. -/
def escapeU (n : Nat) : List Char :=
  ['\x5c', 'u', hexDigit (n / 4096 % 16), hexDigit (n / 256 % 16), hexDigit (n / 16 % 16),
    hexDigit (n % 16)]

/-- The letter of a control character. -/
def letter? (c : Char) : Option Char :=
  if c = '\x08' then some 'b' else if c = '\x0c' then some 'f' else if c = '\n' then some 'n'
  else if c = '\r' then some 'r' else if c = '\t' then some 't' else none

/-- What is written for a character, or for a byte that belongs to none. -/
def quoteRune : Option Char → List Char
  | none => escapeU 0xFFFD
  | some c =>
      if c = '\x22' ∨ c = '\x5c' then ['\x5c', c]
      else
        match letter? c with
        | some e => ['\x5c', e]
        | none =>
            if c.toNat < 0x20 ∨ c ∈ ['<', '>', '&', '\u2028', '\u2029'] then escapeU c.toNat
            else [c]

def quote (s : Bytes) : List Char := '\x22' :: ((runes s).flatMap quoteRune ++ ['\x22'])

/-! ## Reading -/

def unhex (c : Char) : Option Nat :=
  if c.isDigit then some (c.toNat - 0x30)
  else if 'a' ≤ c ∧ c ≤ 'f' then some (c.toNat - 0x57)
  else if 'A' ≤ c ∧ c ≤ 'F' then some (c.toNat - 0x37)
  else none

def unescape (c : Char) : Option Char :=
  if c ∈ ['\x22', '\x5c', '/'] then some c
  else if c = 'b' then some '\x08' else if c = 'f' then some '\x0c'
  else if c = 'n' then some '\n' else if c = 'r' then some '\r'
  else if c = 't' then some '\t' else none

/-- The rest of a quoted string, and what follows. -/
def readString : List Char → Option (List Char × List Char)
  | [] => none
  | c :: cs =>
      if c = '\x22' then some ([], cs)
      else if c = '\x5c' then
        match cs with
        | 'u' :: d₃ :: d₂ :: d₁ :: d₀ :: rest =>
            match unhex d₃, unhex d₂, unhex d₁, unhex d₀ with
            | some n₃, some n₂, some n₁, some n₀ =>
                (readString rest).map fun p =>
                  (Char.ofNat (4096 * n₃ + 256 * n₂ + 16 * n₁ + n₀) :: p.1, p.2)
            | _, _, _, _ => none
        | e :: rest =>
            match unescape e with
            | some c => (readString rest).map fun p => (c :: p.1, p.2)
            | none => none
        | [] => none
      else if c.toNat < 0x20 then none
      else (readString cs).map fun p => (c :: p.1, p.2)

def readQuoted : List Char → Option (List Char × List Char)
  | [] => none
  | c :: cs => if c = '\x22' then readString cs else none

theorem unhex_hexDigit : ∀ d < 16, unhex (hexDigit d) = some d := by decide

private theorem readString_escapeU {n : Nat} (hn : n < 65536) (rest : List Char) :
    readString (escapeU n ++ rest) =
      (readString rest).map fun p => (Char.ofNat n :: p.1, p.2) := by
  have hdigit (m : Nat) : unhex (hexDigit (m % 16)) = some (m % 16) :=
    unhex_hexDigit _ (Nat.mod_lt _ (by decide))
  have hsum : 4096 * (n / 4096 % 16) + 256 * (n / 256 % 16) + 16 * (n / 16 % 16) + n % 16 = n := by
    omega
  simp only [escapeU, List.cons_append, List.nil_append, readString, hdigit, hsum]
  rfl

private theorem readString_letter {e c : Char} (he : unescape e = some c) (rest : List Char) :
    readString ('\x5c' :: e :: rest) = (readString rest).map fun p => (c :: p.1, p.2) := by
  have hu : e ≠ 'u' := by
    rintro rfl
    cases he
  rw [readString.eq_def]
  simp only [show ¬ '\x5c' = '\x22' by decide, if_false, if_true]
  split
  · rename_i heq
    exact absurd (List.cons.inj heq).1 hu
  · rename_i heq
    obtain ⟨rfl, rfl⟩ := List.cons.inj heq
    rw [he]
  · rename_i heq
    cases heq

private theorem unescape_letter {c e : Char} (he : letter? c = some e) : unescape e = some c := by
  unfold letter? at he
  split_ifs at he <;> cases he <;> subst_vars <;> rfl

/-- One character is read from what is written for it. -/
private theorem readString_quoteRune (r : Option Char) (rest : List Char) :
    readString (quoteRune r ++ rest) =
      (readString rest).map fun p => (r.getD replacement :: p.1, p.2) := by
  cases r with
  | none => exact readString_escapeU (by decide) rest
  | some c =>
      simp only [quoteRune]
      split
      · rename_i hquote
        refine readString_letter ?_ rest
        rcases hquote with rfl | rfl <;> rfl
      · rename_i hquote
        cases hletter : letter? c with
        | some e => exact readString_letter (unescape_letter hletter) rest
        | none =>
            obtain ⟨hne, hne'⟩ := not_or.mp hquote
            by_cases hescape : c.toNat < 0x20 ∨ c ∈ ['<', '>', '&', '\u2028', '\u2029']
            · have hsmall : c.toNat < 65536 := by
                rcases hescape with hcontrol | hmem
                · omega
                · fin_cases hmem <;> decide
              simp only [if_pos hescape]
              rw [readString_escapeU hsmall, Char.ofNat_toNat]
              rfl
            · simp only [if_neg hescape, List.cons_append, List.nil_append]
              rw [readString.eq_def]
              simp [hne, hne', (not_or.mp hescape).1]

private theorem readString_runes (rs : List (Option Char)) (rest : List Char) :
    readString (rs.flatMap quoteRune ++ '\x22' :: rest) =
      some (rs.map fun r => r.getD replacement, rest) := by
  induction rs with
  | nil =>
      rw [List.flatMap_nil, List.nil_append, readString.eq_def]
      rfl
  | cons r rs ih =>
      rw [List.flatMap_cons, List.append_assoc, readString_quoteRune, ih]
      rfl

/-- What is read from a written string is the text that it is taken for. -/
theorem readQuoted_quote (s : Bytes) (rest : List Char) :
    readQuoted (quote s ++ rest) = some (readable s, rest) := by
  rw [quote, List.cons_append, List.append_assoc, readQuoted, if_pos rfl]
  exact readString_runes (runes s) rest

end Shost.Verified.Json
