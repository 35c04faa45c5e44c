import Mathlib.Tactic

/-!
# Cron expressions: the parser

`expr` is the parser of five-field cron expressions.  A string is the list of
its characters.  Of `strings.ToLower` only the letters that become ASCII
letters matter, because its result is only compared with ASCII table keys:
these are the ASCII capitals, the capital I with a dot above and the Kelvin
sign.

Every field becomes one 64-bit word with a bit for each admitted value.  The
loop that sets the bits counts in Go's `int`, which wraps at 64 bits; with a
step close to the largest `int` the counter does wrap, and the model follows
it.  The loop is given a step budget, which `stepBits_stable` shows to be
enough.
-/

namespace Shost.Ports.CronExpr

/-! ## Strings and numbers -/

/-- `unicode.IsSpace`. -/
def isSpace (c : Char) : Bool :=
  c.toNat ∈ [0x09, 0x0a, 0x0b, 0x0c, 0x0d, 0x20, 0x85, 0xa0, 0x1680, 0x2028, 0x2029,
    0x202f, 0x205f, 0x3000] || (0x2000 ≤ c.toNat && c.toNat ≤ 0x200a)

/-- `strings.TrimSpace`. -/
def trimSpace (s : List Char) : List Char :=
  ((s.dropWhile isSpace).reverse.dropWhile isSpace).reverse

/-- `strings.Fields`: the maximal runs of characters that are not spaces. -/
def fields (s : List Char) : List (List Char) :=
  (s.splitOnP isSpace).filter (· ≠ [])

/-- `unicode.ToLower`, as far as its result can be an ASCII letter. -/
def lowerChar (c : Char) : Char :=
  if 'A' ≤ c ∧ c ≤ 'Z' then Char.ofNat (c.toNat + 32)
  else if c.toNat = 0x130 then 'i'
  else if c.toNat = 0x212a then 'k'
  else c

/-- `strings.ToLower`. -/
def toLower (s : List Char) : List Char := s.map lowerChar

/-- `strings.Cut` with a one-character separator. -/
def cut (sep : Char) (s : List Char) : List Char × List Char × Bool :=
  (s.takeWhile (· ≠ sep), (s.dropWhile (· ≠ sep)).drop 1, s.contains sep)

/-- The value of a non-empty string of decimal digits. -/
def decimal (s : List Char) : Option Int :=
  if s ≠ [] ∧ s.all Char.isDigit then
    some (s.foldl (fun n c => 10 * n + (c.toNat - 48 : Nat)) 0)
  else none

/-- `strconv.Atoi` where `int` has 64 bits. -/
def atoi (s : List Char) : Option Int := do
  let v ← match s with
    | '-' :: ds => (decimal ds).map Neg.neg
    | '+' :: ds => decimal ds
    | ds => decimal ds
  if -2 ^ 63 ≤ v ∧ v < 2 ^ 63 then some v else none

/-- Sums of Go's 64-bit `int` wrap around. -/
def wrap64 (v : Int) : Int := (v + 2 ^ 63) % 2 ^ 64 - 2 ^ 63

/-- `1 << n` for a 64-bit word: zero once `n` reaches the word's width. -/
def bit (n : Nat) : BitVec 64 := if n < 64 then 1#64 <<< n else 0#64

/-- `1 << uint(v)`; the conversion wraps a negative `v`. -/
def bitOf (v : Int) : BitVec 64 := bit (v % 2 ^ 64).toNat

/-- The test `b & (1 << uint(v)) != 0`. -/
def hasBit (b : BitVec 64) (v : Int) : Bool := b &&& bitOf v != 0#64

/-! ## Errors -/

/-- The errors of `parsePart` and `parseValue`. -/
inductive PartError where
  | emptyValue
  | invalidStep (step : List Char)
  | descendingRange (range : List Char)
  | invalidValue (value : List Char)
  | outOfRange (v min max : Int)
  deriving DecidableEq

/-- The errors of `Expr`. -/
inductive ExprError where
  | fieldCount (got : Nat) (spec : List Char)
  | field (name : String) (err : PartError)
  deriving DecidableEq

/-- The text of an error; `quote` is the `%q` verb. -/
def PartError.message (quote : List Char → String) : PartError → String
  | .emptyValue => "empty value"
  | .invalidStep s => "invalid step " ++ quote s
  | .descendingRange s => "descending range " ++ quote s
  | .invalidValue s => "invalid value " ++ quote s
  | .outOfRange v min max =>
      "value " ++ toString v ++ " out of range " ++ toString min ++ "-" ++ toString max

/-- The text of an error; `quote` is the `%q` verb. -/
def ExprError.message (quote : List Char → String) : ExprError → String
  | .fieldCount n spec =>
      "cron: expression must have 5 fields, got " ++ toString n ++ " in " ++ quote spec
  | .field name err => "cron: " ++ name ++ " field: " ++ err.message quote

/-! ## The parser -/

/-- A table of names for values. -/
abbrev Names := List (List Char × Int)

def monthNames : Names :=
  [("jan".toList, 1), ("feb".toList, 2), ("mar".toList, 3), ("apr".toList, 4),
   ("may".toList, 5), ("jun".toList, 6), ("jul".toList, 7), ("aug".toList, 8),
   ("sep".toList, 9), ("oct".toList, 10), ("nov".toList, 11), ("dec".toList, 12)]

def dowNames : Names :=
  [("sun".toList, 0), ("mon".toList, 1), ("tue".toList, 2), ("wed".toList, 3),
   ("thu".toList, 4), ("fri".toList, 5), ("sat".toList, 6)]

def aliases : List (List Char × List Char) :=
  [("@hourly".toList, "0 * * * *".toList), ("@daily".toList, "0 0 * * *".toList),
   ("@midnight".toList, "0 0 * * *".toList), ("@weekly".toList, "0 0 * * 0".toList),
   ("@monthly".toList, "0 0 1 * *".toList), ("@yearly".toList, "0 0 1 1 *".toList),
   ("@annually".toList, "0 0 1 1 *".toList)]

/-- `parseValue`; a field without names passes an empty table. -/
def parseValue (s : List Char) (min max : Int) (names : Names) : Except PartError Int :=
  match names.lookup (toLower s) with
  | some v => .ok v
  | none =>
      match atoi s with
      | none => .error (.invalidValue s)
      | some v => if v < min ∨ v > max then .error (.outOfRange v min max) else .ok v

/-- The loop `for v := lo; v <= hi; v += step { bits |= 1 << uint(v) }` with a
step budget. -/
def stepBits (hi step : Int) : Nat → Int → BitVec 64 → BitVec 64
  | 0, _, bits => bits
  | n + 1, v, bits =>
      if v ≤ hi then stepBits hi step n (wrap64 (v + step)) (bits ||| bitOf v) else bits

/-- The step budget of `parsePart`. -/
def stepFuel : Nat := 256

/-- The step of a part: `1` without a slash. -/
def parseStep (stepStr : List Char) (hasStep : Bool) : Except PartError Int :=
  if hasStep then
    match atoi stepStr with
    | none => .error (.invalidStep stepStr)
    | some step => if step ≤ 0 then .error (.invalidStep stepStr) else .ok step
  else .ok 1

/-- The low and high end of a part's range. -/
def parseRange (expr : List Char) (hasStep : Bool) (min max : Int) (names : Names) :
    Except PartError (Int × Int) :=
  if expr = ['*'] then .ok (min, max)
  else if expr.contains '-' then do
    let lo ← parseValue (cut '-' expr).1 min max names
    let hi ← parseValue (cut '-' expr).2.1 min max names
    if hi < lo then .error (.descendingRange expr) else .ok (lo, hi)
  else do
    let v ← parseValue expr min max names
    .ok (v, if hasStep then max else v)

/-- `parsePart`. -/
def parsePart (part : List Char) (min max : Int) (names : Names) :
    Except PartError (BitVec 64) :=
  if part = [] then .error .emptyValue
  else do
    let (expr, stepStr, hasStep) := cut '/' part
    let step ← parseStep stepStr hasStep
    let (lo, hi) ← parseRange expr hasStep min max names
    .ok (stepBits hi step stepFuel lo 0)

/-- The loop of `parseField` over the comma-separated parts. -/
def parseParts (min max : Int) (names : Names) :
    BitVec 64 → List (List Char) → Except PartError (BitVec 64)
  | bits, [] => .ok bits
  | bits, part :: rest => do
      let b ← parsePart part min max names
      parseParts min max names (bits ||| b) rest

/-- `parseField`. -/
def parseField (field : List Char) (min max : Int) (names : Names) :
    Except PartError (BitVec 64) :=
  parseParts min max names 0 (field.splitOn ',')

/-- `exprSchedule`: one bit for each admitted value of each field. -/
structure ExprSchedule where
  min : BitVec 64
  hour : BitVec 64
  dom : BitVec 64
  month : BitVec 64
  dow : BitVec 64
  domStar : Bool
  dowStar : Bool

/-- `7` is an alias for Sunday. -/
def foldSunday (dow : BitVec 64) : BitVec 64 :=
  if hasBit dow 7 then dow ||| bitOf 0 else dow

/-- Parse one of the five fields and name it in its error. -/
def namedField (name : String) (field : List Char) (min max : Int) (names : Names) :
    Except ExprError (BitVec 64) :=
  (parseField field min max names).mapError (.field name)

/-- `Expr`. -/
def expr (spec : String) : Except ExprError ExprSchedule :=
  let spec := (aliases.lookup (toLower (trimSpace spec.toList))).getD spec.toList
  match fields spec with
  | [f0, f1, f2, f3, f4] => do
      let min ← namedField "minute" f0 0 59 []
      let hour ← namedField "hour" f1 0 23 []
      let dom ← namedField "day-of-month" f2 1 31 []
      let month ← namedField "month" f3 1 12 monthNames
      let dow ← namedField "day-of-week" f4 0 7 dowNames
      .ok ⟨min, hour, dom, month, foldSunday dow, f2 = ['*'], f4 = ['*']⟩
  | fs => .error (.fieldCount fs.length spec)

/-! ## Bits -/

theorem bitOf_eq {v : Int} (h0 : 0 ≤ v) (h64 : v < 64) :
    bitOf v = BitVec.twoPow 64 v.toNat := by
  have hmod : v % 2 ^ 64 = v := Int.emod_eq_of_lt h0 (by omega)
  unfold bitOf bit
  rw [hmod, if_pos (by omega)]
  rfl

/-- Within the word's width the bit test reads the bit. -/
theorem hasBit_eq (b : BitVec 64) {v : Int} (h0 : 0 ≤ v) (h64 : v < 64) :
    hasBit b v = b.getLsbD v.toNat := by
  have hlt : v.toNat < 64 := by omega
  have hne : BitVec.twoPow 64 v.toNat ≠ 0#64 := by
    intro h
    have hread := congrArg (fun c => BitVec.getLsbD c v.toNat) h
    simp [hlt] at hread
  unfold hasBit
  rw [bitOf_eq h0 h64, BitVec.and_twoPow]
  cases b.getLsbD v.toNat <;> simp [hne]

theorem hasBit_or (a b : BitVec 64) {v : Int} (h0 : 0 ≤ v) (h64 : v < 64) :
    hasBit (a ||| b) v = (hasBit a v || hasBit b v) := by
  rw [hasBit_eq _ h0 h64, hasBit_eq _ h0 h64, hasBit_eq _ h0 h64, BitVec.getLsbD_or]

@[simp] theorem hasBit_zero (v : Int) : hasBit 0 v = false := by
  simp [hasBit]

theorem hasBit_bitOf {v : Int} (h0 : 0 ≤ v) (h64 : v < 64) : hasBit (bitOf v) v = true := by
  have hlt : v.toNat < 64 := by omega
  rw [hasBit_eq _ h0 h64, bitOf_eq h0 h64, BitVec.getLsbD_twoPow]
  simp [hlt]

/-- The loop only adds bits. -/
theorem hasBit_stepBits {w : Int} (h0 : 0 ≤ w) (h64 : w < 64) (hi step : Int) (n : Nat) :
    ∀ (v : Int) (bits : BitVec 64), hasBit bits w = true →
      hasBit (stepBits hi step n v bits) w = true := by
  induction n with
  | zero =>
      intro v bits h
      exact h
  | succ n ih =>
      intro v bits h
      rw [stepBits]
      split
      · apply ih
        rw [hasBit_or _ _ h0 h64, h, Bool.true_or]
      · exact h

/-- A part admits the low end of its range. -/
theorem hasBit_stepBits_low {lo hi : Int} (step : Int) (h0 : 0 ≤ lo) (h64 : lo < 64)
    (hle : lo ≤ hi) : hasBit (stepBits hi step stepFuel lo 0) lo = true := by
  rw [stepFuel, stepBits, if_pos hle]
  apply hasBit_stepBits h0 h64
  rw [hasBit_or _ _ h0 h64, hasBit_bitOf h0 h64, Bool.or_true]

/-! ### The step budget -/

/-- The counter starting at `v` passes `hi` within `n` rounds. -/
def LoopEnds (hi step : Int) : Nat → Int → Prop
  | 0, _ => False
  | n + 1, v => hi < v ∨ LoopEnds hi step n (wrap64 (v + step))

private theorem stepBits_of_loopEnds {hi step : Int} {n : Nat} :
    ∀ {m : Nat} {v : Int} (bits : BitVec 64), LoopEnds hi step n v → n ≤ m →
      stepBits hi step m v bits = stepBits hi step n v bits := by
  induction n with
  | zero =>
      intro m v bits h _
      exact h.elim
  | succ n ih =>
      intro m v bits h hm
      obtain ⟨m, rfl⟩ : ∃ k, m = k + 1 := ⟨m - 1, by omega⟩
      rw [stepBits, stepBits]
      split
      · rcases h with h | h
        · omega
        · exact ih _ h (by omega)
      · rfl

theorem wrap64_of_lt {v : Int} (h0 : -2 ^ 63 ≤ v) (h1 : v < 2 ^ 63) :
    wrap64 v = v := by
  unfold wrap64
  omega

theorem wrap64_of_ge {v : Int} (h0 : 2 ^ 63 ≤ v) (h1 : v < 2 ^ 64) :
    wrap64 v = v - 2 ^ 64 := by
  unfold wrap64
  omega

/-- Without a wrap the counter grows by at least one each round. -/
private theorem loopEnds_of_small {hi step : Int} (h64 : hi < 64) (hs : 0 < step)
    (hsmall : step ≤ 2 ^ 62) (n : Nat) :
    ∀ v : Int, -64 ≤ v → 64 ≤ v + n → LoopEnds hi step (n + 1) v := by
  induction n with
  | zero =>
      intro v _ hn
      exact Or.inl (by omega)
  | succ n ih =>
      intro v hlo hn
      rcases Int.lt_or_le hi v with h | h
      · exact Or.inl h
      · right
        rw [wrap64_of_lt (by omega) (by omega)]
        exact ih (v + step) (by omega) (by omega)

/-- With a step that makes the counter wrap, two rounds bring it back lower
than before, and it cannot wrap from a value that is not positive. -/
private theorem loopEnds_of_large {hi step : Int} (h0 : 0 ≤ hi) (h64 : hi < 64)
    (hlarge : 2 ^ 62 < step) (hmax : step < 2 ^ 63) (n : Nat) :
    ∀ v : Int, -64 ≤ v → v + 64 ≤ n → LoopEnds hi step (2 * n + 2) v := by
  induction n with
  | zero =>
      intro v hlo hn
      right
      rw [wrap64_of_lt (by omega) (by omega)]
      exact Or.inl (by omega)
  | succ n ih =>
      intro v hlo hn
      rcases Int.lt_or_le hi v with h | h
      · exact Or.inl h
      · right
        rcases Int.lt_or_le (v + step) (2 ^ 63) with hno | hwrap
        · rw [wrap64_of_lt (by omega) hno]
          exact Or.inl (by omega)
        · right
          rw [wrap64_of_ge hwrap (by omega), wrap64_of_lt (by omega) (by omega)]
          exact ih _ (by omega) (by omega)

theorem loopEnds_stepFuel {lo hi step : Int} (hlo : 0 ≤ lo) (hle : lo ≤ hi) (h64 : hi < 64)
    (hs : 0 < step) (hmax : step < 2 ^ 63) : LoopEnds hi step stepFuel lo := by
  rcases Int.lt_or_le (2 ^ 62) step with hlarge | hsmall
  · exact loopEnds_of_large (by omega) h64 hlarge hmax 127 lo (by omega) (by omega)
  · exact loopEnds_of_small h64 hs hsmall 255 lo (by omega) (by omega)

/-- The step budget is enough for every range and step that the parser
produces: a larger one sets the same bits. -/
theorem stepBits_stable {lo hi step : Int} {n : Nat} (hlo : 0 ≤ lo) (hle : lo ≤ hi)
    (h64 : hi < 64) (hs : 0 < step) (hmax : step < 2 ^ 63) (hn : stepFuel ≤ n)
    (bits : BitVec 64) :
    stepBits hi step n lo bits = stepBits hi step stepFuel lo bits :=
  stepBits_of_loopEnds bits (loopEnds_stepFuel hlo hle h64 hs hmax) hn

/-! ## Accepted fields admit a value -/

/-- Every name of the table stands for a value within the bounds. -/
def Names.Within (names : Names) (min max : Int) : Prop :=
  ∀ e ∈ names, min ≤ e.2 ∧ e.2 ≤ max

instance (names : Names) (min max : Int) : Decidable (names.Within min max) := by
  unfold Names.Within
  infer_instance

private theorem mem_of_lookup {names : Names} {s : List Char} {v : Int}
    (h : names.lookup s = some v) : ∃ e ∈ names, e.2 = v := by
  induction names with
  | nil => simp at h
  | cons e rest ih =>
      rw [List.lookup_cons] at h
      split at h
      · exact ⟨e, by simp, by simpa using h⟩
      · obtain ⟨e', hmem, hval⟩ := ih h
        exact ⟨e', by simp [hmem], hval⟩

theorem parseValue_bounds {s : List Char} {min max v : Int} {names : Names}
    (hn : names.Within min max) (h : parseValue s min max names = .ok v) :
    min ≤ v ∧ v ≤ max := by
  unfold parseValue at h
  split at h
  · rename_i v' hlook
    obtain ⟨e, hmem, rfl⟩ := mem_of_lookup hlook
    obtain rfl : e.2 = v := by simpa using h
    exact hn e hmem
  · split at h
    · simp at h
    · split at h
      · simp at h
      · rename_i v' _ hrange
        obtain rfl : v' = v := by simpa using h
        omega

theorem bind_eq_ok {ε α β : Type} {x : Except ε α} {f : α → Except ε β} {b : β}
    (h : x >>= f = .ok b) : ∃ a, x = .ok a ∧ f a = .ok b := by
  cases x with
  | error e => cases h
  | ok a => exact ⟨a, rfl, h⟩

theorem parseRange_bounds {e : List Char} {hasStep : Bool} {min max : Int} {names : Names}
    {r : Int × Int} (hn : names.Within min max) (hmm : min ≤ max)
    (h : parseRange e hasStep min max names = .ok r) : min ≤ r.1 ∧ r.1 ≤ r.2 ∧ r.2 ≤ max := by
  unfold parseRange at h
  split at h
  · obtain rfl : (min, max) = r := by simpa using h
    exact ⟨le_rfl, hmm, le_rfl⟩
  · split at h
    · obtain ⟨lo, hlo, h⟩ := bind_eq_ok h
      obtain ⟨hi, hhi, h⟩ := bind_eq_ok h
      have hlo' := parseValue_bounds hn hlo
      have hhi' := parseValue_bounds hn hhi
      split at h
      · simp at h
      · obtain rfl : (lo, hi) = r := by simpa using h
        dsimp only
        omega
    · obtain ⟨v, hv, h⟩ := bind_eq_ok h
      have hv' := parseValue_bounds hn hv
      obtain rfl : (v, if hasStep then max else v) = r := by simpa using h
      dsimp only
      split <;> omega

theorem parsePart_admits {part : List Char} {min max : Int} {names : Names} {b : BitVec 64}
    (hn : names.Within min max) (h0 : 0 ≤ min) (hmm : min ≤ max) (h64 : max < 64)
    (h : parsePart part min max names = .ok b) :
    ∃ v, min ≤ v ∧ v ≤ max ∧ hasBit b v = true := by
  unfold parsePart at h
  split at h
  · simp at h
  · obtain ⟨step, _, h⟩ := bind_eq_ok h
    obtain ⟨r, hr, h⟩ := bind_eq_ok h
    obtain ⟨hlo, hle, hhi⟩ := parseRange_bounds hn hmm hr
    obtain rfl : stepBits r.2 step stepFuel r.1 0 = b := by simpa using h
    exact ⟨r.1, hlo, by omega, hasBit_stepBits_low step (by omega) (by omega) hle⟩

private theorem parseParts_keeps {min max : Int} {names : Names} {w : Int}
    (h0 : 0 ≤ w) (h64 : w < 64) :
    ∀ (parts : List (List Char)) (bits b : BitVec 64), hasBit bits w = true →
      parseParts min max names bits parts = .ok b → hasBit b w = true := by
  intro parts
  induction parts with
  | nil =>
      intro bits b hbit h
      obtain rfl : bits = b := by simpa [parseParts] using h
      exact hbit
  | cons part rest ih =>
      intro bits b hbit h
      obtain ⟨c, _, h⟩ := bind_eq_ok h
      exact ih (bits ||| c) b (by rw [hasBit_or _ _ h0 h64, hbit, Bool.true_or]) h

/-- An accepted field admits at least one value within its bounds. -/
theorem parseField_admits {field : List Char} {min max : Int} {names : Names}
    {b : BitVec 64} (hn : names.Within min max) (h0 : 0 ≤ min) (hmm : min ≤ max)
    (h64 : max < 64) (h : parseField field min max names = .ok b) :
    ∃ v, min ≤ v ∧ v ≤ max ∧ hasBit b v = true := by
  unfold parseField at h
  cases hparts : field.splitOn ',' with
  | nil => exact absurd hparts (List.splitOn_ne_nil ',' field)
  | cons part rest =>
      rw [hparts] at h
      obtain ⟨c, hc, h⟩ := bind_eq_ok h
      obtain ⟨v, hlo, hhi, hbit⟩ := parsePart_admits hn h0 hmm h64 hc
      refine ⟨v, hlo, hhi, parseParts_keeps (by omega) (by omega) rest _ b ?_ h⟩
      rw [hasBit_or _ _ (by omega) (by omega), hbit, Bool.or_true]

/-- Every field of the schedule admits a value it can take. -/
structure ExprSchedule.Inhabited (s : ExprSchedule) : Prop where
  min : ∃ v, 0 ≤ v ∧ v ≤ 59 ∧ hasBit s.min v = true
  hour : ∃ v, 0 ≤ v ∧ v ≤ 23 ∧ hasBit s.hour v = true
  dom : ∃ v, 1 ≤ v ∧ v ≤ 31 ∧ hasBit s.dom v = true
  month : ∃ v, 1 ≤ v ∧ v ≤ 12 ∧ hasBit s.month v = true
  dow : ∃ v, 0 ≤ v ∧ v ≤ 6 ∧ hasBit s.dow v = true

theorem namedField_ok {name : String} {field : List Char} {min max : Int}
    {names : Names} {b : BitVec 64} (h : namedField name field min max names = .ok b) :
    parseField field min max names = .ok b := by
  unfold namedField at h
  cases hp : parseField field min max names with
  | error e => simp [hp, Except.mapError] at h
  | ok c => simpa [hp, Except.mapError] using h

private theorem foldSunday_admits {dow : BitVec 64}
    (h : ∃ v, 0 ≤ v ∧ v ≤ 7 ∧ hasBit dow v = true) :
    ∃ v, 0 ≤ v ∧ v ≤ 6 ∧ hasBit (foldSunday dow) v = true := by
  obtain ⟨v, hlo, hhi, hbit⟩ := h
  unfold foldSunday
  by_cases h7 : hasBit dow 7 = true
  · refine ⟨0, le_rfl, by omega, ?_⟩
    rw [if_pos h7, hasBit_or _ _ le_rfl (by omega), hasBit_bitOf le_rfl (by omega),
      Bool.or_true]
  · rw [if_neg h7]
    have hne : v ≠ 7 := by
      rintro rfl
      exact h7 hbit
    exact ⟨v, hlo, by omega, hbit⟩

/-- A schedule accepted by `Expr` admits a value in every field. -/
theorem expr_inhabited {spec : String} {s : ExprSchedule} (h : expr spec = .ok s) :
    s.Inhabited := by
  unfold expr at h
  dsimp only at h
  split at h
  · obtain ⟨min, hmin, h⟩ := bind_eq_ok h
    obtain ⟨hour, hhour, h⟩ := bind_eq_ok h
    obtain ⟨dom, hdom, h⟩ := bind_eq_ok h
    obtain ⟨month, hmonth, h⟩ := bind_eq_ok h
    obtain ⟨dow, hdow, h⟩ := bind_eq_ok h
    simp only [Except.ok.injEq] at h
    subst h
    exact
      { min := parseField_admits (by decide) (by decide) (by decide) (by decide)
          (namedField_ok hmin)
        hour := parseField_admits (by decide) (by decide) (by decide) (by decide)
          (namedField_ok hhour)
        dom := parseField_admits (by decide) (by decide) (by decide) (by decide)
          (namedField_ok hdom)
        month := parseField_admits (by decide) (by decide) (by decide) (by decide)
          (namedField_ok hmonth)
        dow := foldSunday_admits (parseField_admits (by decide) (by decide) (by decide)
          (by decide) (namedField_ok hdow)) }
  · simp at h

example : (expr "*/15 9-17 1,15 jan-mar mon-fri").toOption.isSome = true := by decide

end Shost.Ports.CronExpr
