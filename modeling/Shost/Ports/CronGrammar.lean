import Mathlib.Data.List.TakeWhile
import Shost.Ports.CronExpr
import Shost.Verified.Words

/-!
# Cron expressions: the grammar

What the text of an expression looks like, and what range and step each part of it
stands for, as relations on texts: a value is a name or a number, a base is `*`, a
value or a pair of values, a part is a base with or without a step, and a field is a
list of parts.  The parser tells these apart by the first slash and the first dash of a
part, so a value that has a minus sign of its own is only found behind a dash.

## Main results

* `parsePart_iff` — what `parsePart` accepts, with the bits it sets.
* `expr_iff` — what `Expr` accepts, with the schedule it returns.
* `expr_accepts_iff` — `Expr` accepts the grammar without minus signs in lone values
  and low ends.
* `minus_rejected` — a lone value with a minus sign is rejected.
-/

namespace Shost.Ports.CronGrammar

open Shost.Verified Shost.Ports.CronExpr

/-! ## Kinds of fields -/

/-- A lower-case word. -/
def isWord (s : List Char) : Bool := s ≠ [] && s.all fun c => 97 ≤ c.toNat

/-- The names of a table are lower-case words. -/
def Plain (names : Names) : Prop := ∀ e ∈ names, isWord e.1 = true

instance (names : Names) : Decidable (Plain names) :=
  inferInstanceAs (Decidable (∀ e ∈ names, isWord e.1 = true))

/-- The bounds of a field and its names. -/
structure Kind where
  min : Int
  max : Int
  names : Names
  /-- `7` stands for `0` too -/
  sevenIsZero : Bool
  min_nonneg : 0 ≤ min
  min_le_max : min ≤ max
  max_lt : max < 64
  within : names.Within min max
  plain : Plain names
  seven : sevenIsZero = true → max = 7

def minute : Kind :=
  ⟨0, 59, [], false, by decide, by decide, by decide, by decide, by decide,
    by decide⟩

def hour : Kind :=
  ⟨0, 23, [], false, by decide, by decide, by decide, by decide, by decide,
    by decide⟩

def dayOfMonth : Kind :=
  ⟨1, 31, [], false, by decide, by decide, by decide, by decide, by decide,
    by decide⟩

def month : Kind :=
  ⟨1, 12, monthNames, false, by decide, by decide, by decide, by decide, by decide,
    by decide⟩

def dayOfWeek : Kind :=
  ⟨0, 7, dowNames, true, by decide, by decide, by decide, by decide, by decide,
    by decide⟩

/-! ## The grammar -/

/-- A value: a name in any case, or a number within the bounds. -/
inductive Value (k : Kind) : List Char → Int → Prop
  | name {s : List Char} {v : Int} : k.names.lookup (toLower s) = some v → Value k s v
  | number {s : List Char} {v : Int} : atoi s = some v → k.min ≤ v → v ≤ k.max → Value k s v

/-- A base and the range it stands for, in a part with a step or without.  Without
`signed`, a value in front has no minus sign. -/
inductive Base (k : Kind) (signed : Bool) : List Char → Bool → Int → Int → Prop
  | star {stepped : Bool} : Base k signed ['*'] stepped k.min k.max
  | lone {s : List Char} {a : Int} : Value k s a → ('-' ∈ s → signed = true) →
      Base k signed s false a a
  | upwards {s : List Char} {a : Int} : Value k s a → ('-' ∈ s → signed = true) →
      Base k signed s true a k.max
  | range {s t : List Char} {a b : Int} {stepped : Bool} : Value k s a →
      ('-' ∈ s → signed = true) → Value k t b → a ≤ b →
      Base k signed (s ++ '-' :: t) stepped a b

/-- A part, with the range and the step it stands for. -/
inductive Part (k : Kind) (signed : Bool) : List Char → Int → Int → Int → Prop
  | plain {s : List Char} {low high : Int} : Base k signed s false low high →
      Part k signed s low high 1
  | stepped {s t : List Char} {low high step : Int} : Base k signed s true low high →
      atoi t = some step → 0 < step → Part k signed (s ++ '/' :: t) low high step

/-- A field: parts with commas between them. -/
def Field (k : Kind) (signed : Bool) (s : List Char) : Prop :=
  ∃ parts ≠ [], s = [','].intercalate parts ∧
    ∀ part ∈ parts, ∃ low high step, Part k signed part low high step

/-- Five fields with spaces between them. -/
def FiveFields (signed : Bool) (s : List Char) : Prop :=
  ∃ f0 f1 f2 f3 f4, Words isSpace s [f0, f1, f2, f3, f4] ∧ Field minute signed f0 ∧
    Field hour signed f1 ∧ Field dayOfMonth signed f2 ∧ Field month signed f3 ∧
    Field dayOfWeek signed f4

/-- An expression: an alias in any case between spaces, or five fields. -/
def Grammar (signed : Bool) (s : List Char) : Prop :=
  toLower (trimSpace s) ∈ aliases.map Prod.fst ∨ FiveFields signed s

/-! ## Characters -/

theorem lowerChar_of_lt {c : Char} (hc : c.toNat < 65) : lowerChar c = c := by
  have hA : ¬ 'A' ≤ c := by
    rw [Char.not_le, Char.lt_def, UInt32.lt_iff_toNat_lt]
    exact hc
  rw [lowerChar, if_neg fun h => hA h.1, if_neg (by omega), if_neg (by omega)]

/-- A text whose lower-case form is a name has no digits and no signs. -/
theorem chars_of_name {k : Kind} {s : List Char} {v : Int}
    (h : k.names.lookup (toLower s) = some v) : s ≠ [] ∧ ∀ c ∈ s, 65 ≤ c.toNat := by
  obtain ⟨before, behind, hsplit, -⟩ := List.lookup_eq_some_iff.mp h
  have hword := k.plain (toLower s, v) (by simp [hsplit])
  simp only [isWord, Bool.and_eq_true, decide_eq_true_eq, List.all_eq_true] at hword
  obtain ⟨hne, hchars⟩ := hword
  refine ⟨fun hs => hne (by rw [hs]; rfl), fun c hc => ?_⟩
  by_contra hlow
  have hsame := lowerChar_of_lt (c := c) (by omega)
  have hkey := hchars (lowerChar c) (List.mem_map_of_mem hc)
  rw [hsame] at hkey
  omega

theorem digits_of_decimal {s : List Char} {v : Int} (h : decimal s = some v) :
    s ≠ [] ∧ ∀ c ∈ s, c.isDigit = true := by
  unfold decimal at h
  split at h
  · rename_i hs
    exact ⟨hs.1, List.all_eq_true.mp hs.2⟩
  · cases h

/-- A number fits into an `int`. -/
theorem lt_of_atoi {s : List Char} {v : Int} (h : atoi s = some v) : v < 2 ^ 63 := by
  have hguard : ∀ {o : Option Int}, (o.bind fun w => if -2 ^ 63 ≤ w ∧ w < 2 ^ 63 then some w
      else none) = some v → v < 2 ^ 63 := by
    intro o ho
    obtain ⟨w, -, hw⟩ := Option.bind_eq_some_iff.mp ho
    split at hw
    · rename_i hfits
      exact Option.some.inj hw ▸ hfits.2
    · cases hw
  unfold atoi at h
  dsimp only at h
  split at h <;> exact hguard h

/-- Characters of a number. -/
theorem chars_of_atoi {s : List Char} {v : Int} (h : atoi s = some v) :
    s ≠ [] ∧ ∀ c ∈ s, c.isDigit = true ∨ c = '-' ∨ c = '+' := by
  unfold atoi at h
  dsimp only at h
  split at h
  · obtain ⟨w, hw, -⟩ := Option.bind_eq_some_iff.mp h
    obtain ⟨u, hu, -⟩ := Option.map_eq_some_iff.mp hw
    have hdigits := digits_of_decimal hu
    simp_all
  · obtain ⟨w, hw, -⟩ := Option.bind_eq_some_iff.mp h
    have hdigits := digits_of_decimal hw
    simp_all
  · obtain ⟨w, hw, -⟩ := Option.bind_eq_some_iff.mp h
    have hdigits := digits_of_decimal hw
    exact ⟨hdigits.1, fun c hc => Or.inl (hdigits.2 c hc)⟩

variable {k : Kind} {signed : Bool}

private theorem toNat_of_number {c : Char} (hc : c.isDigit = true ∨ c = '-' ∨ c = '+') :
    c.toNat < 65 ∧ c ≠ '/' ∧ c ≠ ',' ∧ c ≠ '*' := by
  rcases hc with hdigit | rfl | rfl
  · have hbounds := Char.isDigit_iff_toNat.mp hdigit
    have hzero : '0'.toNat = 48 := rfl
    have hnine : '9'.toNat = 57 := rfl
    refine ⟨by omega, ?_, ?_, ?_⟩ <;> rintro rfl <;> simp at hdigit
  · decide
  · decide

/-- No text is both a name and a number. -/
theorem number_not_name {s : List Char} {v : Int} (h : atoi s = some v) :
    k.names.lookup (toLower s) = none := by
  obtain ⟨hne, hchars⟩ := chars_of_atoi h
  obtain ⟨c, hc⟩ := List.exists_mem_of_ne_nil s hne
  by_contra hsome
  obtain ⟨w, hw⟩ := Option.ne_none_iff_exists'.mp hsome
  have hlow := (toNat_of_number (hchars c hc)).1
  have hhigh := (chars_of_name hw).2 c hc
  omega

/-- A value has none of the characters that separate parts, bases and steps. -/
theorem Value.chars {s : List Char} {v : Int} (h : Value k s v) :
    s ≠ [] ∧ '/' ∉ s ∧ ',' ∉ s ∧ '*' ∉ s := by
  cases h with
  | name h =>
      obtain ⟨hne, hchars⟩ := chars_of_name h
      have hnot : ∀ c : Char, c.toNat < 65 → c ∉ s := fun c hc hmem => by
        have hhigh := hchars c hmem
        omega
      exact ⟨hne, hnot _ (by decide), hnot _ (by decide), hnot _ (by decide)⟩
  | number h =>
      obtain ⟨hne, hchars⟩ := chars_of_atoi h
      have hnot := fun c hc => (toNat_of_number (hchars c hc)).2
      exact ⟨hne, fun hc => (hnot _ hc).1 rfl, fun hc => (hnot _ hc).2.1 rfl,
        fun hc => (hnot _ hc).2.2 rfl⟩

theorem Base.chars {s : List Char} {stepped : Bool} {low high : Int}
    (h : Base k signed s stepped low high) : s ≠ [] ∧ '/' ∉ s ∧ ',' ∉ s := by
  cases h with
  | star => decide
  | lone h | upwards h => exact ⟨h.chars.1, h.chars.2.1, h.chars.2.2.1⟩
  | range h _ h' =>
      have hs := h.chars
      have ht := h'.chars
      simp [hs, ht]

theorem Part.chars {s : List Char} {low high step : Int} (h : Part k signed s low high step) :
    s ≠ [] ∧ ',' ∉ s := by
  cases h with
  | plain h => exact ⟨h.chars.1, h.chars.2.2⟩
  | @stepped s t _ _ _ h ht =>
      have hcomma : ',' ∉ t := fun hc =>
        (toNat_of_number ((chars_of_atoi ht).2 _ hc)).2.2.1 rfl
      simp [h.chars, hcomma]

/-! ## The parser accepts the grammar -/

theorem parseValue_iff {s : List Char} {v : Int} :
    parseValue s k.min k.max k.names = .ok v ↔ Value k s v := by
  constructor
  · intro h
    unfold parseValue at h
    split at h
    · rename_i w hw
      obtain rfl : w = v := by simpa using h
      exact .name hw
    · split at h
      · cases h
      · rename_i w hw
        split at h
        · cases h
        · obtain rfl : w = v := by simpa using h
          exact .number hw (by omega) (by omega)
  · intro h
    cases h with
    | name h => rw [parseValue, h]
    | number h hmin hmax =>
        rw [parseValue, number_not_name h]
        simp only [h]
        rw [if_neg (by omega)]

private theorem ne_of_not_mem {sep : Char} {s : List Char} (h : sep ∉ s) :
    ∀ c ∈ s, decide (c ≠ sep) = true := by
  intro c hc
  rw [decide_eq_true_eq]
  rintro rfl
  exact h hc

/-- The first separator cuts. -/
theorem cut_append {sep : Char} {s t : List Char} (h : sep ∉ s) :
    cut sep (s ++ sep :: t) = (s, t, true) := by
  have hall := ne_of_not_mem h
  rw [cut, List.takeWhile_append_of_pos hall, List.dropWhile_append_of_pos hall]
  simp

theorem cut_of_not_mem {sep : Char} {s : List Char} (h : sep ∉ s) :
    cut sep s = (s, [], false) := by
  have hall := ne_of_not_mem h
  have htake : s.takeWhile (· ≠ sep) = s := List.takeWhile_eq_self_iff.mpr hall
  have hdrop : s.dropWhile (· ≠ sep) = [] := List.dropWhile_eq_nil_iff.mpr hall
  rw [cut, htake, hdrop]
  simp [h]

/-- A text with a separator is what is in front of the first one and what is behind it. -/
theorem append_of_cut {sep : Char} {s : List Char} (h : sep ∈ s) :
    sep ∉ (cut sep s).1 ∧ s = (cut sep s).1 ++ sep :: (cut sep s).2.1 := by
  obtain ⟨before, behind, rfl, hnot⟩ := List.eq_append_cons_of_mem h
  rw [cut_append hnot]
  exact ⟨hnot, rfl⟩

private theorem base_of_parseRange {s : List Char} {stepped : Bool} {low high : Int}
    (h : parseRange s stepped k.min k.max k.names = .ok (low, high)) :
    Base k false s stepped low high := by
  unfold parseRange at h
  split at h
  · rename_i hs
    obtain ⟨rfl, rfl⟩ : k.min = low ∧ k.max = high := by simpa using h
    exact hs ▸ .star
  · split at h
    · rename_i hdash
      obtain ⟨a, ha, h⟩ := bind_eq_ok h
      obtain ⟨b, hb, h⟩ := bind_eq_ok h
      obtain ⟨hfront, hs⟩ := append_of_cut (List.contains_iff_mem.mp hdash)
      split at h
      · cases h
      · rename_i hle
        obtain ⟨rfl, rfl⟩ : a = low ∧ b = high := by simpa using h
        rw [hs]
        exact .range (parseValue_iff.mp ha) (fun hmem => absurd hmem hfront)
          (parseValue_iff.mp hb) (not_lt.mp hle)
    · rename_i hdash
      obtain ⟨a, ha, h⟩ := bind_eq_ok h
      have hfree : '-' ∈ s → false = true := fun hmem =>
        absurd (List.contains_iff_mem.mpr hmem) hdash
      obtain ⟨rfl, rfl⟩ : a = low ∧ (if stepped then k.max else a) = high := by simpa using h
      cases stepped with
      | false => exact .lone (parseValue_iff.mp ha) hfree
      | true => exact .upwards (parseValue_iff.mp ha) hfree

/-- A value without a dash is no range. -/
private theorem parseRange_of_value {s : List Char} {a : Int} (stepped : Bool)
    (ha : Value k s a) (hfree : '-' ∉ s) :
    parseRange s stepped k.min k.max k.names = .ok (a, if stepped then k.max else a) := by
  have hstar : s ≠ ['*'] := fun hs => ha.chars.2.2.2 (by simp [hs])
  have hdash : ¬ s.contains '-' = true := fun hmem => hfree (List.contains_iff_mem.mp hmem)
  rw [parseRange, if_neg hstar, if_neg hdash, parseValue_iff.mpr ha]
  rfl

theorem parseRange_iff {s : List Char} {stepped : Bool} {low high : Int} :
    parseRange s stepped k.min k.max k.names = .ok (low, high) ↔
      Base k false s stepped low high := by
  refine ⟨base_of_parseRange, fun h => ?_⟩
  cases h with
  | star => rw [parseRange, if_pos rfl]
  | lone ha hfree => exact parseRange_of_value false ha fun hmem => nomatch hfree hmem
  | upwards ha hfree => exact parseRange_of_value true ha fun hmem => nomatch hfree hmem
  | @range s t a b _ ha hfree hb hle =>
      have hfront : '-' ∉ s := fun hmem => nomatch hfree hmem
      have hdash : (s ++ '-' :: t).contains '-' = true := by simp
      have hstar : s ++ '-' :: t ≠ ['*'] := by
        intro hs
        rw [hs] at hdash
        simp at hdash
      rw [parseRange, if_neg hstar, if_pos hdash, cut_append hfront, parseValue_iff.mpr ha,
        parseValue_iff.mpr hb]
      simp only [bind, Except.bind]
      rw [if_neg (not_lt.mpr hle)]

theorem parseStep_iff {t : List Char} {step : Int} :
    parseStep t true = .ok step ↔ atoi t = some step ∧ 0 < step := by
  unfold parseStep
  rw [if_pos rfl]
  cases ht : atoi t with
  | none => simp
  | some n =>
      by_cases hpos : n ≤ 0
      · simp only [if_pos hpos, reduceCtorEq, Option.some.injEq, false_iff, not_and, not_lt]
        rintro rfl
        exact hpos
      · simp only [if_neg hpos, Except.ok.injEq, Option.some.injEq]
        constructor
        · rintro rfl
          exact ⟨rfl, not_le.mp hpos⟩
        · exact And.left

/-- The parser cuts a part where the grammar does. -/
theorem part_iff {part : List Char} {low high step : Int} :
    Part k false part low high step ↔
      parseStep (cut '/' part).2.1 (cut '/' part).2.2 = .ok step ∧
        parseRange (cut '/' part).1 (cut '/' part).2.2 k.min k.max k.names = .ok (low, high) := by
  constructor
  · intro h
    cases h with
    | plain hbase =>
        rw [cut_of_not_mem hbase.chars.2.1]
        exact ⟨rfl, parseRange_iff.mpr hbase⟩
    | stepped hbase ht hpos =>
        rw [cut_append hbase.chars.2.1]
        exact ⟨parseStep_iff.mpr ⟨ht, hpos⟩, parseRange_iff.mpr hbase⟩
  · rintro ⟨hstep, hrange⟩
    by_cases hslash : '/' ∈ part
    · obtain ⟨s, t, rfl, hfront⟩ := List.eq_append_cons_of_mem hslash
      rw [cut_append hfront] at hstep hrange
      obtain ⟨ht, hpos⟩ := parseStep_iff.mp hstep
      exact .stepped (parseRange_iff.mp hrange) ht hpos
    · rw [cut_of_not_mem hslash] at hstep hrange
      obtain rfl : 1 = step := by simpa [parseStep] using hstep
      exact .plain (parseRange_iff.mp hrange)

/-- A part stands for one range and one step. -/
theorem Part.unique {part : List Char} {low high step low' high' step' : Int}
    (h : Part k false part low high step) (h' : Part k false part low' high' step') :
    low = low' ∧ high = high' ∧ step = step' := by
  obtain ⟨hstep, hrange⟩ := part_iff.mp h
  obtain ⟨hstep', hrange'⟩ := part_iff.mp h'
  have hsame := Except.ok.inj (hstep.symm.trans hstep')
  obtain ⟨hlow, hhigh⟩ := Prod.mk.inj (Except.ok.inj (hrange.symm.trans hrange'))
  exact ⟨hlow, hhigh, hsame⟩

theorem parsePart_iff {part : List Char} {bits : BitVec 64} :
    parsePart part k.min k.max k.names = .ok bits ↔
      ∃ low high step, Part k false part low high step ∧
        bits = stepBits high step stepFuel low 0 := by
  constructor
  · intro h
    have hne : part ≠ [] := by
      rintro rfl
      cases h
    rw [parsePart, if_neg hne] at h
    obtain ⟨step, hstep, h⟩ := bind_eq_ok h
    obtain ⟨⟨low, high⟩, hrange, h⟩ := bind_eq_ok h
    exact ⟨low, high, step, part_iff.mpr ⟨hstep, hrange⟩, (Except.ok.inj h).symm⟩
  · rintro ⟨low, high, step, hpart, rfl⟩
    obtain ⟨hstep, hrange⟩ := part_iff.mp hpart
    rw [parsePart, if_neg hpart.chars.1]
    simp only [hstep, hrange]
    rfl

private theorem parseParts_accepts_iff (min max : Int) (names : Names)
    {parts : List (List Char)} : ∀ {acc : BitVec 64},
      (∃ bits, parseParts min max names acc parts = .ok bits) ↔
        ∀ part ∈ parts, ∃ b, parsePart part min max names = .ok b := by
  induction parts with
  | nil =>
      intro acc
      exact ⟨fun _ => nofun, fun _ => ⟨acc, rfl⟩⟩
  | cons part rest ih =>
      intro acc
      constructor
      · rintro ⟨bits, h⟩
        obtain ⟨b, hb, h⟩ := bind_eq_ok h
        exact List.forall_mem_cons.mpr ⟨⟨b, hb⟩, ih.mp ⟨bits, h⟩⟩
      · intro h
        obtain ⟨⟨b, hb⟩, hrest⟩ := List.forall_mem_cons.mp h
        obtain ⟨bits, hbits⟩ := ih.mpr hrest
        exact ⟨bits, by rw [parseParts, hb]; exact hbits⟩

theorem field_iff {s : List Char} :
    Field k signed s ↔
      ∀ part ∈ s.splitOn ',', ∃ low high step, Part k signed part low high step := by
  constructor
  · rintro ⟨parts, hne, rfl, hparts⟩
    have hcomma : ∀ part ∈ parts, ',' ∉ part := by
      intro part hpart
      obtain ⟨low, high, step, h⟩ := hparts part hpart
      exact h.chars.2
    rwa [List.splitOn_intercalate ',' hcomma hne]
  · intro hparts
    exact ⟨s.splitOn ',', List.splitOn_ne_nil ',' s, (List.intercalate_splitOn ',').symm, hparts⟩

theorem field_of_part {s : List Char} {low high step : Int}
    (h : Part k signed s low high step) : Field k signed s := by
  rw [field_iff, List.splitOn_eq_singleton h.chars.2]
  exact List.forall_mem_singleton.mpr ⟨low, high, step, h⟩

theorem field_star : Field k signed ['*'] := field_of_part (.plain .star)

private theorem parseField_accepts_parts {s : List Char} :
    (∃ bits, parseField s k.min k.max k.names = .ok bits) ↔
      ∀ part ∈ s.splitOn ',', ∃ b, parsePart part k.min k.max k.names = .ok b :=
  parseParts_accepts_iff _ _ _

theorem parseField_accepts_iff {s : List Char} :
    (∃ bits, parseField s k.min k.max k.names = .ok bits) ↔ Field k false s := by
  rw [field_iff, parseField_accepts_parts]
  refine forall₂_congr fun part _ => ⟨?_, ?_⟩
  · rintro ⟨b, hb⟩
    obtain ⟨low, high, step, h, -⟩ := parsePart_iff.mp hb
    exact ⟨low, high, step, h⟩
  · rintro ⟨low, high, step, h⟩
    exact ⟨_, parsePart_iff.mpr ⟨low, high, step, h, rfl⟩⟩

/-! ## Expressions -/

/-- The text that is parsed: that of the alias, where the expression is one. -/
def expand (s : List Char) : List Char := (aliases.lookup (toLower (trimSpace s))).getD s

/-- The text of five fields is parsed to a schedule. -/
structure Parsed (text : List Char) (s : ExprSchedule) (f0 f1 f2 f3 f4 : List Char) : Prop where
  fields_eq : fields text = [f0, f1, f2, f3, f4]
  min : parseField f0 0 59 [] = .ok s.min
  hour : parseField f1 0 23 [] = .ok s.hour
  dom : parseField f2 1 31 [] = .ok s.dom
  month : parseField f3 1 12 monthNames = .ok s.month
  dow : ∃ dow, parseField f4 0 7 dowNames = .ok dow ∧ s.dow = foldSunday dow
  domStar : s.domStar = decide (f2 = ['*'])
  dowStar : s.dowStar = decide (f4 = ['*'])

private theorem namedField_eq {name : String} {field : List Char} {min max : Int}
    {names : Names} {b : BitVec 64} (h : parseField field min max names = .ok b) :
    namedField name field min max names = .ok b := by
  rw [namedField, h]
  rfl

theorem expr_iff {spec : String} {s : ExprSchedule} :
    expr spec = .ok s ↔ ∃ f0 f1 f2 f3 f4, Parsed (expand spec.toList) s f0 f1 f2 f3 f4 := by
  constructor
  · intro h
    unfold expr at h
    dsimp only at h
    split at h
    · rename_i f0 f1 f2 f3 f4 hfields
      obtain ⟨min, hmin, h⟩ := bind_eq_ok h
      obtain ⟨hour, hhour, h⟩ := bind_eq_ok h
      obtain ⟨dom, hdom, h⟩ := bind_eq_ok h
      obtain ⟨month, hmonth, h⟩ := bind_eq_ok h
      obtain ⟨dow, hdow, h⟩ := bind_eq_ok h
      obtain rfl := Except.ok.inj h
      exact ⟨f0, f1, f2, f3, f4, hfields, namedField_ok hmin, namedField_ok hhour,
        namedField_ok hdom, namedField_ok hmonth, ⟨dow, namedField_ok hdow, rfl⟩, rfl, rfl⟩
    · cases h
  · rintro ⟨f0, f1, f2, f3, f4, hp⟩
    obtain ⟨dow, hdow, hfold⟩ := hp.dow
    have hfields := hp.fields_eq
    unfold expand at hfields
    unfold expr
    simp only [hfields, namedField_eq hp.min, namedField_eq hp.hour, namedField_eq hp.dom,
      namedField_eq hp.month, namedField_eq hdow]
    simp only [bind, Except.bind, ← hfold, ← hp.domStar, ← hp.dowStar]

theorem fields_iff {s : List Char} {fs : List (List Char)} :
    fields s = fs ↔ Words isSpace s fs := words_iff.symm

theorem fiveFields_iff {text : List Char} :
    FiveFields false text ↔ ∃ s f0 f1 f2 f3 f4, Parsed text s f0 f1 f2 f3 f4 := by
  constructor
  · rintro ⟨f0, f1, f2, f3, f4, hwords, h0, h1, h2, h3, h4⟩
    obtain ⟨min, hmin⟩ := parseField_accepts_iff.mpr h0
    obtain ⟨hour, hhour⟩ := parseField_accepts_iff.mpr h1
    obtain ⟨dom, hdom⟩ := parseField_accepts_iff.mpr h2
    obtain ⟨month, hmonth⟩ := parseField_accepts_iff.mpr h3
    obtain ⟨dow, hdow⟩ := parseField_accepts_iff.mpr h4
    exact ⟨⟨min, hour, dom, month, foldSunday dow, f2 = ['*'], f4 = ['*']⟩, f0, f1, f2, f3, f4,
      fields_iff.mpr hwords, hmin, hhour, hdom, hmonth, ⟨dow, hdow, rfl⟩, rfl, rfl⟩
  · rintro ⟨s, f0, f1, f2, f3, f4, hp⟩
    obtain ⟨dow, hdow, -⟩ := hp.dow
    exact ⟨f0, f1, f2, f3, f4, fields_iff.mp hp.fields_eq,
      parseField_accepts_iff.mp ⟨_, hp.min⟩, parseField_accepts_iff.mp ⟨_, hp.hour⟩,
      parseField_accepts_iff.mp ⟨_, hp.dom⟩, parseField_accepts_iff.mp ⟨_, hp.month⟩,
      parseField_accepts_iff.mp ⟨dow, hdow⟩⟩

/-- Every alias stands for five fields. -/
theorem fiveFields_of_alias : ∀ e ∈ aliases, FiveFields false e.2 := by
  have hparsed : ∀ e ∈ aliases, expand e.2 = e.2 ∧
      (expr (String.ofList e.2)).toOption.isSome = true := by decide
  intro e he
  obtain ⟨hexpand, hsome⟩ := hparsed e he
  cases hexpr : expr (String.ofList e.2) with
  | error err => simp [hexpr, Except.toOption] at hsome
  | ok s =>
      have hp := expr_iff.mp hexpr
      rw [String.toList_ofList, hexpand] at hp
      exact fiveFields_iff.mpr ⟨s, hp⟩

/-- The expansion of an expression is five fields exactly when the expression is in the
grammar. -/
theorem fiveFields_expand_iff {s : List Char} :
    FiveFields false (expand s) ↔ Grammar false s := by
  unfold expand Grammar
  cases hlookup : aliases.lookup (toLower (trimSpace s)) with
  | none =>
      have hnot : toLower (trimSpace s) ∉ aliases.map Prod.fst := by
        intro hmem
        obtain ⟨e, he, hkey⟩ := List.mem_map.mp hmem
        have hne := List.lookup_eq_none_iff.mp hlookup e he
        simp [hkey] at hne
      simp [hnot]
  | some text =>
      obtain ⟨before, behind, hsplit, -⟩ := List.lookup_eq_some_iff.mp hlookup
      have hmem : (toLower (trimSpace s), text) ∈ aliases := by simp [hsplit]
      exact ⟨fun _ => Or.inl (List.mem_map_of_mem hmem), fun _ => fiveFields_of_alias _ hmem⟩

theorem expr_accepts_iff (spec : String) :
    (∃ s, expr spec = .ok s) ↔ Grammar false spec.toList := by
  rw [← fiveFields_expand_iff, fiveFields_iff]
  exact exists_congr fun s => expr_iff

/-- The minute `-0` is a number within the bounds, and the parser takes it for a range
without a low end. -/
theorem minus_rejected :
    ¬ ∀ spec : String, (∃ s, expr spec = .ok s) ↔ Grammar true spec.toList := by
  intro hall
  have hzero : Value minute "-0".toList 0 := .number (by decide) (by decide) (by decide)
  have hfirst : Field minute true "-0".toList :=
    field_of_part (.plain (.lone hzero fun _ => rfl))
  have hgrammar : Grammar true "-0 * * * *".toList :=
    Or.inr ⟨"-0".toList, ['*'], ['*'], ['*'], ['*'], fields_iff.mp (by decide), hfirst,
      field_star, field_star, field_star, field_star⟩
  obtain ⟨s, hs⟩ := (hall "-0 * * * *").mpr hgrammar
  have herror : (expr "-0 * * * *").toOption = none := by decide
  rw [hs] at herror
  cases herror

end Shost.Ports.CronGrammar
