import Mathlib.Tactic

/-!
# Words of a text

A text over any alphabet, some characters of which are separators, consists of
words: its maximal runs of other characters.  `Words` says so as a relation, and
splitting the text at every separator and dropping what is empty computes it.

## Main results

* `words_iff` — the words are the non-empty pieces between separators.
-/

namespace Shost.Verified

variable {α : Type*} {p : α → Bool}

/-- The words of a text; `p` holds of the separators. -/
inductive Words (p : α → Bool) : List α → List (List α) → Prop
  | nil {sep : List α} : (∀ c ∈ sep, p c = true) → Words p sep []
  /-- a word ends at a separator or at the end of the text -/
  | cons {sep word rest : List α} {ws : List (List α)} : (∀ c ∈ sep, p c = true) →
      word ≠ [] → (∀ c ∈ word, p c = false) → (∀ c ∈ rest.head?, p c = true) →
      Words p rest ws → Words p (sep ++ word ++ rest) (word :: ws)

/-- The non-empty pieces of a text. -/
private def pieces (p : α → Bool) (s : List α) : List (List α) := (s.splitOnP p).filter (· ≠ [])

private theorem pieces_cons {c : α} (hc : p c = true) (s : List α) :
    pieces p (c :: s) = pieces p s := by
  have hempty : ∀ d ∈ ([] : List α), p d = false := by simp
  have hsplit := List.splitOnP_append_cons_of_forall_mem hempty c hc s
  rw [List.nil_append] at hsplit
  simp [pieces, hsplit]

private theorem pieces_append {sep : List α} (hsep : ∀ c ∈ sep, p c = true) (s : List α) :
    pieces p (sep ++ s) = pieces p s := by
  induction sep with
  | nil => rfl
  | cons c rest ih =>
      rw [List.cons_append, pieces_cons (hsep c (by simp))]
      exact ih fun d hd => hsep d (by simp [hd])

private theorem pieces_word {word rest : List α} (hne : word ≠ [])
    (hword : ∀ c ∈ word, p c = false) (hrest : ∀ c ∈ rest.head?, p c = true) :
    pieces p (word ++ rest) = word :: pieces p rest := by
  cases rest with
  | nil => simp [pieces, List.splitOnP_eq_singleton hword, hne]
  | cons c rest =>
      have hc : p c = true := hrest c rfl
      rw [pieces_cons hc, pieces, List.splitOnP_append_cons_of_forall_mem hword c hc]
      simp [pieces, hne]

private theorem Words.pieces_eq {s : List α} {ws : List (List α)} (h : Words p s ws) :
    pieces p s = ws := by
  induction h with
  | @nil sep hsep =>
      have hnil := pieces_append hsep []
      rw [List.append_nil] at hnil
      rw [hnil]
      simp [pieces]
  | cons hsep hne hword hrest _ ih =>
      rw [List.append_assoc, pieces_append hsep, pieces_word hne hword hrest, ih]

/-- Behind its leading separators a text begins with a word, or it is at its end. -/
private theorem dropWhile_eq_nil_of_word {s : List α}
    (h : (s.dropWhile p).takeWhile (!p ·) = []) : s.dropWhile p = [] := by
  cases htext : s.dropWhile p with
  | nil => rfl
  | cons c rest =>
      have hfirst := List.head?_dropWhile_not p s
      rw [htext] at hfirst
      have hc : p c = false := by simpa using hfirst
      rw [htext, List.takeWhile_cons_of_pos (by simp [hc])] at h
      cases h

/-- Every text has words: what follows the first one is shorter than the text. -/
private theorem words_total (s : List α) : ∃ ws, Words p s ws := by
  generalize hn : s.length = n
  induction n using Nat.strong_induction_on generalizing s with
  | _ n ih =>
      let sep := s.takeWhile p
      let text := s.dropWhile p
      let word := text.takeWhile (!p ·)
      let rest := text.dropWhile (!p ·)
      have hs : s = sep ++ text := List.takeWhile_append_dropWhile.symm
      have htext : text = word ++ rest := List.takeWhile_append_dropWhile.symm
      have hsep : ∀ c ∈ sep, p c = true := List.all_eq_true.mp List.all_takeWhile
      have hword : ∀ c ∈ word, p c = false := by
        intro c hc
        simpa using List.all_eq_true.mp List.all_takeWhile c hc
      have hrest : ∀ c ∈ rest.head?, p c = true := by
        intro c hc
        have hnot := List.head?_dropWhile_not (!p ·) text
        rw [show text.dropWhile (!p ·) = rest from rfl, hc] at hnot
        simpa using hnot
      by_cases hempty : word = []
      · have hnone : text = [] := dropWhile_eq_nil_of_word hempty
        rw [hs, hnone, List.append_nil]
        exact ⟨[], .nil hsep⟩
      · have hshort : rest.length < n := by
          have hpos := List.length_pos_iff.mpr hempty
          rw [← hn, hs, htext, List.length_append, List.length_append]
          omega
        obtain ⟨ws, hws⟩ := ih _ hshort rest rfl
        rw [hs, htext, ← List.append_assoc]
        exact ⟨word :: ws, .cons hsep hempty hword hrest hws⟩

theorem words_iff {s : List α} {ws : List (List α)} :
    Words p s ws ↔ (s.splitOnP p).filter (· ≠ []) = ws := by
  refine ⟨Words.pieces_eq, ?_⟩
  rintro rfl
  obtain ⟨ws, hws⟩ := words_total (p := p) s
  have heq : (s.splitOnP p).filter (· ≠ []) = ws := hws.pieces_eq
  rwa [heq]

end Shost.Verified
