import Shost.Verified.Bytes

/-!
# Files of settings

A file is a sequence of lines, and a line `key=value` sets a key.  Other lines, such as
section headers, are passed over, and a key may be set several times.

## Main results

* `values_text` — what is read of a key from the lines of a file.
* `valueOf_line` — a line is read for its own key only.
-/

namespace Shost.Verified

namespace KeyValue

open Bytes

def newline : UInt8 := 0x0A

def equals : UInt8 := 0x3D

/-- The line that sets a key. -/
def line (key value : Bytes) : Bytes := key ++ equals :: value

/-- The text of a file with these lines. -/
def text (lines : List Bytes) : Bytes := lines.flatMap (· ++ [newline])

/-- The value that a line sets a key to. -/
def valueOf (key line : Bytes) : Option Bytes :=
  if line.take (key.length + 1) = key ++ [equals] then some (line.drop (key.length + 1)) else none

/-- The values a key is set to, in order. -/
def values (file key : Bytes) : List Bytes := (file.splitOn newline).filterMap (valueOf key)

variable {key key' value : Bytes} {lines : List Bytes}

@[simp] theorem text_append (lines lines' : List Bytes) :
    text (lines ++ lines') = text lines ++ text lines' := List.flatMap_append

theorem splitOn_text (hlines : ∀ l ∈ lines, newline ∉ l) :
    (text lines).splitOn newline = lines ++ [[]] := by
  induction lines with
  | nil => exact List.splitOn_nil newline
  | cons l lines ih =>
      have hcons : text (l :: lines) = l ++ newline :: text lines := by simp [text]
      rw [hcons, List.splitOn_append_cons_self_of_not_mem (hlines l (by simp)),
        ih fun l' hl' => hlines l' (by simp [hl']), List.cons_append]

/-- A line without an equals sign sets nothing. -/
theorem valueOf_of_not_mem {l : Bytes} (hl : equals ∉ l) (key : Bytes) : valueOf key l = none := by
  have hstart : l.take (key.length + 1) ≠ key ++ [equals] := fun heq =>
    hl (List.mem_of_mem_take (heq ▸ List.mem_append_right key (List.mem_singleton_self equals)))
  rw [valueOf, if_neg hstart]

theorem filterMap_of_not_mem (hlines : ∀ l ∈ lines, equals ∉ l) (key : Bytes) :
    lines.filterMap (valueOf key) = [] :=
  List.filterMap_eq_nil_iff.mpr fun l hl => valueOf_of_not_mem (hlines l hl) key

theorem values_text (hlines : ∀ l ∈ lines, newline ∉ l) (key : Bytes) :
    values (text lines) key = lines.filterMap (valueOf key) := by
  rw [values, splitOn_text hlines, List.filterMap_append]
  simp [valueOf_of_not_mem]

/-- A line is read for its own key. -/
theorem valueOf_line (hkey : equals ∉ key) (hkey' : equals ∉ key') :
    valueOf key (line key' value) = if key = key' then some value else none := by
  have hcut := List.take_append_drop (key.length + 1) (line key' value)
  rw [valueOf]
  split
  · next hstart =>
      rw [hstart, List.append_assoc, List.singleton_append, line] at hcut
      obtain ⟨rfl, hvalue⟩ := append_cons_inj hkey hkey' hcut
      rw [if_pos rfl, line, hvalue]
  · next hstart =>
      split
      · next heq =>
          rw [heq, line, List.take_length_add_append, List.take_succ_cons, List.take_zero] at hstart
          exact absurd rfl hstart
      · rfl

theorem filterMap_valueOf_line (hkey : equals ∉ key) (hkey' : equals ∉ key') (vals : List Bytes) :
    (vals.map (line key')).filterMap (valueOf key) = if key = key' then vals else [] := by
  rw [List.filterMap_map]
  induction vals with
  | nil => simp
  | cons value vals ih =>
      rw [List.filterMap_cons, ih, Function.comp_apply, valueOf_line hkey hkey']
      by_cases heq : key = key'
      · simp [heq]
      · simp [heq]

/-- What is found under a key of a list in which no key stands twice. -/
theorem flatMap_of_nodup {settings : List (Bytes × List Bytes)} {vals : List Bytes}
    (hnodup : (settings.map Prod.fst).Nodup) (hmem : (key, vals) ∈ settings) :
    (settings.flatMap fun kv => if key = kv.1 then kv.2 else []) = vals := by
  induction settings with
  | nil => cases hmem
  | cons kv settings ih =>
      rw [List.map_cons, List.nodup_cons] at hnodup
      rw [List.flatMap_cons]
      rcases List.mem_cons.mp hmem with rfl | hrest
      · have hnone : (settings.flatMap fun kv => if key = kv.1 then kv.2 else []) = [] := by
          apply List.flatMap_eq_nil_iff.mpr
          intro kv hkv
          exact if_neg fun heq => hnodup.1 (List.mem_map.mpr ⟨kv, hkv, heq.symm⟩)
        rw [if_pos rfl, hnone, List.append_nil]
      · have hne : key ≠ kv.1 := fun heq => hnodup.1 (List.mem_map.mpr ⟨(key, vals), hrest, heq⟩)
        rw [if_neg hne, List.nil_append, ih hnodup.2 hrest]

end KeyValue

end Shost.Verified
