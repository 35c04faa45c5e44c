import Shost.Verified.Lts
import Mathlib.Logic.Function.Basic

/-!
# Locks that are taken or refused

The specification of a table of locks that nobody waits for: an owner takes a free lock,
is refused a lock that is held, and drops what it holds.  Owners can drop together, as
the calls of a process do that dies.

## Main results

* `Mutex.next_drop_of_idle` — owners that hold no lock drop none.
-/

namespace Shost.Verified

variable {κ ω : Type*} [DecidableEq κ]

namespace Mutex

/-- What happens to the locks. -/
inductive Act (κ ω : Type*) where
  | take (k : κ) (o : ω)
  | refuse (k : κ) (o : ω)
  /-- these owners drop all they hold -/
  | drop (who : ω → Bool)

/-- The lock is held by one of these owners. -/
def heldBy (who : ω → Bool) (holder : Option ω) : Bool := holder.any who

def next (holder : κ → Option ω) : Act κ ω → κ → Option ω
  | .take k o => Function.update holder k (some o)
  | .refuse _ _ => holder
  | .drop who => fun k => if heldBy who (holder k) then none else holder k

end Mutex

open Mutex

/-- A table of locks: who holds which. -/
def mutex (κ ω : Type*) [DecidableEq κ] : Lts (κ → Option ω) (Act κ ω) where
  guard holder
    | .take k _ => (holder k).isNone
    | .refuse k _ => (holder k).isSome
    | .drop _ => true
  effect := next

/-- Owners that hold no lock drop none. -/
theorem Mutex.next_drop_of_idle {holder : κ → Option ω} {who : ω → Bool}
    (hidle : ∀ k o, holder k = some o → who o = false) : next holder (.drop who) = holder := by
  funext k
  show (if heldBy who (holder k) then none else holder k) = holder k
  rw [if_neg]
  intro hheld
  obtain ⟨o, ho, hwho⟩ := (Option.any_eq_true _ _).mp hheld
  rw [hidle k o ho] at hwho
  cases hwho

end Shost.Verified
