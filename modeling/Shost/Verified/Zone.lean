import Mathlib.Tactic

/-!
# Time-zone tables

A zone is an offset in force from the beginning of time and a finite
ascending table of changes: from the instant of an entry on its offset is in
force, until the next entry.  Instants and offsets are seconds; the wall
clock of an instant is the instant plus the offset in force.

Reading a wall clock back is ambiguous where the clock was set back and
impossible where it was set forward.  `Zone.dateOffset` is the resolution the
Go documentation describes: the wall clock is first looked up as if it were
UTC, and the offset found there is kept when the instant it gives lies in that
offset's own period.
-/

namespace Shost.Verified

/-- A time zone: offsets east of UTC in seconds. -/
structure Zone where
  base : Int
  changes : List (Int × Int)
  ascending : changes.Pairwise fun a b => a.1 < b.1
  deriving DecidableEq

namespace Zone

/-- A maximal stretch of time with one offset; `none` is an open end. -/
structure Period where
  offset : Int
  start : Option Int
  stop : Option Int

/-- The period `[start, stop)` contains the instant `u`. -/
def Period.contains (p : Period) (u : Int) : Bool :=
  p.start.all (fun a => decide (a ≤ u)) && p.stop.all (fun b => decide (u < b))

/-- Look the instant `u` up in the rest of a table, the offset `off` being in
force since `start`. -/
def lookupFrom (off : Int) (start : Option Int) : List (Int × Int) → Int → Period
  | [], _ => ⟨off, start, none⟩
  | (at', off') :: rest, u =>
      if u < at' then ⟨off, start, some at'⟩ else lookupFrom off' (some at') rest u

/-- The period that the instant `u` lies in. -/
def lookup (z : Zone) (u : Int) : Period := lookupFrom z.base none z.changes u

/-- The offset in force at the instant `u`. -/
def offset (z : Zone) (u : Int) : Int := (z.lookup u).offset

/-- What the wall clock shows at the instant `u`, read as if it were UTC. -/
def clock (z : Zone) (u : Int) : Int := u + z.offset u

/-- From the instant `lo` on and before `hi` the wall clock is never in `[a, b)`. -/
def Avoids (z : Zone) (lo hi a b : Int) : Prop :=
  ∀ u, lo ≤ u → u < hi → ¬ (a ≤ z.clock u ∧ z.clock u < b)

/-- The offset chosen for the wall clock `w`: the one in force at `w` read as
UTC, or, when the instant it gives lies outside that offset's period, the one
in force at that instant. -/
def dateOffset (z : Zone) (w : Int) : Int :=
  let p := z.lookup w
  if p.contains (w - p.offset) then p.offset else z.offset (w - p.offset)

/-- The zone that never differs from UTC. -/
def utc : Zone := ⟨0, [], List.Pairwise.nil⟩

/-- One offset is in force at all times. -/
def Constant (z : Zone) (off : Int) : Prop := ∀ u, z.offset u = off

theorem utc_constant : utc.Constant 0 := fun _ => rfl

/-- The wall clock of a constant zone is unambiguous. -/
theorem Constant.dateOffset {z : Zone} {off : Int} (h : z.Constant off) (w : Int) :
    z.dateOffset w = off := by
  unfold Zone.dateOffset
  have hw : (z.lookup w).offset = off := h w
  dsimp only
  split
  · exact hw
  · exact h _

end Zone

end Shost.Verified
