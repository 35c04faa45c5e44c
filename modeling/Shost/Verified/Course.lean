import Shost.Verified.Refine

/-!
# Calls that take effect once

A function that others call, one call after the other, and that takes effect once in the
course of each call.  A call may end with a panic that is recovered, but not before its
effect.  What has taken effect then lies between what has returned and what was called,
in the order of the calls.

## Main results

* `balanced_of_runs` — the effects are those of the calls that have returned and, at most,
  of the one in progress.
-/

namespace Shost.Verified

open Lts Trace

/-- What happens in the course of a call. -/
inductive CourseAct (ν : Type*) where
  | begins (n : ν)
  | does (n : ν)
  | ends (n : ν) (panicked : Bool)
  deriving DecidableEq

/-- How far a call has come. -/
inductive Course (ν : Type*) where
  | idle
  | begun (n : ν)
  | done (n : ν)
  deriving DecidableEq

variable {ν : Type*}

namespace CourseAct

/-- What the caller sees. -/
def outward : CourseAct ν → Option (CourseAct ν)
  | does _ => none
  | begins n => some (begins n)
  | ends n panicked => some (ends n panicked)

def begins? : CourseAct ν → Option ν
  | begins n => some n
  | _ => none

def does? : CourseAct ν → Option ν
  | does n => some n
  | _ => none

def ends? : CourseAct ν → Option ν
  | ends n _ => some n
  | _ => none

theorem begins?_outward (a : CourseAct ν) : a.begins? = a.outward.bind begins? := by
  cases a <;> rfl

theorem ends?_outward (a : CourseAct ν) : a.ends? = a.outward.bind ends? := by
  cases a <;> rfl

end CourseAct

namespace Course

def next (_ : Course ν) : CourseAct ν → Course ν
  | .begins n => .begun n
  | .does n => .done n
  | .ends _ _ => .idle

/-- A call that has not taken effect. -/
def open? : Course ν → Option ν
  | begun n => some n
  | _ => none

/-- A call that has taken effect and not returned. -/
def done? : Course ν → Option ν
  | done n => some n
  | _ => none

variable [DecidableEq ν]

def allows (c : Course ν) : CourseAct ν → Bool
  | .begins _ => decide (c = idle)
  | .does n => decide (c = begun n)
  | .ends n _ => decide (c = done n)

end Course

/-- The courses of a function. -/
def courses (ν : Type*) [DecidableEq ν] : Lts (Course ν) (CourseAct ν) where
  guard := Course.allows
  effect := Course.next

/-- The calls, their effects and their ends match. -/
structure Balanced (υ : List (CourseAct ν)) (c : Course ν) : Prop where
  effects : υ.filterMap CourseAct.begins? = υ.filterMap CourseAct.does? ++ c.open?.toList
  returns : υ.filterMap CourseAct.does? = υ.filterMap CourseAct.ends? ++ c.done?.toList

variable [DecidableEq ν] {υ : List (CourseAct ν)} {c : Course ν}

theorem balanced_of_runs (hr : (courses ν).Runs Course.idle υ c) : Balanced υ c := by
  refine hr.invariant Balanced ⟨rfl, rfl⟩ ?_
  intro υ c a _ ih _ hg
  obtain ⟨heffects, hreturns⟩ := ih
  constructor <;> rw [filterMap_snoc, filterMap_snoc]
  · rw [heffects]
    cases a with
    | begins n | does n | ends n panicked =>
        obtain rfl := of_decide_eq_true hg
        simp [courses, Course.next, CourseAct.begins?, CourseAct.does?, Course.open?]
  · rw [hreturns]
    cases a with
    | begins n | does n | ends n panicked =>
        obtain rfl := of_decide_eq_true hg
        simp [courses, Course.next, CourseAct.does?, CourseAct.ends?, Course.done?]

end Shost.Verified
