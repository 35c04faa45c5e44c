import Mathlib.Tactic

/-!
# Calls that may panic

A thread runs a stack of function bodies.  A body is a list of statements, each
of which calls code from outside, that may return or panic, or a function of the
program, that may defer a recovery.  A panic unwinds the stack up to the first
function that recovers; what that function and those above it had yet to do is
skipped, and a panic that nobody recovers ends with an empty stack.

A statement is shielded when every call from outside in it is the last thing
that is done below some recovery.  In a thread whose statements are all shielded a
panic skips nothing: the thread goes on as if the call had returned.

## Main results

* `Safe.step` — shielded statements stay shielded as the thread runs.
* `Safe.not_crashed` — a safe thread does not end in a panic.
* `calm_step`, `calm_offers` — a safe thread and the thread in which every panic
  is replaced by a return take the same steps.
* `pending_step` — the calls that are left, in their order.
* `work_step`, `Safe.exists_step` — a safe thread goes on until it is idle, in a bounded
  number of steps.
-/

namespace Shost.Verified

variable {κ : Type}

/-- A statement: a call of code from outside, or of a function with a body of its
own, that may recover from panics. -/
inductive Stmt (κ : Type) where
  | call (c : κ)
  | block (recovers : Bool) (body : List (Stmt κ))

/-- A function that has been entered: what it has yet to do, and whether it
recovers from panics. -/
structure Frame (κ : Type) where
  rest : List (Stmt κ)
  recovers : Bool

/-- What a thread is doing: its own statements, a call of code from outside, or
unwinding its stack. -/
inductive Mode (κ : Type) where
  | running
  | calling (c : κ)
  | panicking
  deriving DecidableEq

/-- A thread with the functions it is in, the innermost one first. -/
structure Thread (κ : Type) where
  frames : List (Frame κ)
  mode : Mode κ

/-- Steps of a thread. -/
inductive ThreadAct (κ : Type) where
  | begins (c : κ)
  | ends (c : κ) (panicked : Bool)
  /-- a function of the program is entered -/
  | enter
  /-- it returns -/
  | leave
  /-- it is left by a panic, or recovers from it and returns -/
  | unwind
  deriving DecidableEq

namespace Thread

/-- A thread at the beginning of some statements of its outermost function, which
does not recover. -/
def start (body : List (Stmt κ)) : Thread κ := ⟨[⟨body, false⟩], .running⟩

/-- Nothing is left to do but in the outermost function. -/
def idle (t : Thread κ) : Bool :=
  match t.mode, t.frames with
  | .running, [⟨[], _⟩] => true
  | _, _ => false

/-- A panic has come through all functions. -/
def Crashed (t : Thread κ) : Prop := t.mode = .panicking ∧ t.frames = []

def guard [DecidableEq κ] (t : Thread κ) : ThreadAct κ → Bool
  | .begins c =>
      match t.mode, t.frames with
      | .running, ⟨.call c' :: _, _⟩ :: _ => decide (c' = c)
      | _, _ => false
  | .ends c _ => decide (t.mode = .calling c)
  | .enter =>
      match t.mode, t.frames with
      | .running, ⟨.block _ _ :: _, _⟩ :: _ => true
      | _, _ => false
  | .leave =>
      match t.mode, t.frames with
      | .running, ⟨[], _⟩ :: _ :: _ => true
      | _, _ => false
  | .unwind =>
      match t.mode, t.frames with
      | .panicking, _ :: _ => true
      | _, _ => false

def effect (t : Thread κ) : ThreadAct κ → Thread κ
  | .begins c =>
      match t.frames with
      | ⟨_ :: rest, recovers⟩ :: outer => ⟨⟨rest, recovers⟩ :: outer, .calling c⟩
      | _ => t
  | .ends _ panicked => { t with mode := if panicked then .panicking else .running }
  | .enter =>
      match t.frames with
      | ⟨.block recovers' body :: rest, recovers⟩ :: outer =>
          { t with frames := ⟨body, recovers'⟩ :: ⟨rest, recovers⟩ :: outer }
      | _ => t
  | .leave => { t with frames := t.frames.tail }
  | .unwind =>
      match t.frames with
      | f :: outer => ⟨outer, if f.recovers then .running else .panicking⟩
      | [] => t

end Thread

/-! ## Shielded statements -/

/-- At most one call of code from outside, with nothing behind it. -/
inductive Lone : List (Stmt κ) → Prop
  | nil : Lone []
  | call (c : κ) : Lone [.call c]
  | block (recovers : Bool) {body : List (Stmt κ)} : Lone body → Lone [.block recovers body]

/-- Every call of code from outside is the last thing done below a recovery. -/
inductive Shielded : Stmt κ → Prop
  | lone {body : List (Stmt κ)} : Lone body → Shielded (.block true body)
  | group (recovers : Bool) {body : List (Stmt κ)} : (∀ x ∈ body, Shielded x) →
      Shielded (.block recovers body)

/-- All that the functions have yet to do is shielded. -/
def AllShielded (frames : List (Frame κ)) : Prop :=
  frames ≠ [] ∧ ∀ f ∈ frames, ∀ x ∈ f.rest, Shielded x

/-- A panic in the innermost function is recovered before it skips anything. -/
def Sheltered : List (Frame κ) → Prop
  | [] => False
  | f :: outer => f.rest = [] ∧ (f.recovers = true ∧ AllShielded outer ∨ Sheltered outer)

/-- What holds of a thread whose statements are all shielded. -/
def Thread.Safe (t : Thread κ) : Prop :=
  match t.mode with
  | .running => AllShielded t.frames ∨
      ∃ f outer, t.frames = f :: outer ∧ Lone f.rest ∧ Sheltered (⟨[], f.recovers⟩ :: outer)
  | .calling _ | .panicking => Sheltered t.frames

theorem AllShielded.cons {f : Frame κ} {outer : List (Frame κ)}
    (hf : ∀ x ∈ f.rest, Shielded x) (houter : ∀ g ∈ outer, ∀ x ∈ g.rest, Shielded x) :
    AllShielded (f :: outer) := by
  refine ⟨List.cons_ne_nil _ _, fun g hg => ?_⟩
  rcases List.mem_cons.mp hg with rfl | hg
  · exact hf
  · exact houter g hg

theorem Sheltered.allShielded {frames : List (Frame κ)} (h : Sheltered frames) :
    AllShielded frames := by
  induction frames with
  | nil => exact h.elim
  | cons f outer ih =>
      obtain ⟨hrest, ⟨-, houter⟩ | houter⟩ := h
      · exact .cons (by simp [hrest]) houter.2
      · exact .cons (by simp [hrest]) (ih houter).2

/-- A function that shelters is not the outermost one. -/
theorem Sheltered.outer {f : Frame κ} {outer : List (Frame κ)}
    (h : Sheltered (f :: outer)) : AllShielded outer := by
  obtain ⟨-, ⟨-, houter⟩ | houter⟩ := h
  · exact houter
  · exact houter.allShielded

theorem Shielded.not_call {c : κ} : ¬ Shielded (.call c) := nofun

namespace Thread

theorem safe_start {body : List (Stmt κ)} (h : ∀ x ∈ body, Shielded x) : (start body).Safe :=
  Or.inl (.cons h (by simp))

/-- A safe thread in a function whose next statement is a call of code from outside
has nothing else to do there. -/
private theorem lone_of_call {c : κ} {rest : List (Stmt κ)} {recovers : Bool}
    {outer : List (Frame κ)}
    (h : Safe ⟨⟨.call c :: rest, recovers⟩ :: outer, .running⟩) :
    rest = [] ∧ Sheltered (⟨[], recovers⟩ :: outer) := by
  rcases h with hall | ⟨f, outer', heq, hlone, hshelter⟩
  · exact absurd (hall.2 _ List.mem_cons_self _ List.mem_cons_self) Shielded.not_call
  · obtain ⟨rfl, rfl⟩ := List.cons.inj heq
    cases hlone
    exact ⟨rfl, hshelter⟩

/-- A safe thread that enters a function is safe. -/
private theorem safe_enter {recovers recovers' : Bool} {body rest : List (Stmt κ)}
    {outer : List (Frame κ)}
    (h : Safe ⟨⟨.block recovers' body :: rest, recovers⟩ :: outer, .running⟩) :
    Safe ⟨⟨body, recovers'⟩ :: ⟨rest, recovers⟩ :: outer, .running⟩ := by
  rcases h with hall | ⟨f, outer', heq, hlone, hshelter⟩
  · have hrest : AllShielded (⟨rest, recovers⟩ :: outer) := by
      refine .cons (fun x hx => ?_) fun g hg => hall.2 g (List.mem_cons_of_mem _ hg)
      exact hall.2 _ List.mem_cons_self x (List.mem_cons_of_mem _ hx)
    cases hall.2 _ List.mem_cons_self _ List.mem_cons_self with
    | lone hlone => exact Or.inr ⟨_, _, rfl, hlone, rfl, Or.inl ⟨rfl, hrest⟩⟩
    | group _ hbody => exact Or.inl (.cons hbody hrest.2)
  · obtain ⟨rfl, rfl⟩ := List.cons.inj heq
    cases hlone with
    | block _ hbody => exact Or.inr ⟨_, _, rfl, hbody, rfl, Or.inr hshelter⟩

/-- A safe thread that returns from a function is safe. -/
private theorem safe_leave {recovers : Bool} {f : Frame κ} {outer : List (Frame κ)}
    (h : Safe ⟨⟨[], recovers⟩ :: f :: outer, .running⟩) : AllShielded (f :: outer) := by
  rcases h with hall | ⟨g, outer', heq, -, hshelter⟩
  · exact ⟨List.cons_ne_nil _ _, fun g hg => hall.2 g (List.mem_cons_of_mem _ hg)⟩
  · obtain ⟨rfl, rfl⟩ := List.cons.inj heq
    exact hshelter.outer

/-- No panic comes through all functions of a safe thread. -/
theorem Safe.not_crashed {t : Thread κ} (h : t.Safe) : ¬ t.Crashed := by
  rintro ⟨hmode, hframes⟩
  simp only [Safe, hmode, hframes] at h
  exact h

variable [DecidableEq κ]

/-- A safe thread stays safe. -/
theorem Safe.step {t : Thread κ} (h : t.Safe) {a : ThreadAct κ} (hg : t.guard a = true) :
    (t.effect a).Safe := by
  obtain ⟨frames, mode⟩ := t
  cases a with
  | begins c =>
      simp only [guard] at hg
      split at hg
      · rename_i c' rest recovers outer
        obtain ⟨rfl, hshelter⟩ := lone_of_call h
        exact hshelter
      · cases hg
  | ends c panicked =>
      simp only [guard, decide_eq_true_eq] at hg
      subst hg
      cases panicked with
      | true => exact h
      | false => exact Or.inl (Sheltered.allShielded h)
  | enter =>
      simp only [guard] at hg
      split at hg
      · exact safe_enter h
      · cases hg
  | leave =>
      simp only [guard] at hg
      split at hg
      · exact Or.inl (safe_leave h)
      · cases hg
  | unwind =>
      simp only [guard] at hg
      split at hg
      · rename_i f outer
        cases hrec : f.recovers with
        | true =>
            simp only [effect, hrec]
            exact Or.inl (Sheltered.outer h)
        | false =>
            simp only [effect, hrec]
            obtain ⟨-, ⟨htrue, -⟩ | houter⟩ := h
            · rw [hrec] at htrue
              cases htrue
            · exact houter
      · cases hg

end Thread

/-! ## The thread without panics -/

/-- The step taken when every call returns. -/
def ThreadAct.calm : ThreadAct κ → ThreadAct κ
  | .ends c _ => .ends c false
  | .unwind => .leave
  | a => a

namespace Thread

/-- The thread at the same place, not in a panic. -/
def calm (t : Thread κ) : Thread κ :=
  match t.mode with
  | .panicking => { t with mode := .running }
  | _ => t

variable [DecidableEq κ]

/-- What a safe thread does is what it does without panics. -/
theorem calm_step {t : Thread κ} (h : t.Safe) {a : ThreadAct κ} (hg : t.guard a = true) :
    t.calm.guard a.calm = true ∧ t.calm.effect a.calm = (t.effect a).calm := by
  obtain ⟨frames, mode⟩ := t
  cases a with
  | begins c | enter | leave =>
      cases mode with
      | running =>
          refine ⟨hg, ?_⟩
          simp only [guard] at hg
          split at hg <;> first | rfl | cases hg
      | _ => cases hg
  | ends c panicked =>
      simp only [guard, decide_eq_true_eq] at hg
      subst hg
      cases panicked <;> exact ⟨by simp [calm, guard, ThreadAct.calm], rfl⟩
  | unwind =>
      simp only [guard] at hg
      split at hg
      · rename_i f outer
        obtain ⟨rest, recovers⟩ := f
        obtain ⟨g, outer', rfl⟩ := List.exists_cons_of_ne_nil (Sheltered.outer h).1
        obtain rfl : rest = [] := h.1
        cases recovers <;> exact ⟨rfl, rfl⟩
      · cases hg

/-- What a safe thread can do without panics it can do. -/
theorem calm_offers {t : Thread κ} (h : t.Safe) {b : ThreadAct κ}
    (hg : t.calm.guard b = true) : ∃ a, a.calm = b.calm ∧ t.guard a = true := by
  obtain ⟨frames, mode⟩ := t
  cases mode with
  | panicking =>
      obtain ⟨f, outer, rfl⟩ := List.exists_cons_of_ne_nil (Sheltered.allShielded h).1
      obtain ⟨rest, recovers⟩ := f
      obtain rfl : rest = [] := h.1
      refine ⟨.unwind, ?_, rfl⟩
      cases b with
      | leave => rfl
      | ends c panicked => simp [calm, guard] at hg
      | _ => cases hg
  | _ => exact ⟨b, rfl, hg⟩

end Thread

/-! ## The calls that are left -/

mutual

/-- The calls of code from outside in a statement, in order. -/
def Stmt.calls : Stmt κ → List κ
  | .call c => [c]
  | .block _ body => Stmt.callsOf body

/-- The calls of code from outside in a list of statements. -/
def Stmt.callsOf : List (Stmt κ) → List κ
  | [] => []
  | x :: rest => x.calls ++ Stmt.callsOf rest

end

/-- A loop makes the calls of its passes. -/
theorem Stmt.callsOf_map {β : Type} (f : β → Stmt κ) (xs : List β) :
    Stmt.callsOf (xs.map f) = xs.flatMap fun x => (f x).calls := by
  induction xs with
  | nil => rfl
  | cons x rest ih => rw [List.map_cons, Stmt.callsOf, List.flatMap_cons, ih]

namespace Thread

/-- The calls a thread has yet to make. -/
def pending (t : Thread κ) : List κ := t.frames.flatMap fun f => Stmt.callsOf f.rest

/-- The call in progress. -/
def current (t : Thread κ) : Option κ :=
  match t.mode with
  | .calling c => some c
  | _ => none

theorem pending_start (body : List (Stmt κ)) : (start body).pending = Stmt.callsOf body := by
  simp [pending, start]

/-- An idle thread has made its calls. -/
theorem pending_of_idle {t : Thread κ} (h : t.idle = true) :
    t.pending = [] ∧ t.current = none := by
  obtain ⟨frames, mode⟩ := t
  simp only [idle] at h
  split at h
  · exact ⟨rfl, rfl⟩
  · cases h

/-- The call that a step makes. -/
def made : ThreadAct κ → List κ
  | .begins c => [c]
  | _ => []

variable [DecidableEq κ]

/-- A safe thread makes its calls in order and skips none. -/
theorem pending_step {t : Thread κ} (h : t.Safe) {a : ThreadAct κ} (hg : t.guard a = true) :
    t.pending = made a ++ (t.effect a).pending := by
  obtain ⟨frames, mode⟩ := t
  cases a with
  | begins c =>
      simp only [guard] at hg
      split at hg
      · obtain rfl := of_decide_eq_true hg
        simp [pending, effect, made, Stmt.callsOf, Stmt.calls]
      · cases hg
  | ends c panicked => rfl
  | enter =>
      simp only [guard] at hg
      split at hg
      · simp [pending, effect, made, Stmt.callsOf, Stmt.calls]
      · cases hg
  | leave =>
      simp only [guard] at hg
      split at hg
      · simp [pending, effect, made, Stmt.callsOf]
      · cases hg
  | unwind =>
      simp only [guard] at hg
      split at hg
      · rename_i f outer
        have hrest : f.rest = [] := h.1
        simp [pending, effect, made, hrest, Stmt.callsOf]
      · cases hg

/-- What a step does to the call in progress. -/
theorem current_step {t : Thread κ} {a : ThreadAct κ} (hg : t.guard a = true) :
    match a with
    | .begins c => t.current = none ∧ (t.effect a).current = some c
    | .ends c _ => t.current = some c ∧ (t.effect a).current = none
    | _ => (t.effect a).current = t.current := by
  obtain ⟨frames, mode⟩ := t
  cases a with
  | begins c =>
      simp only [guard] at hg
      split at hg
      · exact ⟨rfl, rfl⟩
      · cases hg
  | ends c panicked =>
      simp only [guard, decide_eq_true_eq] at hg
      subst hg
      cases panicked <;> exact ⟨rfl, rfl⟩
  | enter =>
      simp only [guard] at hg
      split at hg
      · rfl
      · cases hg
  | leave => rfl
  | unwind =>
      simp only [guard] at hg
      split at hg
      · rename_i f outer
        cases hrec : f.recovers <;> simp [effect, current, hrec]
      · cases hg

end Thread

/-! ## The work that is left -/

mutual

/-- The steps that a statement takes, at most. -/
def Stmt.work : Stmt κ → Nat
  | .call _ => 2
  | .block _ body => Stmt.workOf body + 2

def Stmt.workOf : List (Stmt κ) → Nat
  | [] => 0
  | x :: rest => x.work + Stmt.workOf rest

end

namespace Thread

/-- The steps that a thread takes, at most. -/
def work (t : Thread κ) : Nat :=
  (t.frames.map fun f => Stmt.workOf f.rest + 1).sum + t.current.isSome.toNat

variable [DecidableEq κ]

theorem work_step {t : Thread κ} {a : ThreadAct κ} (hg : t.guard a = true) :
    (t.effect a).work < t.work := by
  obtain ⟨frames, mode⟩ := t
  cases a with
  | begins c =>
      simp only [guard] at hg
      split at hg
      · simp [work, effect, current, Stmt.workOf, Stmt.work]
        omega
      · cases hg
  | ends c panicked =>
      simp only [guard, decide_eq_true_eq] at hg
      subst hg
      cases panicked <;> simp [work, effect, current]
  | enter =>
      simp only [guard] at hg
      split at hg
      · simp [work, effect, current, Stmt.workOf, Stmt.work]
        omega
      · cases hg
  | leave =>
      simp only [guard] at hg
      split at hg
      · simp [work, effect, current]
      · cases hg
  | unwind =>
      simp only [guard] at hg
      split at hg
      · rename_i f outer
        cases hrec : f.recovers <;> simp [work, effect, current, hrec]
      · cases hg

/-- A safe thread goes on until it is idle. -/
theorem Safe.exists_step {t : Thread κ} (h : t.Safe) (hbusy : t.idle = false) :
    ∃ a, t.guard a = true := by
  obtain ⟨frames, mode⟩ := t
  cases mode with
  | calling c => exact ⟨.ends c false, decide_eq_true rfl⟩
  | panicking =>
      obtain ⟨f, outer, rfl⟩ := List.exists_cons_of_ne_nil (Sheltered.allShielded h).1
      exact ⟨.unwind, rfl⟩
  | running =>
      have hne : frames ≠ [] := by
        rcases h with hall | ⟨f, outer, hcons, -⟩
        · exact hall.1
        · have hframes : frames = f :: outer := hcons
          rw [hframes]
          exact List.cons_ne_nil f outer
      obtain ⟨⟨rest, recovers⟩, outer, rfl⟩ := List.exists_cons_of_ne_nil hne
      cases rest with
      | cons x rest =>
          cases x with
          | call c => exact ⟨.begins c, decide_eq_true rfl⟩
          | block recovers' body => exact ⟨.enter, rfl⟩
      | nil =>
          cases outer with
          | nil => cases hbusy
          | cons g outer => exact ⟨.leave, rfl⟩

end Thread

end Shost.Verified
