import Shost.Ports.HostPanics
import Shost.Verified.Refine

/-!
# Reload

`Reload` runs the `OnReload` hooks under `reloadMu`, and is called from any number of
goroutines.  Under `Run` on Unix one of these calls it for each `SIGHUP` that it receives
from a channel with room for one signal; the channel is full while a signal is waiting,
and another signal is then dropped.

## Main results

* `reloads_of_run` — the hooks are called in whole passes, one call of `Reload` after
  the other.
* `hangups_of_run` — no signal is lost: a pass begins after it.
-/

namespace Shost.Ports.Hosting

open Shost.Verified Lts

variable {h : Host} {onReload : List Hook} {τ : List ProcAct} {s : Process h}

/-! ## Passes -/

/-- The hook that a call of `Reload` begins with the action. -/
def ProcAct.begunHook : ProcAct → Option (Nat × Hook)
  | .thread (.reload n) (.begins (.onReload f)) => some (n, f)
  | _ => none

/-- The call of `Reload` that locks `reloadMu`. -/
def ProcAct.lockedBy : ProcAct → Option Nat
  | .reload n .lock => some n
  | _ => none

/-- The hooks that calls of `Reload` have begun. -/
def begunHooks (τ : List ProcAct) : List (Nat × Hook) := τ.filterMap ProcAct.begunHook

/-- The calls of `Reload` that have locked `reloadMu`. -/
def lockers (τ : List ProcAct) : List Nat := τ.filterMap ProcAct.lockedBy

/-- A pass of a call of `Reload` over the hooks. -/
def pass (onReload : List Hook) (n : Nat) : List (Nat × Hook) := onReload.map fun f => (n, f)

/-- The calls of `Reload` take turns: `holder` has the lock, and `left` are the hooks
that it has not begun. -/
structure InTurn (onReload : List Hook) (τ : List ProcAct) (s : Process h)
    (holder : Option Nat) (left : List Hook) : Prop where
  mu : s.reloadMu = holder.isSome
  holding_iff : ∀ n, s.reload n = .holding ↔ holder = some n
  locked_iff : ∀ n, n ∈ lockers τ ↔ s.reload n = .holding ∨ s.reload n = .returned
  nodup : (lockers τ).Nodup
  /-- the others make no calls -/
  outside : ∀ n, holder ≠ some n →
    (s.thread (.reload n)).pending = [] ∧ (s.thread (.reload n)).current = none
  inside : ∀ n, holder = some n →
    (s.thread (.reload n)).pending = left.map Call.onReload
  none_left : holder = none → left = []
  passes : begunHooks τ ++ (holder.elim [] fun n => pass left n) =
    (lockers τ).flatMap (pass onReload)

private theorem InTurn.holder_none {holder : Option Nat} {left : List Hook}
    (hs : InTurn onReload τ s holder left) (hfree : s.reloadMu = false) : holder = none := by
  have hmu := hs.mu
  rw [hfree] at hmu
  exact Option.not_isSome_iff_eq_none.mp (Bool.eq_false_iff.mp hmu.symm)

private theorem begunHooks_snoc (τ : List ProcAct) (a : ProcAct) :
    begunHooks (τ ++ [a]) = begunHooks τ ++ a.begunHook.toList := Trace.filterMap_snoc _ τ a

private theorem lockers_snoc (τ : List ProcAct) (a : ProcAct) :
    lockers (τ ++ [a]) = lockers τ ++ a.lockedBy.toList := Trace.filterMap_snoc _ τ a

/-- A step that begins no hook. -/
private theorem begunHooks_other (τ : List ProcAct) {a : ProcAct} (ha : a.begunHook = none) :
    begunHooks (τ ++ [a]) = begunHooks τ := by
  rw [begunHooks_snoc, ha, Option.toList_none, List.append_nil]

/-- A step that does not lock. -/
private theorem lockers_other (τ : List ProcAct) {a : ProcAct} (ha : a.lockedBy = none) :
    lockers (τ ++ [a]) = lockers τ := by
  rw [lockers_snoc, ha, Option.toList_none, List.append_nil]

/-- A step that is not one of `Reload`. -/
private theorem InTurn.keep {a : ProcAct} {t : Process h} {holder : Option Nat}
    {left : List Hook} (hs : InTurn onReload τ s holder left) (hhook : a.begunHook = none)
    (hlock : a.lockedBy = none) (hreload : t.reload = s.reload) (hmu : t.reloadMu = s.reloadMu)
    (hthread : ∀ n, t.thread (.reload n) = s.thread (.reload n)) :
    InTurn onReload (τ ++ [a]) t holder left := by
  have hbegun := begunHooks_other τ hhook
  have hlockers := lockers_other τ hlock
  constructor
  · rw [hmu, hs.mu]
  · rw [hreload]
    exact hs.holding_iff
  · rw [hlockers, hreload]
    exact hs.locked_iff
  · rw [hlockers]
    exact hs.nodup
  · simp only [hthread]
    exact hs.outside
  · simp only [hthread]
    exact hs.inside
  · exact hs.none_left
  · rw [hbegun, hlockers]
    exact hs.passes

/-- A call of `Reload` comes to a place outside the lock, from another one. -/
private theorem InTurn.call {n : Nat} {holder : Option Nat} {left : List Hook}
    (hs : InTurn onReload τ s holder left) (hat : s.reload n = .unborn) :
    InTurn onReload (τ ++ [.reload n .call]) (s.modReload n .waiting) holder left := by
  have hbegun := begunHooks_other τ (a := .reload n .call) rfl
  have hlockers := lockers_other τ (a := .reload n .call) rfl
  have hplace (m : Nat) : (s.modReload n .waiting).reload m =
      if m = n then .waiting else s.reload m := rfl
  constructor
  · exact hs.mu
  · intro m
    rw [hplace, ← hs.holding_iff]
    by_cases hm : m = n
    · rw [if_pos hm, hm, hat]
      exact ⟨nofun, nofun⟩
    · rw [if_neg hm]
  · intro m
    rw [hlockers, hs.locked_iff, hplace]
    by_cases hm : m = n
    · rw [if_pos hm, hm, hat]
      decide
    · rw [if_neg hm]
  · rw [hlockers]
    exact hs.nodup
  · exact hs.outside
  · exact hs.inside
  · exact hs.none_left
  · rw [hbegun, hlockers]
    exact hs.passes

/-- A call of `Reload` locks `reloadMu`, and has all hooks before it. -/
private theorem InTurn.lock {n : Nat} {holder : Option Nat} {left : List Hook}
    (hs : InTurn onReload τ s holder left) (hat : s.reload n = .waiting)
    (hfree : s.reloadMu = false) :
    InTurn onReload (τ ++ [.reload n .lock]) (s.reloadEffect onReload n .lock) (some n)
      onReload := by
  have hbegun := begunHooks_other τ (a := .reload n .lock) rfl
  have hlockers : lockers (τ ++ [.reload n .lock]) = lockers τ ++ [n] := lockers_snoc τ _
  obtain rfl := hs.holder_none hfree
  have hout : n ∉ lockers τ := by
    rw [hs.locked_iff, hat]
    decide
  have hplace (m : Nat) : (s.reloadEffect onReload n .lock).reload m =
      if m = n then .holding else s.reload m := rfl
  have hthread (m : Nat) : (s.reloadEffect onReload n .lock).thread (.reload m) =
      if m = n then .start [Hosting.runHooksBody .onReload onReload]
      else s.thread (.reload m) := by
    simp [Process.reloadEffect, Process.load, Process.modReload]
  constructor
  · rfl
  · intro m
    rw [hplace]
    by_cases hm : m = n
    · rw [if_pos hm, hm]
      exact ⟨fun _ => rfl, fun _ => rfl⟩
    · rw [if_neg hm, hs.holding_iff]
      exact ⟨fun heq => absurd heq.symm (Option.some_ne_none m),
        fun heq => absurd (Option.some.inj heq).symm hm⟩
  · intro m
    rw [hlockers, hplace]
    by_cases hm : m = n
    · rw [if_pos hm, hm]
      exact ⟨fun _ => Or.inl rfl, fun _ => List.mem_append_right _ (List.mem_singleton_self _)⟩
    · rw [if_neg hm, ← hs.locked_iff]
      simp [hm]
  · rw [hlockers, ← List.concat_eq_append]
    exact List.Nodup.concat hout hs.nodup
  · intro m hm
    rw [hthread, if_neg fun heq => hm (congrArg some heq.symm)]
    exact hs.outside m (Option.some_ne_none m).symm
  · intro m hm
    rw [hthread, if_pos (Option.some.inj hm).symm, Thread.pending_start, Stmt.callsOf,
      Stmt.callsOf, List.append_nil, Hosting.runHooksBody, Stmt.calls, Stmt.callsOf_map,
      List.map_eq_flatMap]
    rfl
  · intro hnone
    cases hnone
  · have hpasses := hs.passes
    rw [Option.elim_none, List.append_nil] at hpasses
    rw [hbegun, hlockers, List.flatMap_append, ← hpasses, List.flatMap_singleton]
    rfl

/-- A call of `Reload` that has called its hooks unlocks `reloadMu`. -/
private theorem InTurn.unlock {n : Nat} {holder : Option Nat} {left : List Hook}
    (hs : InTurn onReload τ s holder left) (hat : s.reload n = .holding)
    (hidle : (s.thread (.reload n)).idle = true) :
    InTurn onReload (τ ++ [.reload n .unlock]) (s.reloadEffect onReload n .unlock) none [] := by
  have hbegun := begunHooks_other τ (a := .reload n .unlock) rfl
  have hlockers := lockers_other τ (a := .reload n .unlock) rfl
  obtain rfl := (hs.holding_iff n).mp hat
  obtain ⟨hpending, hcurrent⟩ := Thread.pending_of_idle hidle
  have hleft : left = [] := by
    have hinside := hs.inside n rfl
    rw [hpending] at hinside
    exact List.map_eq_nil_iff.mp hinside.symm
  have hplace (m : Nat) : (s.reloadEffect onReload n .unlock).reload m =
      if m = n then .returned else s.reload m := rfl
  constructor
  · rfl
  · intro m
    rw [hplace]
    refine ⟨fun hm => ?_, nofun⟩
    by_cases hmn : m = n
    · rw [if_pos hmn] at hm
      cases hm
    · rw [if_neg hmn, hs.holding_iff] at hm
      exact absurd (Option.some.inj hm).symm hmn
  · intro m
    rw [hlockers, hs.locked_iff, hplace]
    by_cases hmn : m = n
    · rw [if_pos hmn, hmn, hat]
      decide
    · rw [if_neg hmn]
  · rw [hlockers]
    exact hs.nodup
  · intro m _
    by_cases hmn : m = n
    · rw [hmn]
      exact ⟨hpending, hcurrent⟩
    · exact hs.outside m fun heq => hmn (Option.some.inj heq).symm
  · nofun
  · exact fun _ => rfl
  · have hpasses := hs.passes
    rw [hleft] at hpasses
    rw [hbegun, hlockers]
    exact hpasses

/-- A call of `Reload` makes a step in its hooks; `left'` are those that it has then not
begun. -/
private theorem InTurn.goOn {n : Nat} {a : ThreadAct Call} {holder : Option Nat}
    {left left' : List Hook} (hs : InTurn onReload τ s holder left)
    (hother : holder ≠ some n → ((s.thread (.reload n)).effect a).pending = [] ∧
      ((s.thread (.reload n)).effect a).current = none ∧ left' = left)
    (hholder : holder = some n →
      ((s.thread (.reload n)).effect a).pending = left'.map Call.onReload)
    (hbegun : begunHooks (τ ++ [.thread (.reload n) a]) ++ (holder.elim [] fun m => pass left' m) =
      begunHooks τ ++ (holder.elim [] fun m => pass left m)) :
    InTurn onReload (τ ++ [.thread (.reload n) a]) (s.threadEffect (.reload n) a) holder
      left' := by
  have hlockers := lockers_other τ (a := .thread (.reload n) a) rfl
  have hthread (m : Nat) : (s.threadEffect (.reload n) a).thread (.reload m) =
      if m = n then (s.thread (.reload n)).effect a else s.thread (.reload m) := by
    simp [Process.threadEffect]
  constructor
  · exact hs.mu
  · exact hs.holding_iff
  · rw [hlockers]
    exact hs.locked_iff
  · rw [hlockers]
    exact hs.nodup
  · intro m hm
    rw [hthread]
    by_cases hmn : m = n
    · rw [hmn] at hm
      rw [if_pos hmn]
      exact ⟨(hother hm).1, (hother hm).2.1⟩
    · rw [if_neg hmn]
      exact hs.outside m hm
  · intro m hm
    rw [hthread]
    by_cases hmn : m = n
    · rw [hmn] at hm
      rw [if_pos hmn]
      exact hholder hm
    · rw [if_neg hmn, (hother fun heq => hmn (Option.some.inj (hm.symm.trans heq))).2.2]
      exact hs.inside m hm
  · intro hnone
    have hnot : holder ≠ some n := fun heq => Option.some_ne_none n (heq.symm.trans hnone)
    rw [(hother hnot).2.2]
    exact hs.none_left hnone
  · rw [hbegun, hlockers]
    exact hs.passes

private theorem InTurn.thread {n : Nat} {a : ThreadAct Call} {holder : Option Nat}
    {left : List Hook} (hs : InTurn onReload τ s holder left) (hsafe : s.Safe)
    (hg : (s.thread (.reload n)).guard a = true) :
    ∃ left', InTurn onReload (τ ++ [.thread (.reload n) a]) (s.threadEffect (.reload n) a)
      holder left' := by
  have hpending := Thread.pending_step (hsafe _) hg
  have hcurrent := Thread.current_step hg
  cases a with
  | begins c =>
      have hmine : holder = some n := by
        by_contra hother
        rw [(hs.outside n hother).1] at hpending
        cases hpending
      have hinside := hs.inside n hmine
      rw [hpending] at hinside
      obtain ⟨f, left', rfl, rfl, hleft'⟩ := List.map_eq_cons_iff.mp hinside.symm
      refine ⟨left', hs.goOn (absurd hmine) (fun _ => hleft'.symm) ?_⟩
      rw [begunHooks_snoc, hmine]
      exact List.append_assoc ..
  | ends c panicked =>
      have hmine : holder = some n := by
        by_contra hother
        rw [(hs.outside n hother).2] at hcurrent
        cases hcurrent.1
      refine ⟨left, hs.goOn (absurd hmine) (fun _ => hpending.symm.trans (hs.inside n hmine)) ?_⟩
      rw [begunHooks_other τ rfl]
  | enter | leave | unwind =>
      refine ⟨left, hs.goOn (fun hother => ?_) (fun hmine => ?_) ?_⟩
      · obtain ⟨hnone, hidle⟩ := hs.outside n hother
        exact ⟨hpending.symm.trans hnone, hcurrent.trans hidle, rfl⟩
      · exact hpending.symm.trans (hs.inside n hmine)
      · rw [begunHooks_other τ rfl]

/-- In every run the calls of `Reload` take turns. -/
private theorem inTurn_of_run (hr : ProcRun h onReload τ s) :
    ∃ holder left, InTurn onReload τ s holder left := by
  refine hr.invariant
    (fun (τ : List ProcAct) (s : Process h) => ∃ holder left, InTurn onReload τ s holder left)
    ⟨none, [], rfl, fun _ => ⟨nofun, nofun⟩, fun _ => ⟨nofun, by rintro (h | h) <;> cases h⟩,
      List.nodup_nil, fun _ _ => ⟨rfl, rfl⟩, nofun, fun _ => rfl, rfl⟩ ?_
  rintro τ s a hr ⟨holder, left, hs⟩ - hg
  cases a with
  | base b =>
      refine ⟨holder, left, hs.keep rfl rfl ?_ ?_ ?_⟩ <;> cases b <;> intros <;> rfl
  | thread g a =>
      cases g with
      | host => exact ⟨holder, left, hs.keep rfl rfl rfl rfl fun _ => rfl⟩
      | sup i => exact ⟨holder, left, hs.keep rfl rfl rfl rfl fun _ => rfl⟩
      | reload n => exact ⟨holder, hs.thread (safe_of_run hr) hg⟩
  | reload n a =>
      cases a with
      | call => exact ⟨holder, left, hs.call (of_decide_eq_true hg)⟩
      | lock =>
          obtain ⟨hat, hfree⟩ := (of_decide_eq_true hg : s.reload n = .waiting ∧ _)
          exact ⟨some n, onReload, hs.lock hat hfree⟩
      | unlock =>
          obtain ⟨hat, hidle⟩ := Bool.and_eq_true_iff.mp hg
          exact ⟨none, [], hs.unlock (of_decide_eq_true hat) hidle⟩

/-- An action of the goroutine that is in a call of `Reload`. -/
def ProcAct.ofReload (n : Nat) : ProcAct → Bool
  | .reload m _ => m == n
  | .thread (.reload m) _ => m == n
  | _ => false

/-- What holds of the calls of `Reload`. -/
structure Reloads (onReload : List Hook) (τ : List ProcAct) (s : Process h) : Prop where
  /-- hooks are called in whole passes, the last of which may be under way -/
  passes : ∃ left, begunHooks τ ++ left = (lockers τ).flatMap (pass onReload) ∧
    (s.reloadMu = false → left = [])
  /-- there is one pass for each call -/
  once : (lockers τ).Nodup
  /-- and it is complete when the call returns, also if hooks have panicked -/
  complete : ∀ n, s.reload n = .returned →
    (begunHooks τ).filter (fun p => p.1 == n) = pass onReload n
  /-- no two hooks run at a time -/
  alone : ∀ n m, (s.thread (.reload n)).current.isSome = true →
    (s.thread (.reload m)).current.isSome = true → n = m
  /-- the call that has the lock is not blocked -/
  unblocked : ∀ n, s.reload n = .holding →
    ∃ a : ProcAct, a.ofReload n = true ∧ (process h onReload).guard s a = true

/-- The hooks of one call among those of several passes. -/
private theorem filter_passes (onReload : List Hook) (n : Nat) (ms : List Nat) :
    (ms.flatMap (pass onReload)).filter (fun p => p.1 == n) =
      (ms.filter (· == n)).flatMap (pass onReload) := by
  induction ms with
  | nil => rfl
  | cons m rest ih =>
      rw [List.flatMap_cons, List.filter_append, ih, List.filter_cons]
      by_cases hm : m = n
      · have hall : (pass onReload m).filter (fun p => p.1 == n) = pass onReload m := by
          simp [pass, hm]
        rw [hall, if_pos (beq_iff_eq.mpr hm), List.flatMap_cons]
      · have hnone : (pass onReload m).filter (fun p => p.1 == n) = [] := by
          simp [pass, hm]
        rw [hnone, if_neg (by simpa using hm), List.nil_append]

/-- The call that has the lock goes on. -/
private theorem holder_step (hsafe : s.Safe) {n : Nat} (hat : s.reload n = .holding) :
    ∃ a : ProcAct, a.ofReload n = true ∧ (process h onReload).guard s a = true := by
  cases hidle : (s.thread (.reload n)).idle with
  | true =>
      refine ⟨.reload n .unlock, beq_self_eq_true n, ?_⟩
      show (decide (s.reload n = .holding) && (s.thread (.reload n)).idle) = true
      rw [hat, hidle]
      rfl
  | false =>
      obtain ⟨a, ha⟩ := (hsafe (.reload n)).exists_step hidle
      exact ⟨.thread (.reload n) a, beq_self_eq_true n, ha⟩

/-- A call that has returned has called every hook once, in order. -/
private theorem pass_of_returned (hr : ProcRun h onReload τ s) {n : Nat}
    (hat : s.reload n = .returned) :
    (begunHooks τ).filter (fun p => p.1 == n) = pass onReload n := by
  obtain ⟨holder, left, hs⟩ := inTurn_of_run hr
  have hcount := List.count_eq_one_of_mem hs.nodup ((hs.locked_iff n).mpr (Or.inr hat))
  have hothers : (holder.elim [] fun m => pass left m).filter (fun p => p.1 == n) = [] := by
    cases hholder : holder with
    | none => rfl
    | some m =>
        have hm : m ≠ n := by
          rintro rfl
          rw [(hs.holding_iff m).mpr hholder] at hat
          cases hat
        simp [pass, hm]
  have hfilter := congrArg (List.filter fun p => p.1 == n) hs.passes
  rwa [List.filter_append, hothers, List.append_nil, filter_passes, List.filter_beq, hcount,
    List.replicate_one, List.flatMap_singleton] at hfilter

theorem reloads_of_run (hr : ProcRun h onReload τ s) : Reloads onReload τ s := by
  obtain ⟨holder, left, hs⟩ := inTurn_of_run hr
  refine ⟨⟨_, hs.passes, fun hfree => ?_⟩, hs.nodup, fun n hat => pass_of_returned hr hat,
    fun n m hn hm => ?_, fun n hat => holder_step (safe_of_run hr) hat⟩
  · rw [hs.holder_none hfree, Option.elim_none]
  · have hholds (k : Nat) (hk : (s.thread (.reload k)).current.isSome = true) :
        holder = some k := by
      by_contra hnot
      rw [(hs.outside k hnot).2] at hk
      cases hk
    exact Option.some.inj ((hholds n hn).symm.trans (hholds m hm))

/-- Two calls of `Reload`, one hook of which panics. -/
def reloadingRun : List ProcAct :=
  [.reload 0 .call, .reload 1 .call, .reload 0 .lock, .thread (.reload 0) .enter,
    .thread (.reload 0) .enter, .thread (.reload 0) (.begins (.onReload ⟨2⟩)),
    .thread (.reload 0) (.ends (.onReload ⟨2⟩) true), .thread (.reload 0) .unwind,
    .thread (.reload 0) .enter, .thread (.reload 0) (.begins (.onReload ⟨3⟩)),
    .thread (.reload 0) (.ends (.onReload ⟨3⟩) false), .thread (.reload 0) .leave,
    .thread (.reload 0) .leave, .reload 0 .unlock, .reload 1 .lock]

theorem reloads_reloadingRun :
    Reloads [⟨2⟩, ⟨3⟩] reloadingRun
      ((process hookHost [⟨2⟩, ⟨3⟩]).after (Process.init hookHost) reloadingRun) :=
  reloads_of_run (Lts.Admits.run (by decide))

/-! ## SIGHUP -/

/-- The place of the goroutine that `notifyReloadSignal` starts. -/
inductive ListenPC where
  | selecting
  /-- in a call of `Reload` -/
  | reloading (n : Nat)
  | ended
  deriving DecidableEq

/-- The process of `Run`: that of `RunContext`, with what `notifyReloadSignal` has set up
before it. -/
structure Listening (h : Host) where
  proc : Process h
  /-- signals are relayed to the channel -/
  relays : Bool
  /-- a signal is in the channel -/
  pending : Bool
  done : Bool
  pc : ListenPC

def Listening.init (h : Host) : Listening h where
  proc := .init h
  relays := true
  pending := false
  done := false
  pc := .selecting

/-- Steps of the process, the arrival of a signal, the goroutine, and the function that
`notifyReloadSignal` has returned. -/
inductive HupAct where
  | proc (a : ProcAct)
  | signal
  | takeSignal (n : Nat)
  | resume (n : Nat)
  | takeDone
  | stopSignal
  | closeDone
  deriving DecidableEq

/-- `Run` with its hooks for `Reload`. -/
def listening (h : Host) (onReload : List Hook) : Lts (Listening h) HupAct where
  guard s
    | .proc a => (process h onReload).guard s.proc a
    | .signal => s.relays
    | .takeSignal n => decide (s.pc = .selecting ∧ s.pending = true ∧ s.proc.reload n = .unborn)
    | .resume n => decide (s.pc = .reloading n ∧ s.proc.reload n = .returned)
    | .takeDone => decide (s.pc = .selecting) && s.done
    -- deferred by `Run`
    | .stopSignal =>
        s.relays && decide (s.proc.base.pc = .returned) && (s.proc.thread .host).idle
    | .closeDone => !s.relays && !s.done
  effect s
    | .proc a => { s with proc := (process h onReload).effect s.proc a }
    -- dropped when the channel is full
    | .signal => { s with pending := true }
    | .takeSignal n =>
        { s with
          proc := (process h onReload).effect s.proc (.reload n .call)
          pending := false
          pc := .reloading n }
    | .resume _ => { s with pc := .selecting }
    | .takeDone => { s with pc := .ended }
    | .stopSignal => { s with relays := false }
    | .closeDone => { s with done := true }

abbrev HupRun (h : Host) (onReload : List Hook) (τ : List HupAct) (s : Listening h) : Prop :=
  (listening h onReload).Runs (Listening.init h) τ s

/-- The step of the process. -/
def HupAct.visible : HupAct → Option ProcAct
  | .proc a => some a
  | .takeSignal n => some (.reload n .call)
  | _ => none

def HupAct.takes : HupAct → Bool
  | .takeSignal _ => true
  | _ => false

/-- A step of the goroutine or of a call of `Reload`. -/
def HupAct.ofReload : HupAct → Bool
  | .proc (.reload _ _) | .proc (.thread (.reload _) _) | .takeSignal _ | .resume _ => true
  | _ => false

/-- The place that a step of `Reload` comes to. -/
def ReloadAct.place : ReloadAct → ReloadPC
  | .call => .waiting
  | .lock => .holding
  | .unlock => .returned

private theorem reload_effect (s : Process h) (a : ProcAct) (n : Nat) :
    ((process h onReload).effect s a).reload n =
      match a with
      | .reload m b => if n = m then b.place else s.reload n
      | _ => s.reload n := by
  cases a with
  | reload m b => cases b <;> rfl
  | base b => cases b <;> rfl
  | thread g b => rfl

/-- A call that has returned stays there, and one that was made is not unmade. -/
private theorem reload_keeps {a : ProcAct} (hg : (process h onReload).guard s a = true) (n : Nat) :
    (s.reload n = .returned → ((process h onReload).effect s a).reload n = .returned) ∧
      (s.reload n ≠ .unborn → ((process h onReload).effect s a).reload n ≠ .unborn) := by
  rw [reload_effect]
  cases a with
  | base b | thread g b => exact ⟨id, id⟩
  | reload m b =>
      by_cases hm : n = m
      · subst hm
        simp only [↓reduceIte]
        refine ⟨fun hat => ?_, fun _ => by cases b <;> decide⟩
        cases b with
        | unlock => rfl
        | call =>
            have hfrom : s.reload n = .unborn := of_decide_eq_true hg
            rw [hat] at hfrom
            cases hfrom
        | lock =>
            have hfrom := (of_decide_eq_true hg : s.reload n = .waiting ∧ _).1
            rw [hat] at hfrom
            cases hfrom
      · simp only [if_neg hm]
        exact ⟨id, id⟩

/-- There is a call that has not been made. -/
private theorem unborn_of_run (hr : ProcRun h onReload τ s) : ∃ n, s.reload n = .unborn := by
  suffices hbound : ∃ bound, ∀ n, bound ≤ n → s.reload n = .unborn by
    obtain ⟨bound, hafter⟩ := hbound
    exact ⟨bound, hafter bound le_rfl⟩
  refine hr.invariant
    (fun (_ : List ProcAct) (s : Process h) => ∃ bound, ∀ n, bound ≤ n → s.reload n = .unborn)
    ⟨0, fun _ _ => rfl⟩ ?_
  rintro τ s a - ⟨bound, hafter⟩ - -
  cases a with
  | base b | thread g b =>
      refine ⟨bound, fun n hn => ?_⟩
      rw [reload_effect]
      exact hafter n hn
  | reload m b =>
      refine ⟨max bound (m + 1), fun n hn => ?_⟩
      have hne : n ≠ m := by omega
      rw [reload_effect]
      simp only [if_neg hne]
      exact hafter n (by omega)

section

variable {τ : List HupAct} {s : Listening h}

/-- A run of `Run` is one of the process. -/
theorem proc_of_hup (hr : HupRun h onReload τ s) :
    ProcRun h onReload (τ.filterMap HupAct.visible) s.proc := by
  refine hr.refines (N := process h onReload) Listening.proc HupAct.visible ?_
  intro τ s a _ _ hg
  cases a with
  | proc a => exact .takes hg
  | takeSignal n => exact .takes (decide_eq_true (of_decide_eq_true hg : _ ∧ _ ∧ _).2.2)
  | _ => exact .stays

/-- What holds of the signals. -/
structure Hangups (h : Host) (onReload : List Hook) (τ : List HupAct) (s : Listening h) :
    Prop where
  /-- a signal is waiting, or a call of `Reload` was made for it and those before it -/
  not_lost : ∀ pre post, τ = pre ++ .signal :: post →
    s.pending = true ∨ ∃ a ∈ post, a.takes = true
  /-- no call is made without one -/
  bounded : τ.countP HupAct.takes + s.pending.toNat ≤ τ.count .signal
  /-- when the goroutine is back from a call, all hooks have been called -/
  complete : ∀ n, .takeSignal n ∈ τ → s.pc ≠ .reloading n →
    (begunHooks (τ.filterMap HupAct.visible)).filter (fun p => p.1 == n) = pass onReload n
  /-- after `Run` has returned at most one signal is taken -/
  after_stop : ∀ pre post, τ = pre ++ .stopSignal :: post → post.countP HupAct.takes ≤ 1
  /-- a waiting signal can be taken, after the calls of `Reload` that are under way and
  without a step of anything else -/
  served : s.pending = true → s.pc ≠ .ended → ∃ post s', (listening h onReload).Runs s post s' ∧
    (∀ a ∈ post, a.ofReload = true) ∧ ∃ a ∈ post, a.takes = true

/-- What the goroutine has taken it has reloaded for, or does so. -/
private theorem taken_of_run (hr : HupRun h onReload τ s) :
    (∀ n, .takeSignal n ∈ τ → s.proc.reload n = .returned ∨ s.pc = .reloading n) ∧
      ∀ n, s.pc = .reloading n → s.proc.reload n ≠ .unborn := by
  refine hr.invariant (fun (τ : List HupAct) (s : Listening h) =>
    (∀ n, .takeSignal n ∈ τ → s.proc.reload n = .returned ∨ s.pc = .reloading n) ∧
      ∀ n, s.pc = .reloading n → s.proc.reload n ≠ .unborn) ⟨nofun, nofun⟩ ?_
  rintro τ s a - ⟨htaken, hborn⟩ - hg
  cases a with
  | proc a =>
      refine ⟨fun n hn => ?_, fun n hn => (reload_keeps hg n).2 (hborn n hn)⟩
      have hbefore : .takeSignal n ∈ τ := by simpa using hn
      exact (htaken n hbefore).imp_left (reload_keeps hg n).1
  | takeSignal m =>
      obtain ⟨hpc, -, hunborn⟩ := (of_decide_eq_true hg : s.pc = .selecting ∧ _ ∧ _)
      refine ⟨fun n hn => ?_, ?_⟩
      · by_cases hnm : n = m
        · rw [hnm]
          exact Or.inr rfl
        · have hbefore : .takeSignal n ∈ τ := by simpa [hnm] using hn
          rcases htaken n hbefore with hat | hat
          · refine Or.inl ?_
            show ((process h onReload).effect s.proc (.reload m .call)).reload n = .returned
            rw [reload_effect]
            simp only [if_neg hnm]
            exact hat
          · rw [hpc] at hat
            cases hat
      · rintro n hn
        obtain rfl := ListenPC.reloading.inj hn
        show ((process h onReload).effect s.proc (.reload m .call)).reload m ≠ .unborn
        rw [reload_effect]
        simp [ReloadAct.place]
  | resume m =>
      obtain ⟨hpc, hat⟩ := (of_decide_eq_true hg : s.pc = .reloading m ∧ _)
      refine ⟨fun n hn => Or.inl ?_, nofun⟩
      have hbefore : .takeSignal n ∈ τ := by simpa using hn
      rcases htaken n hbefore with hdone | hdoing
      · exact hdone
      · rw [hpc] at hdoing
        exact ListenPC.reloading.inj hdoing ▸ hat
  | takeDone =>
      have hpc : s.pc = .selecting := of_decide_eq_true (Bool.and_eq_true_iff.mp hg).1
      refine ⟨fun n hn => Or.inl ?_, nofun⟩
      have hbefore : .takeSignal n ∈ τ := by simpa using hn
      rcases htaken n hbefore with hdone | hdoing
      · exact hdone
      · rw [hpc] at hdoing
        cases hdoing
  | signal | stopSignal | closeDone =>
      exact ⟨fun n hn => htaken n (by simpa using hn), hborn⟩

/-- A signal that is waiting stays until it is taken. -/
private theorem waits_until_taken {s₁ : Listening h} (hs : s₁.pending = true)
    (hr : (listening h onReload).Runs s₁ τ s) :
    s.pending = true ∨ ∃ a ∈ τ, a.takes = true := by
  refine hr.invariant (fun τ s => s.pending = true ∨ ∃ a ∈ τ, a.takes = true) (Or.inl hs) ?_
  rintro τ s a - ih - -
  rcases ih with hpending | ⟨b, hb, htakes⟩
  · cases a with
    | takeSignal n =>
        exact Or.inr ⟨.takeSignal n, List.mem_append_right _ (List.mem_singleton_self _), rfl⟩
    | signal => exact Or.inl rfl
    | _ => exact Or.inl hpending
  · exact Or.inr ⟨b, List.mem_append_left _ hb, htakes⟩

private theorem takes_le_signals (hr : HupRun h onReload τ s) :
    τ.countP HupAct.takes + s.pending.toNat ≤ τ.count .signal := by
  refine hr.invariant
    (fun τ (s : Listening h) => τ.countP HupAct.takes + s.pending.toNat ≤ τ.count .signal)
    (Nat.le_refl _) ?_
  rintro τ s a - ih - hg
  rw [List.countP_append, List.count_append]
  cases a with
  | signal =>
      show τ.countP HupAct.takes + 0 + 1 ≤ τ.count .signal + 1
      omega
  | takeSignal n =>
      have hpending := (of_decide_eq_true hg : _ ∧ s.pending = true ∧ _).2.1
      rw [hpending, Bool.toNat_true] at ih
      exact ih
  | _ => exact ih

/-- Without the relay only the signal that is waiting is taken. -/
private theorem takes_after_stop {s₁ : Listening h} (hs : s₁.relays = false)
    (hr : (listening h onReload).Runs s₁ τ s) : τ.countP HupAct.takes ≤ 1 := by
  suffices hcount : s.relays = false ∧
      τ.countP HupAct.takes + s.pending.toNat ≤ s₁.pending.toNat by
    have hone := Bool.toNat_le s₁.pending
    omega
  refine hr.invariant (fun τ (s : Listening h) => s.relays = false ∧
    τ.countP HupAct.takes + s.pending.toNat ≤ s₁.pending.toNat)
    ⟨hs, Nat.le_of_eq (Nat.zero_add _)⟩ ?_
  rintro τ s a - ⟨hoff, ih⟩ - hg
  rw [List.countP_append]
  cases a with
  | signal =>
      have hon : s.relays = true := hg
      rw [hoff] at hon
      cases hon
  | takeSignal n =>
      have hpending := (of_decide_eq_true hg : _ ∧ s.pending = true ∧ _).2.1
      rw [hpending, Bool.toNat_true] at ih
      exact ⟨hoff, ih⟩
  | stopSignal => exact ⟨rfl, ih⟩
  | _ => exact ⟨hoff, ih⟩

/-- The call of `Reload` that has the lock comes to its end. -/
private theorem finish_holder (hr : HupRun h onReload τ s) {m : Nat}
    (hat : s.proc.reload m = .holding) :
    ∃ post s', (listening h onReload).Runs s post s' ∧ (∀ a ∈ post, a.ofReload = true) ∧
      s'.proc.reload m = .returned ∧ s'.proc.reloadMu = false ∧ s'.pc = s.pc ∧
      s'.pending = s.pending ∧ ∀ k, k ≠ m → s'.proc.reload k = s.proc.reload k := by
  refine reaches_of_rank
    (P := fun t => (∃ τ, HupRun h onReload τ t) ∧ t.proc.reload m = .holding ∧ t.pc = s.pc ∧
      t.pending = s.pending ∧ ∀ k, k ≠ m → t.proc.reload k = s.proc.reload k)
    (fun t => (t.proc.thread (.reload m)).work) ?_ s ⟨⟨τ, hr⟩, hat, rfl, rfl, fun _ _ => rfl⟩
  rintro t ⟨⟨τ', hrt⟩, hat, hpc, hpending, hrest⟩
  cases hidle : (t.proc.thread (.reload m)).idle with
  | true =>
      refine ⟨.proc (.reload m .unlock), rfl, trivial, ?_, Or.inl ⟨if_pos rfl, rfl, hpc, hpending,
        fun k hk => ?_⟩⟩
      · show (decide (t.proc.reload m = .holding) && (t.proc.thread (.reload m)).idle) = true
        rw [hat, hidle]
        rfl
      · rw [← hrest k hk]
        exact if_neg hk
  | false =>
      have hsafe := safe_of_run (proc_of_hup hrt)
      obtain ⟨a, ha⟩ := (hsafe (.reload m)).exists_step hidle
      have hg : (listening h onReload).guard t (.proc (.thread (.reload m) a)) = true := ha
      have hself : (t.proc.threadEffect (.reload m) a).thread (.reload m) =
          (t.proc.thread (.reload m)).effect a := if_pos rfl
      refine ⟨_, rfl, trivial, hg,
        Or.inr ⟨⟨⟨_, hrt.snoc trivial hg⟩, hat, hpc, hpending, hrest⟩, ?_⟩⟩
      show ((t.proc.threadEffect (.reload m) a).thread (.reload m)).work < _
      rw [hself]
      exact Thread.work_step ha

/-- A call of `Reload` that waits for the lock, which is free, comes to its end. -/
private theorem finish_waiting (hr : HupRun h onReload τ s) {n : Nat}
    (hat : s.proc.reload n = .waiting) (hfree : s.proc.reloadMu = false) :
    ∃ post s', (listening h onReload).Runs s post s' ∧ (∀ a ∈ post, a.ofReload = true) ∧
      s'.proc.reload n = .returned ∧ s'.pc = s.pc ∧ s'.pending = s.pending := by
  have hg : (listening h onReload).guard s (.proc (.reload n .lock)) = true :=
    decide_eq_true ⟨hat, hfree⟩
  have hat' : ((listening h onReload).effect s (.proc (.reload n .lock))).proc.reload n =
      .holding := if_pos rfl
  obtain ⟨post, s', hpost, hof, hdone, -, hpc, hpending, -⟩ :=
    finish_holder (hr.snoc trivial hg) hat'
  have hfirst : (listening h onReload).Runs s [.proc (.reload n .lock)] _ := .snoc .nil trivial hg
  refine ⟨_, s', hfirst.trans hpost, fun a ha => ?_, hdone, hpc, hpending⟩
  rcases List.mem_cons.mp ha with rfl | ha
  · rfl
  · exact hof a ha

/-- The call of `Reload` that the goroutine is in comes to its end. -/
private theorem finish_call (hr : HupRun h onReload τ s) {n : Nat} (hpc : s.pc = .reloading n) :
    ∃ post s', (listening h onReload).Runs s post s' ∧ (∀ a ∈ post, a.ofReload = true) ∧
      s'.proc.reload n = .returned ∧ s'.pc = s.pc ∧ s'.pending = s.pending := by
  cases hat : s.proc.reload n with
  | unborn => exact absurd hat ((taken_of_run hr).2 n hpc)
  | returned => exact ⟨[], s, .nil, nofun, hat, rfl, rfl⟩
  | holding =>
      obtain ⟨post, s', hpost, hof, hdone, -, hsame⟩ := finish_holder hr hat
      exact ⟨post, s', hpost, hof, hdone, hsame.1, hsame.2.1⟩
  | waiting =>
      obtain ⟨holder, left, hturn⟩ := inTurn_of_run (proc_of_hup hr)
      cases hholder : holder with
      | none =>
          have hfree : s.proc.reloadMu = false := by rw [hturn.mu, hholder]; rfl
          exact finish_waiting hr hat hfree
      | some m =>
          have hholds := (hturn.holding_iff m).mpr hholder
          have hne : n ≠ m := by
            rintro rfl
            rw [hat] at hholds
            cases hholds
          -- first the call that has the lock, then this one
          obtain ⟨pre, t, hpre, hofPre, -, hfree, hpcPre, hpendingPre, hrest⟩ :=
            finish_holder hr hholds
          obtain ⟨post, s', hpost, hofPost, hdone, hpcPost, hpendingPost⟩ :=
            finish_waiting (hr.trans hpre) ((hrest n hne).trans hat) hfree
          refine ⟨pre ++ post, s', hpre.trans hpost, fun a ha => ?_, hdone,
            hpcPost.trans hpcPre, hpendingPost.trans hpendingPre⟩
          exact (List.mem_append.mp ha).elim (hofPre a) (hofPost a)

/-- A signal that is waiting is taken by the goroutine in its select. -/
private theorem take_signal (hr : HupRun h onReload τ s) (hpc : s.pc = .selecting)
    (hpending : s.pending = true) :
    ∃ post s', (listening h onReload).Runs s post s' ∧ (∀ a ∈ post, a.ofReload = true) ∧
      ∃ a ∈ post, a.takes = true := by
  obtain ⟨n, hunborn⟩ := unborn_of_run (proc_of_hup hr)
  have hg : (listening h onReload).guard s (.takeSignal n) = true :=
    decide_eq_true ⟨hpc, hpending, hunborn⟩
  refine ⟨[.takeSignal n], _, .snoc .nil trivial hg, fun a ha => ?_, .takeSignal n,
    List.mem_singleton_self _, rfl⟩
  rw [List.mem_singleton.mp ha]
  rfl

theorem hangups_of_run (hr : HupRun h onReload τ s) : Hangups h onReload τ s where
  not_lost := by
    rintro pre post rfl
    obtain ⟨s₁, -, -, -, hpost⟩ := hr.split
    exact waits_until_taken rfl hpost
  bounded := takes_le_signals hr
  complete := by
    intro n htaken hpc
    have hat := ((taken_of_run hr).1 n htaken).resolve_right hpc
    exact pass_of_returned (proc_of_hup hr) hat
  after_stop := by
    rintro pre post rfl
    obtain ⟨s₁, -, -, -, hpost⟩ := hr.split
    exact takes_after_stop rfl hpost
  served := by
    intro hpending hopen
    cases hpc : s.pc with
    | ended => exact absurd hpc hopen
    | selecting => exact take_signal hr hpc hpending
    | reloading n =>
        obtain ⟨pre, t, hpre, hofPre, hdone, hpcPre, hpendingPre⟩ := finish_call hr hpc
        have hg : (listening h onReload).guard t (.resume n) = true :=
          decide_eq_true ⟨hpcPre.trans hpc, hdone⟩
        have hback := hpre.snoc trivial hg
        obtain ⟨post, s', hpost, hofPost, a, ha, htakes⟩ :=
          take_signal (hr.trans hback) rfl (hpendingPre.trans hpending)
        refine ⟨_, s', hback.trans hpost, fun b hb => ?_, a, List.mem_append_right _ ha, htakes⟩
        rcases List.mem_append.mp hb with hb | hb
        · rcases List.mem_append.mp hb with hb | hb
          · exact hofPre b hb
          · rw [List.mem_singleton.mp hb]
            rfl
        · exact hofPost b hb

end

/-- Three signals, the last two of which come during a call of `Reload`. -/
def hangupRun : List HupAct :=
  [.signal, .takeSignal 0, .proc (.reload 0 .lock), .signal, .proc (.thread (.reload 0) .enter),
    .proc (.thread (.reload 0) .leave), .signal, .proc (.reload 0 .unlock)]

theorem hangups_hangupRun :
    Hangups hookHost [] hangupRun
      ((listening hookHost []).after (Listening.init hookHost) hangupRun) :=
  hangups_of_run (Lts.Admits.run (by decide))

end Shost.Ports.Hosting
