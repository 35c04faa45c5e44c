import Shost.Ports.HostBuilder
import Shost.Ports.HostHooks
import Shost.Ports.HostStartTimer

/-!
# Hosts under test

`shosttest.Start` runs a host in a goroutine of its own, waits for a channel that a hook of
`OnStarted` closes, and registers a cleanup.  The result of `RunContext` goes through `done`,
a channel with room for one value: `Start`, the cleanup and every call of `Wait` or `Stop`
may receive it, and put it back for the others.

Which of two channels a `select` takes when both are ready is open, and any number of calls
may be in progress at once.

## Main results

* `custody_of_run` — the result is in one place: the channel or the hands of one receiver.
* `reports_of_run` — what `Start`, `Wait` and `Stop` tell a test, and that every call can
  get the result.
-/

namespace Shost.Ports.Testing

open Shost.Verified Lts Beside Trace Hosting Building

/-- `DefaultTimeout`: 10 seconds. -/
def defaultTimeout : Duration := 10000000000

/-- What `Start` makes of the builder; the hook is `close(started)`. -/
def buildForTest (closeStarted : Hook) (b : Builder) : Except (List ConfigError) BuiltHost :=
  (b.addOnStarted (some closeStarted)).build

/-! ## The calls of a test -/

/-- A call that receives from `done`.  A call of `Wait` or `Stop` has a number. -/
inductive Receiver where
  | start
  | cleanup
  | wait (n : Nat)
  deriving DecidableEq

/-- The place of such a call.  The result of `RunContext` is kept as the errors that it
joins. -/
inductive Place where
  | idle
  /-- inside `host.Shutdown` -/
  | shutdown
  /-- before the select -/
  | entering
  | selecting (due : Int)
  /-- before `h.done <- err` -/
  | holding (errs : List HostError)
  /-- behind the select, with a result -/
  | got (errs : List HostError)
  /-- `Start` has seen `started` closed, registered the cleanup and returned -/
  | started
  | timedOut
  deriving DecidableEq

def Place.due? : Place → Option Int
  | .selecting due => some due
  | _ => none

def Place.held? : Place → Option (List HostError)
  | .holding errs => some errs
  | _ => none

structure State where
  /-- the goroutine that calls `RunContext` has been started -/
  running : Bool
  /-- `started` is closed -/
  started : Bool
  course : Course Unit
  /-- the last `close(started)` has panicked -/
  panicked : Bool
  /-- the goroutine has sent its result -/
  sent : Bool
  done : Chan (List HostError) 1
  place : Receiver → Place

def State.init : State where
  running := false
  started := false
  course := .idle
  panicked := false
  sent := false
  done := .empty
  place := fun _ => .idle

inductive Act where
  /-- `Start` up to its select -/
  | start
  | wait (n : Nat)
  | stop (n : Nat)
  | cleanup
  /-- `host.Shutdown` returns -/
  | shut (r : Receiver)
  | enter (r : Receiver) (due : Int)
  | takeStarted
  | take (r : Receiver) (errs : List HostError)
  | put (r : Receiver) (errs : List HostError)
  | timeout (r : Receiver)
  /-- the goroutine sends what `RunContext` has returned -/
  | send (errs : List HostError)
  | hook (a : CourseAct Unit)
  deriving DecidableEq

def State.move (t : State) (r : Receiver) (p : Place) : State :=
  { t with place := fun r' => if r' = r then p else t.place r' }

def guard (t : State) : Act → Bool
  | .start => decide (t.place .start = .idle)
  | .wait n | .stop n => decide (t.place .start = .started ∧ t.place (.wait n) = .idle)
  | .cleanup => decide (t.place .start = .started ∧ t.place .cleanup = .idle)
  | .shut r => decide (t.place r = .shutdown)
  | .enter r _ => decide (t.place r = .entering)
  | .takeStarted => (t.place .start).due?.isSome && t.started
  | .take r errs => (t.place r).due?.isSome && decide (t.done.next = some errs)
  | .put r errs => decide (t.place r = .holding errs) && t.done.hasRoom
  | .timeout r => (t.place r).due?.isSome
  | .send _ => t.running && !t.sent && t.done.hasRoom
  | .hook a => t.course.allows a &&
      match a with
      | .ends _ panicked => decide (panicked = t.panicked)
      | _ => true

def effect (t : State) : Act → State
  | .start => { t.move .start .entering with running := true }
  | .wait n => t.move (.wait n) .entering
  | .stop n => t.move (.wait n) .shutdown
  | .cleanup => t.move .cleanup .shutdown
  | .shut r => t.move r .entering
  | .enter r due => t.move r (.selecting due)
  | .takeStarted => t.move .start .started
  | .take r errs => { t.move r (.holding errs) with done := t.done.drop }
  | .put r errs => { t.move r (.got errs) with done := t.done.send errs }
  | .timeout r => t.move r .timedOut
  | .send errs => { t with sent := true, done := t.done.send errs }
  | .hook (.does n) =>
      { t with course := t.course.next (.does n), started := true, panicked := t.started }
  | .hook a => { t with course := t.course.next a }

/-- The functions of the package, with the hook as the host calls it. -/
def harness : Listener Unit State Act where
  system := { guard := guard, effect := effect }
  init := .init
  act
    | .hook a => some a
    | _ => none
  course := State.course
  course_init := rfl
  keeps := by
    intro t b hg
    cases b with
    | hook a =>
        refine .of_effect (Bool.and_eq_true_iff.mp hg).1 ?_
        cases a <;> rfl
    | _ => exact .stays

/-! ## With the host -/

def closes (closeStarted : Hook) : HookKind → Hook → Option Unit
  | .onStarted, f => if f = closeStarted then some () else none
  | _, _ => none

variable {h : Host} {σ α : Type} {E : Setting h σ α} {f : Hook}
  {τ : List (Beside α Act)} {s : σ × State}

/-- What a step waits for on the other side.  `RunContext` is called by the goroutine with a
context that is never done. -/
def may (E : Setting h σ α) (s : σ × State) : Beside α Act → Bool
  | .left a =>
      match E.host? a with
      | some (.host (.run .enter)) => s.2.running
      | some (.env (.cancelCtx _)) => false
      | _ => true
  | .right (.shut _) => (E.state s.1).shutdownCh
  | .right (.enter _ due) => decide (due = (E.state s.1).now + defaultTimeout)
  | .right (.timeout r) => (s.2.place r).due?.any fun due => due ≤ (E.state s.1).now
  | .right (.send errs) =>
      decide ((E.state s.1).pc = .returned ∧ errs = (E.state s.1).errs)
  | _ => true

/-- A host that runs inside a test. -/
def underTest (E : Setting h σ α) (closeStarted : Hook) : Lts (σ × State) (Beside α Act) :=
  E.system.beside harness.system (fun _ a => (E.host? a).bind (Action.notice (closes closeStarted)))
    (fun _ b => (harness.act b).bind CourseAct.outward) (may E)

abbrev TestRun (E : Setting h σ α) (closeStarted : Hook) (τ : List (Beside α Act))
    (s : σ × State) : Prop :=
  (underTest E closeStarted).Runs (E.init, State.init) τ s

theorem TestRun.hooked (hr : TestRun E f τ s) : HookedRun E (closes f) harness τ s := Run.relax hr

/-! ## The result is in one place -/

section Custody

variable {t t' : State} {errs errs' : List HostError}

/-- Where the result is. -/
inductive Custody (errs : List HostError) (t : State) : Prop
  | unsent (hsent : t.sent = false) (hbuf : t.done.buf = [])
      (hfree : ∀ r, (t.place r).held? = none)
  | buffered (hsent : t.sent = true) (hbuf : t.done.buf = [errs])
      (hfree : ∀ r, (t.place r).held? = none)
  | held (r : Receiver) (hsent : t.sent = true) (hbuf : t.done.buf = [])
      (hheld : t.place r = .holding errs) (hfree : ∀ r', r' ≠ r → (t.place r').held? = none)

theorem held?_eq_some {p : Place} : p.held? = some errs ↔ p = .holding errs := by
  cases p <;> simp [Place.held?]

theorem place_move (t : State) (r : Receiver) (p : Place) (r' : Receiver) :
    (t.move r p).place r' = if r' = r then p else t.place r' := rfl

@[simp] theorem place_move_self (t : State) (r : Receiver) (p : Place) :
    (t.move r p).place r = p := if_pos rfl

theorem place_move_of_ne {r r' : Receiver} (hr : r' ≠ r) (p : Place) :
    (t.move r p).place r' = t.place r' := if_neg hr

/-- An action that neither takes the result nor gives it away. -/
def Act.leaves : Act → Bool
  | .take .. | .put .. | .send _ => false
  | _ => true

/-- The receiver that an action moves, and where to. -/
def Act.moves : Act → Option (Receiver × Place)
  | .start => some (.start, .entering)
  | .wait n => some (.wait n, .entering)
  | .stop n => some (.wait n, .shutdown)
  | .cleanup => some (.cleanup, .shutdown)
  | .shut r => some (r, .entering)
  | .enter r due => some (r, .selecting due)
  | .takeStarted => some (.start, .started)
  | .take r errs => some (r, .holding errs)
  | .put r errs => some (r, .got errs)
  | .timeout r => some (r, .timedOut)
  | .send _ | .hook _ => none

/-- All receivers but the one that moves stay where they are. -/
theorem place_effect (t : State) (a : Act) (r : Receiver) : (effect t a).place r =
    match a.moves with
    | some (r', p) => if r = r' then p else t.place r
    | none => t.place r := by
  cases a with
  | hook a => cases a <;> rfl
  | _ => rfl

theorem leaves_effect (t : State) {a : Act} (ha : a.leaves = true) :
    (effect t a).sent = t.sent ∧ (effect t a).done = t.done := by
  cases a with
  | take r errs | put r errs | send errs => cases ha
  | hook a => cases a <;> exact ⟨rfl, rfl⟩
  | _ => exact ⟨rfl, rfl⟩

/-- Who moves was not holding the result, and is not, unless it takes the result or puts it
back. -/
theorem free_of_moves {a : Act} {r : Receiver} {p : Place} (hg : guard t a = true)
    (ha : a.leaves = true) (hmoves : a.moves = some (r, p)) :
    (t.place r).held? = none ∧ p.held? = none := by
  have hidle {q : Place} (hq : t.place r = q) (hnone : q.held? = none) :
      (t.place r).held? = none := by rw [hq, hnone]
  have hselects (hsome : (t.place r).due?.isSome = true) : (t.place r).held? = none := by
    cases hplace : t.place r <;> simp [hplace, Place.due?, Place.held?] at hsome ⊢
  cases a with
  | take r errs | put r errs | send errs => cases ha
  | hook a => cases hmoves
  | start | shut r | enter r due =>
      cases hmoves
      exact ⟨hidle (of_decide_eq_true hg) rfl, rfl⟩
  | wait n | stop n | cleanup =>
      cases hmoves
      exact ⟨hidle (of_decide_eq_true hg).2 rfl, rfl⟩
  | takeStarted =>
      cases hmoves
      exact ⟨hselects (Bool.and_eq_true_iff.mp hg).1, rfl⟩
  | timeout r =>
      cases hmoves
      exact ⟨hselects hg, rfl⟩

/-- The place of a receiver that holds the result changes in no other step. -/
private theorem held_effect {a : Act} (hg : guard t a = true) (ha : a.leaves = true)
    (r : Receiver) : ((effect t a).place r).held? = (t.place r).held? ∧
      ∀ errs, t.place r = .holding errs → (effect t a).place r = .holding errs := by
  rw [place_effect]
  cases hmoves : a.moves with
  | none => exact ⟨rfl, fun _ hheld => hheld⟩
  | some move =>
      obtain ⟨r', p⟩ := move
      obtain ⟨hbefore, hafter⟩ := free_of_moves hg ha hmoves
      by_cases hr : r = r'
      · subst hr
        refine ⟨by simp [hbefore, hafter], fun errs hheld => ?_⟩
        rw [hheld] at hbefore
        cases hbefore
      · exact ⟨by simp [hr], fun _ hheld => by simpa [hr] using hheld⟩

private theorem custody_leaves {a : Act} (hg : guard t a = true) (ha : a.leaves = true)
    (h : Custody errs t) : Custody errs (effect t a) := by
  obtain ⟨hsame, hdone⟩ := leaves_effect t ha
  have hheld := held_effect hg ha
  cases h with
  | unsent hsent hbuf hfree =>
      exact .unsent (hsame.trans hsent) (by rw [hdone, hbuf]) fun r => (hheld r).1.trans (hfree r)
  | buffered hsent hbuf hfree =>
      exact .buffered (hsame.trans hsent) (by rw [hdone, hbuf]) fun r => (hheld r).1.trans (hfree r)
  | held r hsent hbuf hr hfree =>
      exact .held r (hsame.trans hsent) (by rw [hdone, hbuf]) ((hheld r).2 errs hr)
        fun r' hr' => (hheld r').1.trans (hfree r' hr')

private theorem custody_take {r : Receiver} (hg : guard t (.take r errs') = true)
    (h : Custody errs t) : errs' = errs ∧ Custody errs (effect t (.take r errs')) := by
  have hnext : t.done.next = some errs' := of_decide_eq_true (Bool.and_eq_true_iff.mp hg).2
  obtain ⟨rest, hfirst⟩ := (t.done.next_eq_some_iff errs').mp hnext
  cases h with
  | unsent _ hbuf _ | held _ _ hbuf _ _ =>
      rw [hbuf] at hfirst
      cases hfirst
  | buffered hsent hbuf hfree =>
      rw [hbuf] at hfirst
      cases hfirst
      refine ⟨rfl, .held r hsent ?_ (place_move_self ..) fun r' hr' => ?_⟩
      · show t.done.buf.tail = []
        rw [hbuf, List.tail_cons]
      · show ((t.move r _).place r').held? = none
        rw [place_move_of_ne hr']
        exact hfree r'

private theorem custody_put {r : Receiver} (hg : guard t (.put r errs') = true)
    (h : Custody errs t) :
    t.sent = true ∧ errs' = errs ∧ Custody errs (effect t (.put r errs')) := by
  obtain ⟨hplace, hroom⟩ := Bool.and_eq_true_iff.mp hg
  replace hplace : t.place r = .holding errs' := of_decide_eq_true hplace
  have hheld : (t.place r).held? = some errs' := held?_eq_some.mpr hplace
  cases h with
  | unsent _ _ hfree | buffered _ _ hfree =>
      rw [hfree r] at hheld
      cases hheld
  | held r' hsent hbuf hr' hfree =>
      obtain rfl : r = r' := by
        by_contra hne
        rw [hfree r hne] at hheld
        cases hheld
      obtain rfl : errs' = errs := Place.holding.inj (hplace.symm.trans hr')
      refine ⟨hsent, rfl, .buffered hsent ?_ fun r' => ?_⟩
      · show (t.done.send errs').buf = [errs']
        rw [Chan.buf_send hroom, hbuf, List.nil_append]
      · show ((t.move r _).place r').held? = none
        rw [place_move]
        split
        · rfl
        · exact hfree r' ‹_›

private theorem custody_send (hg : guard t (.send errs) = true) (h : Custody errs' t) :
    Custody errs (effect t (.send errs)) := by
  obtain ⟨hbefore, hroom⟩ := Bool.and_eq_true_iff.mp hg
  have hunsent : t.sent = false := by simpa using (Bool.and_eq_true_iff.mp hbefore).2
  cases h with
  | buffered hsent _ _ | held _ hsent _ _ _ =>
      rw [hsent] at hunsent
      cases hunsent
  | unsent _ hbuf hfree =>
      refine .buffered rfl ?_ hfree
      show (t.done.send errs).buf = [errs]
      rw [Chan.buf_send hroom, hbuf, List.nil_append]

private theorem custody_effect {a : Act} (hg : guard t a = true)
    (hsend : ∀ errs', a = .send errs' → errs' = errs) (h : Custody errs t) :
    Custody errs (effect t a) := by
  cases a with
  | take r errs' => exact (custody_take hg h).2
  | put r errs' => exact (custody_put hg h).2.2
  | send errs' =>
      obtain rfl := hsend errs' rfl
      exact custody_send hg h
  | _ => exact custody_leaves hg rfl h

/-- A receiver comes to a place by the action that moves it there. -/
private theorem moved_effect {a : Act} {r : Receiver} {p : Place}
    (hplace : (effect t a).place r = p) : t.place r = p ∨ a.moves = some (r, p) := by
  rw [place_effect] at hplace
  cases hmoves : a.moves with
  | none =>
      rw [hmoves] at hplace
      exact Or.inl hplace
  | some move =>
      obtain ⟨r', p'⟩ := move
      rw [hmoves] at hplace
      replace hplace : (if r = r' then p' else t.place r) = p := hplace
      split at hplace
      · obtain rfl : r = r' := ‹_›
        exact Or.inr (by rw [hplace])
      · exact Or.inl hplace

/-- A receiver gets the result when it puts it back. -/
private theorem got_effect {a : Act} {r : Receiver} (hgot : (effect t a).place r = .got errs) :
    t.place r = .got errs ∨ a = .put r errs := by
  refine (moved_effect hgot).imp id fun hmoves => ?_
  cases a with
  | put r' errs' =>
      cases hmoves
      rfl
  | _ => cases hmoves

/-- It is in its select from when it enters it. -/
private theorem selecting_effect {a : Act} {r : Receiver} {due : Int}
    (hwaits : (effect t a).place r = .selecting due) :
    t.place r = .selecting due ∨ a = .enter r due := by
  refine (moved_effect hwaits).imp id fun hmoves => ?_
  cases a with
  | enter r' due' =>
      cases hmoves
      rfl
  | _ => cases hmoves

end Custody

/-- The host takes a step of its own, or stays as it is. -/
private theorem host_effect (hr : TestRun E f τ s) {c : Beside α Act}
    (hg : (underTest E f).guard s c = true) :
    (∃ a, c.left?.bind E.host? = some a ∧
      (Hosting.system h).guard (E.state s.1) a = true ∧
        E.state ((underTest E f).effect s c).1 = (Hosting.system h).effect (E.state s.1) a) ∨
      c.left?.bind E.host? = none ∧
        E.state ((underTest E f).effect s c).1 = E.state s.1 := by
  cases hleft : c.left? with
  | none =>
      cases c with
      | right b => exact Or.inr ⟨rfl, rfl⟩
      | left a | both a b => cases hleft
  | some x =>
      have heffect : ((underTest E f).effect s c).1 = _ := fst_effect hleft
      have hstep := E.state_step (Run.fst hr) ((step_sides hg).1 x hleft)
      rw [heffect, Option.bind_some]
      cases hx : E.host? x with
      | none =>
          rw [hx] at hstep
          exact Or.inr ⟨rfl, hstep⟩
      | some a =>
          rw [hx] at hstep
          exact Or.inl ⟨a, rfl, hstep⟩

/-- The host loop stands still when `RunContext` has returned. -/
private theorem loop_of_returned (hr : TestRun E f τ s) {c : Beside α Act}
    (hg : (underTest E f).guard s c = true) (hpc : (E.state s.1).pc = .returned) :
    (E.state ((underTest E f).effect s c).1).loop = (E.state s.1).loop := by
  obtain ⟨a, -, hguard, hnext⟩ | ⟨-, hsame⟩ := host_effect hr hg
  · rw [hnext]
    refine (loop_other _ a ?_).1
    rintro b rfl
    exact (hostStep_of_can (hostCan_of_guard hguard)).not_returned hpc
  · rw [hsame]

/-- The result is on its way from the host to the receivers. -/
structure OnItsWay (E : Setting h σ α) (s : σ × State) : Prop where
  custody : Custody (E.state s.1).errs s.2
  returned : s.2.sent = true → (E.state s.1).pc = .returned
  received : ∀ r errs, s.2.place r = .got errs → s.2.sent = true ∧ errs = (E.state s.1).errs

private theorem Custody.congr {t : State} {errs errs' : List HostError} (h : Custody errs t)
    (heq : t.sent = true → errs' = errs) : Custody errs' t := by
  cases h with
  | unsent hsent hbuf hfree => exact .unsent hsent hbuf hfree
  | buffered hsent hbuf hfree =>
      obtain rfl := heq hsent
      exact .buffered hsent hbuf hfree
  | held r hsent hbuf hr hfree =>
      obtain rfl := heq hsent
      exact .held r hsent hbuf hr hfree

/-- The goroutine sends what `RunContext` has returned. -/
private theorem sends_result {c : Beside α Act} (hg : (underTest E f).guard s c = true)
    {errs : List HostError} (hc : c.right? = some (.send errs)) :
    (E.state ((underTest E f).effect s c).1).pc = .returned ∧
      errs = (E.state ((underTest E f).effect s c).1).errs := by
  cases c with
  | left a => cases hc
  | right b =>
      obtain rfl := Option.some.inj hc
      obtain ⟨hmay, -⟩ := guard_right.mp hg
      exact of_decide_eq_true hmay
  | both a b =>
      obtain rfl := Option.some.inj hc
      obtain ⟨-, ⟨hvis, hsame⟩, -⟩ := guard_both.mp hg
      exact absurd hsame hvis

private theorem sent_effect {t : State} {a : Act} :
    (effect t a).sent = true ↔ t.sent = true ∨ ∃ errs, a = .send errs := by
  cases a with
  | send errs => exact ⟨fun _ => Or.inr ⟨errs, rfl⟩, fun _ => rfl⟩
  | hook a => cases a <;> simp [effect]
  | _ => simp [effect, State.move]

theorem custody_of_run (hr : TestRun E f τ s) : OnItsWay E s := by
  refine hr.invariant (fun _ s => OnItsWay E s) ⟨.unsent rfl rfl fun _ => rfl, nofun, nofun⟩ ?_
  intro τ s c hr ih _ hg
  have hloop (hsent : s.2.sent = true) := loop_of_returned hr hg (ih.returned hsent)
  have herrs (hsent : s.2.sent = true) :
      (E.state ((underTest E f).effect s c).1).errs = (E.state s.1).errs :=
    congrArg LoopVars.errs (hloop hsent)
  have hpc (hsent : s.2.sent = true) :
      (E.state ((underTest E f).effect s c).1).pc = .returned :=
    (congrArg LoopVars.pc (hloop hsent)).trans (ih.returned hsent)
  have hcustody := ih.custody.congr herrs
  cases hc : c.right? with
  | none =>
      have hsame : ((underTest E f).effect s c).2 = s.2 := by
        cases c with
        | left a => rfl
        | right b | both a b => cases hc
      rw [← hsame] at hcustody hpc herrs
      refine ⟨hcustody, hpc, fun r errs hgot => ?_⟩
      rw [hsame] at hgot ⊢
      obtain ⟨hsent, rfl⟩ := ih.received r errs hgot
      exact ⟨hsent, (herrs (hsame ▸ hsent)).symm⟩
  | some b =>
      have heffect : ((underTest E f).effect s c).2 = effect s.2 b := snd_effect hc
      have hguard : guard s.2 b = true := (step_sides hg).2.1 b hc
      have hnext := custody_effect hguard
        (fun errs hb => (sends_result hg (hb ▸ hc)).2) hcustody
      rw [← heffect] at hnext
      refine ⟨hnext, fun hsent => ?_, fun r errs hgot => ?_⟩
      · rw [heffect] at hsent
        obtain hold | ⟨errs, rfl⟩ := sent_effect.mp hsent
        · exact hpc hold
        · exact (sends_result hg hc).1
      · rw [heffect] at hgot ⊢
        obtain hold | rfl := got_effect hgot
        · obtain ⟨hsent, rfl⟩ := ih.received r errs hold
          exact ⟨sent_effect.mpr (Or.inl hsent), (herrs hsent).symm⟩
        · obtain ⟨hsent, rfl, -⟩ := custody_put hguard ih.custody
          exact ⟨hsent, (herrs hsent).symm⟩

/-! ## The start -/

theorem running_effect {t : State} (a : Act) (hrun : t.running = true) :
    (effect t a).running = true := by
  cases a with
  | hook a => cases a <;> exact hrun
  | start => rfl
  | _ => exact hrun

/-- `RunContext` is called by the goroutine. -/
private theorem running_of_entered (hr : TestRun E f τ s) (hpc : (E.state s.1).pc ≠ .entry) :
    s.2.running = true := by
  refine hr.invariant (fun _ s => (E.state s.1).pc ≠ .entry → s.2.running = true) ?_ ?_ hpc
  · intro hpc
    have hinit : Hosting.State.init h = E.state E.init := (E.runs .nil).after_eq
    exact absurd (congrArg Hosting.State.pc hinit).symm hpc
  · intro τ s c hr ih _ hg hpc
    have hstays (hrun : s.2.running = true) :
        ((underTest E f).effect s c).2.running = true := by
      cases c with
      | left a => exact hrun
      | right b | both a b => exact running_effect b hrun
    obtain ⟨a, ha, hguard, hnext⟩ | ⟨-, hsame⟩ := host_effect hr hg
    · by_cases henter : a = .host (.run .enter)
      · subst henter
        refine hstays ?_
        cases c with
        | right b => cases ha
        | left x =>
            obtain ⟨hmay, -⟩ := guard_left.mp hg
            replace ha : E.host? x = some (.host (.run .enter)) := ha
            simpa [may, ha] using hmay
        | both x b =>
            obtain ⟨-, ⟨hvis, -⟩, -⟩ := guard_both.mp hg
            replace ha : E.host? x = some (.host (.run .enter)) := ha
            exact absurd (by rw [ha]; rfl) hvis
      · rw [hnext] at hpc
        exact hstays (ih fun hentry => hpc ((inStartup_step _ a hguard henter).1.mpr hentry))
    · rw [hsame] at hpc
      exact hstays (ih hpc)

/-- The channel is closed when the hook has been called, and closed twice when that has
panicked. -/
private theorem closed_of_runs {υ : List Act} {t : State}
    (hr : harness.system.Runs harness.init υ t) :
    (t.started = true → 1 ≤ (harness.performed υ).length) ∧
      (t.panicked = true → 2 ≤ (harness.performed υ).length) := by
  refine hr.invariant (fun υ (t : State) => (t.started = true → 1 ≤ (harness.performed υ).length) ∧
    (t.panicked = true → 2 ≤ (harness.performed υ).length)) ⟨nofun, nofun⟩ ?_
  intro υ t a _ ih _ _
  have hsnoc : harness.performed (υ ++ [a]) =
      harness.performed υ ++ ((harness.act a).bind CourseAct.does?).toList := by
    rw [Listener.performed, List.filterMap_filterMap, Listener.performed,
      List.filterMap_filterMap]
    exact filterMap_snoc _ υ a
  rw [hsnoc, List.length_append]
  cases a with
  | hook a =>
      cases a with
      | does n =>
          refine ⟨fun _ => Nat.le_add_left .., fun hpanic => ?_⟩
          exact Nat.succ_le_succ (ih.1 hpanic)
      | _ => exact ih
  | _ => exact ih

private theorem performed_le (hr : TestRun E f τ s) (honce : h.onStarted.count f = 1) :
    (harness.performed (rights τ)).length ≤ 1 := by
  have hhooked := hr.hooked
  have hcalled := hooks_prefix hhooked.host .onStarted
  calc (harness.performed (rights τ)).length
      = (harness.performed (rights τ)).count () := (List.count_eq_length.mpr fun _ _ => rfl).symm
    _ ≤ (notices (closes f) (hostCalls (E.acts τ))).count () :=
        (performed_prefix_called hhooked).sublist.count_le ()
    _ ≤ (hooksOf .onStarted (hostCalls (E.acts τ))).count f := by
        refine count_notices_le (fun kind' f' hn => ?_) _
        cases kind' with
        | onStarted => exact ⟨rfl, (Option.ite_none_right_eq_some.mp hn).1⟩
        | onStopping | onStopped => cases hn
    _ ≤ (h.onStarted).count f := hcalled.sublist.count_le f
    _ = 1 := honce

/-- When `started` is closed all services are launched and ready. -/
private theorem up_of_started (hr : TestRun E f τ s) (hstarted : s.2.started = true) :
    launches (hostActs (E.acts τ)) = List.range h.services.length ∧
      ∀ j < h.services.length, h.readier j = true → .env (.closeReady j) ∈ E.acts τ := by
  have hhooked := hr.hooked
  have hdone := (closed_of_runs hhooked.listener).1 hstarted
  obtain ⟨n, hn⟩ := List.exists_mem_of_length_pos hdone
  have hcalled := (performed_prefix_called hhooked).mem hn
  obtain ⟨kind, f', hf', hwhat⟩ := mem_notices.mp hcalled
  cases kind with
  | onStarted => exact launched_of_called hhooked.host hf'
  | onStopping | onStopped => cases hwhat

/-! ## The wait -/

theorem due?_isSome {p : Place} : p.due?.isSome = true ↔ ∃ due, p = .selecting due := by
  cases p <;> simp [Place.due?]

/-- A step of the package that is no call of the hook. -/
private theorem right_guard {b : Act} (hact : harness.act b = none)
    (hmay : may E s (.right b) = true) (hg : guard s.2 b = true) :
    (underTest E f).guard s (.right b) = true :=
  guard_right.mpr ⟨hmay, by rw [hact]; rfl, hg⟩

/-- The result that has been sent is taken and put back. -/
private theorem got_of_buffered {errs : List HostError} {r : Receiver} {due : Int}
    (hbuf : s.2.done.buf = [errs]) (hwaits : s.2.place r = .selecting due) :
    ∃ s', (underTest E f).Runs s [.right (.take r errs), .right (.put r errs)] s' ∧
      s'.2.place r = .got errs := by
  have htake : (underTest E f).guard s (.right (.take r errs)) = true := by
    refine right_guard rfl rfl (Bool.and_eq_true_iff.mpr ⟨?_, decide_eq_true ?_⟩)
    · exact due?_isSome.mpr ⟨due, hwaits⟩
    · exact (s.2.done.next_eq_some_iff errs).mpr ⟨[], hbuf⟩
  have hput : (underTest E f).guard ((underTest E f).effect s (.right (.take r errs)))
      (.right (.put r errs)) = true := by
    refine right_guard rfl rfl (Bool.and_eq_true_iff.mpr ⟨decide_eq_true ?_, ?_⟩)
    · exact place_move_self ..
    · show (s.2.done.drop).hasRoom = true
      rw [Chan.hasRoom_iff, Chan.buf_drop, hbuf]
      exact Nat.one_pos
  exact ⟨_, (Lts.Run.nil.snoc trivial htake).snoc trivial hput, place_move_self ..⟩

/-- The goroutine and a receiver that has taken the result can send it at once. -/
private theorem sends_of_run (hr : TestRun E f τ s) :
    ((E.state s.1).pc = .returned → s.2.sent = false →
      (underTest E f).guard s (.right (.send (E.state s.1).errs)) = true) ∧
      ∀ r errs, s.2.place r = .holding errs →
        (underTest E f).guard s (.right (.put r errs)) = true := by
  have hroom (hbuf : s.2.done.buf = []) : s.2.done.hasRoom = true := by
    rw [Chan.hasRoom_iff, hbuf]
    exact Nat.one_pos
  constructor
  · intro hpc hunsent
    have hrun : s.2.running = true := running_of_entered hr (by simp [hpc])
    cases (custody_of_run hr).custody with
    | buffered hsent _ _ | held _ hsent _ _ _ =>
        rw [hsent] at hunsent
        cases hunsent
    | unsent _ hbuf _ =>
        refine right_guard rfl (decide_eq_true ⟨hpc, rfl⟩) ?_
        show (s.2.running && !s.2.sent && s.2.done.hasRoom) = true
        rw [hrun, hunsent, hroom hbuf]
        rfl
  · intro r errs hholds
    have hheld : (s.2.place r).held? = some errs := held?_eq_some.mpr hholds
    cases (custody_of_run hr).custody with
    | unsent _ _ hfree | buffered _ _ hfree =>
        rw [hfree r] at hheld
        cases hheld
    | held _ _ hbuf _ _ =>
        exact right_guard rfl rfl (Bool.and_eq_true_iff.mpr ⟨decide_eq_true hholds, hroom hbuf⟩)

/-- So it is behind the step that sends it. -/
private theorem got_behind {b : Act} {errs : List HostError} {r : Receiver} {due : Int}
    (hg : (underTest E f).guard s (.right b) = true)
    (hempty : s.2.done.buf = []) (hsends : (effect s.2 b).done = s.2.done.send errs)
    (hwaits : (effect s.2 b).place r = .selecting due) :
    ∃ post s', (underTest E f).Runs s post s' ∧ post.length ≤ 3 ∧
      (∀ c ∈ post, c.left? = none) ∧ s'.2.place r = .got errs := by
  have hroom : s.2.done.hasRoom = true := by
    rw [Chan.hasRoom_iff, hempty]
    exact Nat.one_pos
  have hbuf : (effect s.2 b).done.buf = [errs] := by
    rw [hsends, Chan.buf_send hroom, hempty, List.nil_append]
  have hone : (underTest E f).Runs s [.right b] (s.1, effect s.2 b) := Lts.Run.nil.snoc trivial hg
  obtain ⟨s', hrun, hgot⟩ := got_of_buffered (E := E) (f := f) (s := (s.1, effect s.2 b)) hbuf hwaits
  exact ⟨_, s', hone.trans hrun, by simp, by simp [left?], hgot⟩

/-- Who waits when `RunContext` has returned can get its result within three steps of the
package. -/
private theorem delivered_of_run (hr : TestRun E f τ s) (hpc : (E.state s.1).pc = .returned)
    {r : Receiver} {due : Int} (hwaits : s.2.place r = .selecting due) :
    ∃ post s', (underTest E f).Runs s post s' ∧ post.length ≤ 3 ∧
      (∀ c ∈ post, c.left? = none) ∧ s'.2.place r = .got (E.state s.1).errs := by
  obtain ⟨hsend, hput⟩ := sends_of_run hr
  cases (custody_of_run hr).custody with
  | buffered _ hbuf _ =>
      obtain ⟨s', hrun, hgot⟩ := got_of_buffered (E := E) (f := f) hbuf hwaits
      exact ⟨_, s', hrun, by simp, by simp [left?], hgot⟩
  | unsent hsent hbuf _ => exact got_behind (hsend hpc hsent) hbuf rfl hwaits
  | held r' _ hbuf hholds _ =>
      have hother : r ≠ r' := by
        rintro rfl
        rw [hholds] at hwaits
        cases hwaits
      exact got_behind (hput r' _ hholds) hbuf rfl ((place_move_of_ne hother _).trans hwaits)

/-- The time that the host has seen pass. -/
def elapsed (as : List Action) : Duration := (as.map Action.duration).sum

private theorem now_effect (hr : TestRun E f τ s) {c : Beside α Act}
    (hg : (underTest E f).guard s c = true) (υ : List (Beside α Act)) :
    (E.state ((underTest E f).effect s c).1).now - elapsed (E.acts (υ ++ [c])) =
      (E.state s.1).now - elapsed (E.acts υ) := by
  obtain ⟨a, ha, -, hnext⟩ | ⟨hnone, hsame⟩ := host_effect hr hg
  · rw [Setting.acts_snoc υ ha, hnext, now_step]
    simp [elapsed]
  · have hacts : E.acts (υ ++ [c]) = E.acts υ := by
      rw [Setting.acts, lefts_snoc, List.filterMap_append]
      cases hleft : c.left? with
      | none => simp [Setting.acts]
      | some x =>
          have hx : E.host? x = none := by simpa [hleft] using hnone
          simp [Setting.acts, hx]
    rw [hacts, hsame]

/-- A receiver in its select entered it when its deadline was ten seconds off. -/
private theorem entered_of_run (hr : TestRun E f τ s) {r : Receiver} {due : Int}
    (hwaits : s.2.place r = .selecting due) :
    ∃ pre post, τ = pre ++ .right (.enter r due) :: post ∧
      due + elapsed (E.acts post) = (E.state s.1).now + defaultTimeout := by
  refine hr.invariant (fun τ s => s.2.place r = .selecting due →
    ∃ pre post, τ = pre ++ .right (.enter r due) :: post ∧
      due + elapsed (E.acts post) = (E.state s.1).now + defaultTimeout) nofun ?_ hwaits
  intro τ s c hr ih _ hg hwaits
  by_cases hbefore : s.2.place r = .selecting due
  · obtain ⟨pre, post, rfl, hdue⟩ := ih hbefore
    have hnow := now_effect hr hg post
    exact ⟨pre, post ++ [c], by simp, by omega⟩
  · have hc : c = .right (.enter r due) := by
      cases c with
      | left a => exact absurd hwaits hbefore
      | right b => rw [(selecting_effect hwaits).resolve_left hbefore]
      | both a b =>
          obtain rfl := (selecting_effect hwaits).resolve_left hbefore
          obtain ⟨-, ⟨hvis, hsame⟩, -⟩ := guard_both.mp hg
          exact absurd hsame hvis
    subst hc
    obtain ⟨hmay, -⟩ := guard_right.mp hg
    have hdue : due = (E.state s.1).now + defaultTimeout := of_decide_eq_true hmay
    exact ⟨τ, [], rfl, (add_zero due).trans hdue⟩

/-! ## What a test is told -/

/-- What the functions of the package tell a test. -/
structure Reports (E : Setting h σ α) (f : Hook) (τ : List (Beside α Act)) (s : σ × State) :
    Prop where
  /-- `Start` finds the host started when all services are launched and ready -/
  up : Guarded (fun pre c => c.right? = some .takeStarted →
    launches (hostActs (E.acts pre)) = List.range h.services.length ∧
      ∀ j < h.services.length, h.readier j = true → .env (.closeReady j) ∈ E.acts pre) τ
  /-- the hook closes `started` once -/
  closes_once : (harness.performed (rights τ)).length ≤ 1 ∧ s.2.panicked = false
  /-- the result of `RunContext` is in the channel or in the hands of one receiver -/
  custody : Custody (E.state s.1).errs s.2
  /-- no other result is received, and this one not before it is there -/
  received : ∀ r errs, s.2.place r = .got errs →
    (E.state s.1).pc = .returned ∧ errs = (E.state s.1).errs
  /-- nobody has to wait for room in the channel -/
  sends : ((E.state s.1).pc = .returned → s.2.sent = false →
    (underTest E f).guard s (.right (.send (E.state s.1).errs)) = true) ∧
      ∀ r errs, s.2.place r = .holding errs →
        (underTest E f).guard s (.right (.put r errs)) = true
  /-- whoever waits can have the result when `RunContext` has returned, however many have
  had it -/
  delivered : (E.state s.1).pc = .returned → ∀ r due, s.2.place r = .selecting due →
    ∃ post s', (underTest E f).Runs s post s' ∧ post.length ≤ 3 ∧
      (∀ c ∈ post, c.left? = none) ∧ s'.2.place r = .got (E.state s.1).errs
  /-- nobody gives up before ten seconds have passed -/
  patient : Guarded (fun pre c => ∀ r, c.right? = some (.timeout r) →
    ∃ pre₁ due post, pre = pre₁ ++ .right (.enter r due) :: post ∧
      defaultTimeout ≤ elapsed (E.acts post)) τ

private theorem patient_of_run (hr : TestRun E f τ s) {c : Beside α Act}
    (hg : (underTest E f).guard s c = true) {r : Receiver}
    (hc : c.right? = some (.timeout r)) :
    ∃ pre due post, τ = pre ++ .right (.enter r due) :: post ∧
      defaultTimeout ≤ elapsed (E.acts post) := by
  cases c with
  | left a => cases hc
  | both a b =>
      obtain rfl := Option.some.inj hc
      obtain ⟨-, ⟨hvis, hsame⟩, -⟩ := guard_both.mp hg
      exact absurd hsame hvis
  | right b =>
      obtain rfl := Option.some.inj hc
      obtain ⟨hmay, -, hguard⟩ := guard_right.mp hg
      obtain ⟨due, hwaits⟩ := due?_isSome.mp hguard
      have hlate : due ≤ (E.state s.1).now := by simpa [may, hwaits, Place.due?] using hmay
      obtain ⟨pre, post, hτ, hdue⟩ := entered_of_run hr hwaits
      exact ⟨pre, due, post, hτ, by linarith⟩

variable {b : Builder} {built : BuiltHost}

/-- The hook is one of the host's, and once. -/
private theorem count_of_build (hbuild : buildForTest f b = .ok built) (hf : f ∉ b.onStarted) :
    built.host.onStarted.count f = 1 := by
  rw [buildForTest, Builder.build] at hbuild
  split at hbuild
  · cases hbuild
  · obtain rfl := Except.ok.inj hbuild
    show (b.onStarted ++ [f]).count f = 1
    rw [List.count_append, List.count_eq_zero_of_not_mem hf, List.count_singleton_self]

/--
**What a test is told**: `Start` returns when the host is up, every call that ends with a
result has that of `RunContext`, and none of them keeps it from the others.
-/
theorem reports_of_run {E : Setting built.host σ α} (hbuild : buildForTest f b = .ok built)
    (hf : f ∉ b.onStarted) (hr : TestRun E f τ s) : Reports E f τ s where
  up := by
    refine Lts.Run.guarded hr fun τ s c hr _ hg hc => up_of_started hr ?_
    have hguard : guard s.2 .takeStarted = true := (step_sides hg).2.1 _ hc
    exact (Bool.and_eq_true_iff.mp hguard).2
  closes_once := by
    have hle := performed_le hr (count_of_build hbuild hf)
    refine ⟨hle, Bool.eq_false_iff.mpr fun hpanic => ?_⟩
    have htwice := (closed_of_runs hr.hooked.listener).2 hpanic
    exact absurd htwice (Nat.not_le.mpr (Nat.lt_succ_of_le hle))
  custody := (custody_of_run hr).custody
  received := by
    intro r errs hgot
    obtain ⟨hsent, herrs⟩ := (custody_of_run hr).received r errs hgot
    exact ⟨(custody_of_run hr).returned hsent, herrs⟩
  sends := sends_of_run hr
  delivered := fun hpc _ _ hwaits => delivered_of_run hr hpc hwaits
  patient := Lts.Run.guarded hr fun _ _ _ hr _ hg _ hc => patient_of_run hr hg hc

/-- A builder with one service and a hook of its own. -/
def worker : Builder := (new.addService (some ⟨"worker", false, 0⟩) []).addOnStarted (some ⟨7⟩)

/-- The host that `Start` makes of it. -/
def workerHost : BuiltHost := (worker.addOnStarted (some ⟨0⟩)).toHost

/-- The test starts the host and stops it; the cleanup and `Stop` both get the result. -/
def workerRun : List (Beside Action Act) :=
  [.right .start, .left (.host (.run .enter)), .right (.enter .start 10000000000),
    .left (.host (.run (.launch 0))), .left (.sup 0 .start),
    .left (.host (.run (.lookReadier 0))), .left (.host (.run (.started 1))),
    .left (.call .host (.begins (.hook .onStarted ⟨7⟩))),
    .left (.call .host (.ends (.hook .onStarted ⟨7⟩) false)),
    .both (.call .host (.begins (.hook .onStarted ⟨0⟩))) (.hook (.begins ())),
    .right (.hook (.does ())), .right .takeStarted,
    .both (.call .host (.ends (.hook .onStarted ⟨0⟩) false)) (.hook (.ends () false)),
    .right (.stop 0), .left (.env .shutdown), .right (.shut (.wait 0)),
    .left (.env (.tick 1000000000)), .right (.enter (.wait 0) 11000000000),
    .left (.host (.run .takeShutdown)), .left (.host (.run .beginStopping)),
    .left (.host (.stop .enter)), .left (.host (.stop (.cancel 0))),
    .left (.host (.stop (.issue 0 1000000000))), .left (.stopper 0 .call),
    .left (.stopper 0 (.result (.returned none))),
    .left (.host (.stop (.takeStop 0 1000000000 none))),
    .left (.sup 0 (.result 0 (.returned none))), .left (.sup 0 (.check 0 none)),
    .left (.sup 0 (.sendDone none false)),
    .left (.host (.stop (.takeDone 0 1000000000 none none))), .left (.host (.stop .leave)),
    .left (.host (.run .join)), .left (.host (.run .ret)), .right (.send []),
    .right (.take (.wait 0) []), .right .cleanup, .right (.shut .cleanup),
    .right (.enter .cleanup 11000000000), .right (.put (.wait 0) []),
    .right (.take .cleanup []), .right (.put .cleanup [])]

theorem reports_workerRun : Reports (Setting.alone workerHost.host) ⟨0⟩ workerRun
    ((underTest (Setting.alone workerHost.host) ⟨0⟩).after
      (Hosting.State.init workerHost.host, State.init) workerRun) := by
  have hr : TestRun (Setting.alone workerHost.host) ⟨0⟩ workerRun _ :=
    Lts.Admits.run (by decide)
  have hbuild : buildForTest ⟨0⟩ worker = .ok workerHost := rfl
  exact reports_of_run hbuild (by decide) hr

end Shost.Ports.Testing
