import Shost.Ports.HostChannels
import Shost.Ports.HostRestart

/-!
# The loop of `supervise` in a run

In a run of the host the supervisor of a service takes its steps between those of all
others.  As long as it has not observed a shutdown, what it does is nevertheless what
`supervise` says of the outcomes of its calls of `Start`.

## Main results

* `supervise_of_run` — the events of a supervisor, followed by those it is about to
  cause, are the events of the loop.
-/

namespace Shost.Ports.Hosting

open Shost.Verified

variable {h : Host} {ok : State h → Action → Prop} {τ : List Action} {s : State h}

/-! ## The loop, one outcome more -/

/-- The delay with which the loop comes to its head after some outcomes. -/
def delayBefore (pol : RestartPolicy) : Duration → List StartRun → List Duration → Duration
  | delay, [], _ => delay
  | delay, run :: runs, raws =>
      delayBefore pol (nextDelay pol (delayAfter pol delay run) (raws.headD 0)) runs raws.tail

/-- What follows the end of a call of `Start`. -/
def eventsAfter (pol : RestartPolicy) (attempts : Int) (delay : Duration) (run : StartRun) :
    List SupEvent :=
  if Exhausted pol attempts [run] 0 then [.done run.err, .exit run.err]
  else
    [.restarting (attemptsAfter pol attempts [run]) (delayAfter pol delay run) run.err,
      .wait (delayAfter pol delay run), .start]

theorem supervise_snoc (pol : RestartPolicy) (run : StartRun) (runs : List StartRun) :
    ∀ (attempts : Int) (delay : Duration) (raws : List Duration),
      (∀ k < runs.length, ¬ Exhausted pol attempts runs k) →
      supervise pol attempts delay (runs ++ [run]) raws =
        supervise pol attempts delay runs raws ++
          eventsAfter pol (attemptsAfter pol attempts runs) (delayBefore pol delay runs raws) run := by
  induction runs with
  | nil =>
      intro attempts delay raws _
      change supervise pol attempts delay [run] raws =
        [.start] ++ eventsAfter pol attempts delay run
      unfold eventsAfter
      by_cases hgives : Exhausted pol attempts [run] 0
      · rw [if_pos hgives]
        exact supervise_exhausted hgives delay raws
      · rw [if_neg hgives]
        exact supervise_continues hgives delay raws
  | cons first runs ih =>
      intro attempts delay raws hno
      have hfirst : ¬ Exhausted pol attempts (first :: (runs ++ [run])) 0 := hno 0 (by simp)
      have hrest := ih (attemptsAfter pol attempts [first])
        (nextDelay pol (delayAfter pol delay first) (raws.headD 0)) raws.tail
        fun k hk => hno (k + 1) (by simpa using hk)
      rw [List.cons_append, supervise_continues hfirst, supervise_continues (hno 0 (by simp)),
        hrest]
      rfl

/-- The value of a product is used only when another outcome follows. -/
theorem supervise_raws (pol : RestartPolicy) (raw : Duration) (runs : List StartRun) :
    ∀ (attempts : Int) (delay : Duration) (raws : List Duration), runs.length ≤ raws.length + 1 →
      supervise pol attempts delay runs (raws ++ [raw]) = supervise pol attempts delay runs raws := by
  induction runs with
  | nil => exact fun _ _ _ _ => rfl
  | cons run runs ih =>
      intro attempts delay raws hlength
      by_cases hgives : Exhausted pol attempts (run :: runs) 0
      · rw [supervise_exhausted hgives, supervise_exhausted hgives]
      · rw [supervise_continues hgives, supervise_continues hgives]
        cases raws with
        | nil =>
            obtain rfl : runs = [] := by simpa using hlength
            rfl
        | cons first raws =>
            have hrest := ih (attemptsAfter pol attempts [run])
              (nextDelay pol (delayAfter pol delay run) first) raws (by simpa using hlength)
            simpa using hrest

theorem delayBefore_snoc (pol : RestartPolicy) (run : StartRun) (raw : Duration)
    (runs : List StartRun) :
    ∀ (delay : Duration) (raws : List Duration), raws.length = runs.length →
      delayBefore pol delay (runs ++ [run]) (raws ++ [raw]) =
        nextDelay pol (delayAfter pol (delayBefore pol delay runs raws) run) raw := by
  induction runs with
  | nil =>
      intro delay raws hlength
      obtain rfl := List.length_eq_zero_iff.mp hlength
      rfl
  | cons first runs ih =>
      intro delay raws hlength
      cases raws with
      | nil => simp at hlength
      | cons first' raws => exact ih _ raws (by simpa using hlength)

theorem exhausted_of_prefix {pol : RestartPolicy} {attempts : Int} {runs : List StartRun}
    {run : StartRun} (hno : ∀ k < runs.length, ¬ Exhausted pol attempts runs k)
    (hlast : ¬ Exhausted pol (attemptsAfter pol attempts runs) [run] 0) :
    ∀ k < (runs ++ [run]).length, ¬ Exhausted pol attempts (runs ++ [run]) k := by
  intro k hk
  rw [List.length_append, List.length_singleton] at hk
  rcases Nat.lt_or_ge k runs.length with hold | hnew
  · have hsame : (runs ++ [run]).take (k + 1) = runs.take (k + 1) :=
      List.take_append_of_le_length (by omega)
    rw [Exhausted, hsame]
    exact hno k hold
  · have hall : (runs ++ [run]).take (k + 1) = runs ++ [run] :=
      List.take_of_length_le (by simp; omega)
    rw [Exhausted, hall, attemptsAfter_append]
    exact hlast

/-! ## The supervisor -/

/-- The end of a call of `Start` that the supervisor looks at. -/
def endedRun (i : Nat) (x : State h × Action) : Option StartRun :=
  match x.2.svcAct i with
  | some (.sup (.check began err)) => some ⟨x.1.now - began, .returned err⟩
  | _ => none

/-- The value of a product outside the range of the type. -/
def rawOf (i : Nat) (x : State h × Action) : Option Duration :=
  match x.2.svcAct i with
  | some (.sup (.restart _ raw)) => some raw
  | _ => none

/-- The events of a step of the supervisor. -/
def supEventsOf (i : Nat) (x : State h × Action) : List SupEvent :=
  match x.2.svcAct i with
  | some (.sup .start) => [.start]
  | some (.sup (.check began err)) =>
      let v := checkExit h i (x.1.supStops i) (x.1.now - began) err (x.1.svc i)
      if v.sup = .observing then [.restarting v.attempts v.delay err] else []
  | some (.sup .wait) => [.wait (x.1.svc i).delay]
  | some (.sup (.sendDone err _)) => [.done err]
  | some (.sup (.sendExit err)) => [.exit err]
  | _ => []

def endedRuns (h : Host) (i : Nat) (τ : List Action) : List StartRun :=
  ((system h).steps (State.init h) τ).filterMap (endedRun i)

def rawLog (h : Host) (i : Nat) (τ : List Action) : List Duration :=
  ((system h).steps (State.init h) τ).filterMap (rawOf i)

def supEvents (h : Host) (i : Nat) (τ : List Action) : List SupEvent :=
  ((system h).steps (State.init h) τ).flatMap (supEventsOf i)

/-- What a supervisor is about to do, up to the next call of `Start`. -/
def pending (v : Svc) : List SupEvent :=
  match v.sup with
  | .unborn | .head | .backoff _ => [.start]
  | .running _ | .exited _ _ | .gone => []
  | .observing => [.wait v.delay, .start]
  | .sendDone err _ => [.done err, .exit err]
  | .sendExit err => [.exit err]

/-- The variables of the loop, by the place of the supervisor. -/
def Varied (pol : RestartPolicy) (runs : List StartRun) (raws : List Duration) (v : Svc) : Prop :=
  match v.sup with
  | .unborn => runs = [] ∧ raws = [] ∧ v.attempts = 0
  | .head | .running _ | .exited _ _ =>
      (∀ k < runs.length, ¬ Exhausted pol 0 runs k) ∧ raws.length = runs.length ∧
        v.attempts = attemptsAfter pol 0 runs ∧
        v.delay = delayBefore pol pol.initialDelay runs raws
  | .observing | .backoff _ =>
      (∀ k < runs.length, ¬ Exhausted pol 0 runs k) ∧ raws.length + 1 = runs.length ∧
        v.attempts = attemptsAfter pol 0 runs ∧
        ∀ raw, delayBefore pol pol.initialDelay runs (raws ++ [raw]) = nextDelay pol v.delay raw
  | .sendDone _ report => report = true
  | .sendExit _ | .gone => True

/-- The supervisor follows the loop. -/
structure Follows (pol : RestartPolicy) (runs : List StartRun) (raws : List Duration)
    (events : List SupEvent) (v : Svc) : Prop where
  events_eq : supervise pol 0 pol.initialDelay runs raws = events ++ pending v
  varied : Varied pol runs raws v

/-- Without a shutdown the policy decides what follows the end of a call of `Start`. -/
private theorem checkExit_eq_policy {i : Nat} {pol : RestartPolicy} (hpol : h.restart i = some pol)
    (ran : Duration) (err : Result) (v : Svc) :
    checkExit h i false ran err v =
      if Exhausted pol v.attempts [⟨ran, .returned err⟩] 0 then
        { v with
          attempts := attemptsAfter pol v.attempts [⟨ran, .returned err⟩]
          delay := delayAfter pol v.delay ⟨ran, .returned err⟩
          sup := .sendDone err true }
      else
        { v with
          attempts := attemptsAfter pol v.attempts [⟨ran, .returned err⟩]
          delay := delayAfter pol v.delay ⟨ran, .returned err⟩
          sup := .observing
          caller := ⟨h.observe (.serviceRestarting i
            (attemptsAfter pol v.attempts [⟨ran, .returned err⟩])
            (delayAfter pol v.delay ⟨ran, .returned err⟩) err), none⟩ } := by
  unfold checkExit
  rw [hpol]
  by_cases hlong : ran ≥ pol.resetAfter <;>
    simp [applyPolicy, resetAttempts, attemptsAfter, delayAfter, StartRun.resets, Exhausted, hlong]

private theorem follows_check {i : Nat} {pol : RestartPolicy} (hpol : h.restart i = some pol)
    {runs : List StartRun} {raws : List Duration} {events : List SupEvent} {began : Int}
    {err : Result} (hf : Follows pol runs raws events (s.svc i))
    (hg : supGuard s i (.check began err) = true) (hstops : s.supStops i = false) :
    Follows pol (runs ++ [⟨s.now - began, .returned err⟩]) raws
      (events ++ supEventsOf i (s, .sup i (.check began err)))
      (svcEffect s i (.sup (.check began err)) (s.svc i)) := by
  simp only [supGuard, decide_eq_true_eq] at hg
  obtain ⟨hevents, hvaried⟩ := hf
  simp only [pending, hg, List.append_nil] at hevents
  simp only [Varied, hg] at hvaried
  obtain ⟨hno, hlength, hattempts, hdelay⟩ := hvaried
  have hsnoc := supervise_snoc pol ⟨s.now - began, .returned err⟩ runs 0 pol.initialDelay raws hno
  rw [hevents, ← hattempts, ← hdelay] at hsnoc
  have hsup : supEventsOf i (s, .sup i (.check began err)) =
      if (checkExit h i false (s.now - began) err (s.svc i)).sup = .observing then
        [.restarting (checkExit h i false (s.now - began) err (s.svc i)).attempts
          (checkExit h i false (s.now - began) err (s.svc i)).delay err]
      else [] := by
    simp [supEventsOf, Action.svcAct, hstops]
  rw [hsup, svcEffect, hstops, checkExit_eq_policy hpol]
  by_cases hgives : Exhausted pol (s.svc i).attempts [⟨s.now - began, .returned err⟩] 0
  · rw [eventsAfter, if_pos hgives] at hsnoc
    rw [if_pos hgives]
    exact ⟨by simpa [pending, StartRun.err_returned] using hsnoc, rfl⟩
  · rw [eventsAfter, if_neg hgives] at hsnoc
    rw [if_neg hgives]
    refine ⟨by simpa [pending, StartRun.err_returned] using hsnoc, ?_, by simp [hlength], ?_,
      fun raw => ?_⟩
    · exact exhausted_of_prefix hno (by rw [← hattempts]; exact hgives)
    · rw [attemptsAfter_append, ← hattempts]
    · rw [delayBefore_snoc pol _ raw runs _ raws hlength, ← hdelay]

/-- A step of the supervisor that does not observe a shutdown. -/
private theorem follows_sup {i : Nat} {pol : RestartPolicy} (hpol : h.restart i = some pol)
    {runs : List StartRun} {raws : List Duration} {events : List SupEvent} {a : SupAct}
    (hf : Follows pol runs raws events (s.svc i)) (hg : supGuard s i a = true)
    (hsees : seesStop i s (.sup i a) = false) :
    Follows pol (runs ++ (endedRun i (s, .sup i a)).toList)
      (raws ++ (rawOf i (s, .sup i a)).toList) (events ++ supEventsOf i (s, .sup i a))
      (svcEffect s i (.sup a) (s.svc i)) := by
  cases a with
  | check began err =>
      have hstops : s.supStops i = false := by simpa [seesStop] using hsees
      have hcheck := follows_check hpol hf hg hstops
      simpa [endedRun, rawOf, Action.svcAct] using hcheck
  | stopWaiting due => simp [seesStop] at hsees
  | restart due raw =>
      simp only [supGuard, decide_eq_true_eq] at hg
      obtain ⟨hevents, hvaried⟩ := hf
      simp only [pending, hg.1] at hevents
      simp only [Varied, hg.1] at hvaried
      obtain ⟨hno, hlength, hattempts, hdelay⟩ := hvaried
      simp only [endedRun, rawOf, supEventsOf, Action.svcAct, ↓reduceIte, Option.toList_none,
        Option.toList_some, List.append_nil]
      refine ⟨?_, hno, by simp [hlength], hattempts, ?_⟩
      · rw [supervise_raws pol raw runs _ _ raws (by omega), hevents]
        rfl
      · simp [svcEffect, restartHead, hpol, hdelay raw]
  | start | result began o =>
      simp only [supGuard, decide_eq_true_eq] at hg
      obtain ⟨hevents, hvaried⟩ := hf
      simp only [pending, hg] at hevents
      simp only [Varied, hg] at hvaried
      refine ⟨?_, ?_⟩
      · simpa [endedRun, rawOf, supEventsOf, Action.svcAct, svcEffect, pending] using hevents
      · simpa [endedRun, rawOf, Action.svcAct, svcEffect, Varied] using hvaried
  | wait =>
      simp only [supGuard, decide_eq_true_eq] at hg
      obtain ⟨hevents, hvaried⟩ := hf
      simp only [pending, hg.1] at hevents
      simp only [Varied, hg.1] at hvaried
      refine ⟨?_, ?_⟩
      · simpa [endedRun, rawOf, supEventsOf, Action.svcAct, svcEffect, pending] using hevents
      · simpa [endedRun, rawOf, Action.svcAct, svcEffect, Varied] using hvaried
  | sendDone err report =>
      simp only [supGuard, decide_eq_true_eq] at hg
      obtain ⟨hevents, hvaried⟩ := hf
      simp only [pending, hg.1] at hevents
      simp only [Varied, hg.1] at hvaried
      subst hvaried
      refine ⟨?_, by simp [Varied, svcEffect]⟩
      simpa [endedRun, rawOf, supEventsOf, Action.svcAct, svcEffect, pending] using hevents
  | sendExit err =>
      simp only [supGuard, decide_eq_true_eq] at hg
      obtain ⟨hevents, -⟩ := hf
      simp only [pending, hg.1] at hevents
      refine ⟨?_, by simp [Varied, svcEffect]⟩
      simpa [endedRun, rawOf, supEventsOf, Action.svcAct, svcEffect, pending] using hevents

/-- No other step changes what the loop depends on. -/
private theorem follows_keep {pol : RestartPolicy} {runs : List StartRun} {raws : List Duration}
    {events : List SupEvent} {v v' : Svc} (hf : Follows pol runs raws events v)
    (hsup : v'.sup = v.sup) (hattempts : v'.attempts = v.attempts) (hdelay : v'.delay = v.delay) :
    Follows pol runs raws events v' := by
  obtain ⟨hevents, hvaried⟩ := hf
  refine ⟨?_, ?_⟩
  · rw [hevents, pending, pending, hsup, hdelay]
  · rw [Varied, hsup, hattempts, hdelay]
    exact hvaried

/-- As long as a supervisor has not observed a shutdown it follows the loop. -/
theorem follows_of_run (hr : RunIf h ok τ s) {i : Nat} {pol : RestartPolicy}
    (hpol : h.restart i = some pol) : ¬ StopSeen h i τ →
      Follows pol (endedRuns h i τ) (rawLog h i τ) (supEvents h i τ) (s.svc i) := by
  refine hr.invariant (fun (τ : List Action) (s : State h) => ¬ StopSeen h i τ →
    Follows pol (endedRuns h i τ) (rawLog h i τ) (supEvents h i τ) (s.svc i)) ?_ ?_
  · exact fun _ => ⟨rfl, rfl, rfl, rfl⟩
  · intro τ s a hr ih _ hg hnot
    rw [stopSeen_snoc hr, not_or, Bool.not_eq_true] at hnot
    have hf := ih hnot.1
    have hruns : endedRuns h i (τ ++ [a]) = endedRuns h i τ ++ (endedRun i (s, a)).toList := by
      rw [endedRuns, hr.steps_snoc, List.filterMap_append]
      cases hrun : endedRun i (s, a) <;> simp [endedRuns, hrun]
    have hraws : rawLog h i (τ ++ [a]) = rawLog h i τ ++ (rawOf i (s, a)).toList := by
      rw [rawLog, hr.steps_snoc, List.filterMap_append]
      cases hraw : rawOf i (s, a) <;> simp [rawLog, hraw]
    have hevents : supEvents h i (τ ++ [a]) = supEvents h i τ ++ supEventsOf i (s, a) := by
      rw [supEvents, hr.steps_snoc, List.flatMap_append, List.flatMap_singleton, supEvents]
    rw [hruns, hraws, hevents]
    cases hab : a.svcAct i with
    | none => simpa [endedRun, rawOf, supEventsOf, hab, svc_other s hab] using hf
    | some b =>
        obtain rfl := svcAct_eq_some hab
        rw [svc_action]
        cases b with
        | sup a => exact follows_sup hpol hf hg hnot.2
        | launch =>
            have hborn : (s.svc i).sup = .unborn := by
              by_contra hborn
              exact launch_fresh hr hg ((launched_iff hr i).mp hborn)
            obtain ⟨hevents, hvaried⟩ := hf
            simp only [pending, hborn] at hevents
            simp only [Varied, hborn] at hvaried
            obtain ⟨hnone, hnone', hzero⟩ := hvaried
            simp only [endedRun, rawOf, supEventsOf, SvcAct.action, Action.svcAct, ↓reduceIte,
              Option.toList_none, List.append_nil]
            rw [hnone, hnone'] at hevents ⊢
            exact ⟨hevents, by simp, rfl, hzero, by simp [svcEffect, spawn, hpol, delayBefore]⟩
        | call a | stopper a =>
            simp only [endedRun, rawOf, supEventsOf, svcAct_action, Option.toList_none,
              List.append_nil]
            cases a <;> exact follows_keep hf rfl rfl rfl
        | _ =>
            simp only [endedRun, rawOf, supEventsOf, svcAct_action, Option.toList_none,
              List.append_nil]
            exact follows_keep hf rfl rfl rfl

/-- As long as a supervisor has not observed a shutdown, its events, followed by those
it is about to cause, are the events of the loop for the outcomes of its calls of
`Start`. -/
theorem supervise_of_run (hr : RunIf h ok τ s) {i : Nat} {pol : RestartPolicy}
    (hpol : h.restart i = some pol) (hseen : ¬ StopSeen h i τ) :
    supervise pol 0 pol.initialDelay (endedRuns h i τ) (rawLog h i τ) =
      supEvents h i τ ++ pending (s.svc i) :=
  (follows_of_run hr hpol hseen).events_eq

end Shost.Ports.Hosting
