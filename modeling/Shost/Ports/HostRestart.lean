import Mathlib.Data.List.DropRight
import Shost.Ports.HostSupervise

/-!
# Restarts without a shutdown

What `supervise` does with a service that has a restart policy, as long as no
shutdown begins, depends on the outcomes of the calls of `Start` alone: on how
long each call took and on what it returned.  `supervise` maps a list of outcomes
to the events of the loop.  An infinite sequence of outcomes is given by its
prefixes.

## Main results

* `normal_of_validate` — the stored form of an accepted policy is as a host needs it.
* `restart_budget` — the loop gives up at the first outcome for which the runs
  since the last long one exhaust `MaxAttempts`.
-/

namespace Shost.Ports.Hosting

/-! ## The policy -/

def defaultRestartInitialDelay : Duration := 1000000000

def defaultRestartMaxDelay : Duration := 60000000000

def defaultRestartFactor : ℚ := 2

def defaultRestartResetAfter : Duration := 60000000000

namespace RestartPolicy

/-- `normalized`: zero-valued fields take the defaults. -/
def normalized (p : RestartPolicy) : RestartPolicy where
  maxAttempts := p.maxAttempts
  initialDelay := if p.initialDelay = 0 then defaultRestartInitialDelay else p.initialDelay
  maxDelay := if p.maxDelay = 0 then defaultRestartMaxDelay else p.maxDelay
  factor := if p.factor = 0 then defaultRestartFactor else p.factor
  resetAfter := if p.resetAfter = 0 then defaultRestartResetAfter else p.resetAfter

/-- The errors of `validate`. -/
inductive Invalid where
  | negative
  | factor (f : ℚ)
  | maxDelay (max initial : Duration)
  deriving DecidableEq

/-- The text of an error; the arguments are the `%v` verb. -/
def Invalid.message (showFactor : ℚ → String) (showDuration : Duration → String) :
    Invalid → String
  | .negative => "shost: restart policy fields must be non-negative"
  | .factor f => "shost: restart factor must be >= 1, got " ++ showFactor f
  | .maxDelay max initial =>
      "shost: restart max delay " ++ showDuration max ++ " is less than initial delay " ++
        showDuration initial

/-- `validate`. -/
def validate (p : RestartPolicy) : Option Invalid :=
  if p.maxAttempts < 0 ∨ p.initialDelay < 0 ∨ p.maxDelay < 0 ∨ p.factor < 0 ∨
      p.resetAfter < 0 then some .negative
  else
    let n := p.normalized
    if n.factor < 1 then some (.factor n.factor)
    else if n.maxDelay < n.initialDelay then some (.maxDelay n.maxDelay n.initialDelay)
    else none

private theorem pos_of_default {x default : Duration} (hx : 0 ≤ x) (hdefault : 0 < default) :
    0 < if x = 0 then default else x := by
  split
  · exact hdefault
  · rename_i hne
    exact lt_of_le_of_ne hx (Ne.symm hne)

/-- What is stored of an accepted policy is what a host relies on. -/
theorem normal_of_validate {p : RestartPolicy} (hp : p.validate = none) :
    p.normalized.Normal := by
  unfold validate at hp
  split at hp
  · cases hp
  · rename_i hnonneg
    simp only [not_or, not_lt] at hnonneg
    obtain ⟨hattempts, hinitial, -, -, hreset⟩ := hnonneg
    dsimp only at hp
    split at hp
    · cases hp
    · rename_i hfactor
      split at hp
      · cases hp
      · rename_i hdelay
        refine ⟨hattempts, ?_, not_lt.mp hdelay, not_lt.mp hfactor, ?_⟩
        · exact pos_of_default hinitial (by decide)
        · exact pos_of_default hreset (by decide)

end RestartPolicy

/-! ## The loop -/

/-- A call of `Start` that has ended. -/
structure StartRun where
  ran : Duration
  outcome : Outcome

/-- What `supervise` sees of it. -/
def StartRun.err (run : StartRun) : Result := safeStart run.outcome

theorem StartRun.err_returned (ran : Duration) (err : Result) :
    StartRun.err ⟨ran, .returned err⟩ = err := rfl

/-- The run was long enough to forget the ones before it. -/
def StartRun.resets (pol : RestartPolicy) (run : StartRun) : Bool :=
  decide (run.ran ≥ pol.resetAfter)

/-- What happens in `supervise`. -/
inductive SupEvent where
  | start
  /-- `ServiceRestarting` is called -/
  | restarting (attempt : Int) (delay : Duration) (err : Result)
  | wait (delay : Duration)
  | done (err : Result)
  | exit (err : Result)
  deriving DecidableEq

/-- The event is a send to `done` or to `exits`. -/
def SupEvent.sends : SupEvent → Bool
  | .done _ | .exit _ => true
  | _ => false

/-- The loop of `supervise` with a policy, from the call of `Start` on, for the given
outcomes; behind them the last call of `Start` has not ended.  `raws` are the values
to which products outside the range of the type are converted. -/
def supervise (pol : RestartPolicy) :
    Int → Duration → List StartRun → List Duration → List SupEvent
  | _, _, [], _ => [.start]
  | attempts, delay, run :: runs, raws =>
      let attempts := (if run.resets pol then 0 else attempts) + 1
      let delay := if run.resets pol then pol.initialDelay else delay
      if pol.maxAttempts > 0 ∧ attempts > pol.maxAttempts then
        [.start, .done run.err, .exit run.err]
      else
        .start :: .restarting attempts delay run.err :: .wait delay ::
          supervise pol attempts (nextDelay pol delay (raws.headD 0)) runs raws.tail

/-! ## The budget -/

/-- After outcome `k` no restart is left: each of the last `MaxAttempts` runs up to it
was short. -/
def GivesUp (pol : RestartPolicy) (runs : List StartRun) (k : Nat) : Prop :=
  0 < pol.maxAttempts ∧ pol.maxAttempts ≤ k ∧
    ∀ run ∈ (runs.take (k + 1)).rtake pol.maxAttempts.toNat, run.ran < pol.resetAfter

/-- The attempt counter after some outcomes. -/
def attemptsAfter (pol : RestartPolicy) (attempts : Int) (runs : List StartRun) : Int :=
  runs.foldl (fun n run => (if run.resets pol then 0 else n) + 1) attempts

theorem attemptsAfter_append (pol : RestartPolicy) (attempts : Int) (runs runs' : List StartRun) :
    attemptsAfter pol attempts (runs ++ runs') =
      attemptsAfter pol (attemptsAfter pol attempts runs) runs' := List.foldl_append

theorem attemptsAfter_snoc (pol : RestartPolicy) (attempts : Int) (runs : List StartRun)
    (run : StartRun) :
    attemptsAfter pol attempts (runs ++ [run]) =
      (if run.resets pol then 0 else attemptsAfter pol attempts runs) + 1 :=
  attemptsAfter_append pol attempts runs [run]

theorem attemptsAfter_nonneg (pol : RestartPolicy) (runs : List StartRun) :
    0 ≤ attemptsAfter pol 0 runs := by
  induction runs using List.reverseRecOn with
  | nil => exact le_rfl
  | append_singleton runs run ih =>
      rw [attemptsAfter_snoc]
      split <;> omega

/-- The counter is above `m` when there are more than `m` runs and the last `m` of them
were short. -/
theorem lt_attemptsAfter_iff (pol : RestartPolicy) (runs : List StartRun) :
    ∀ m : Nat, (m : Int) < attemptsAfter pol 0 runs ↔
      m < runs.length ∧ ∀ run ∈ runs.rtake m, run.ran < pol.resetAfter := by
  induction runs using List.reverseRecOn with
  | nil =>
      intro m
      simp [attemptsAfter]
  | append_singleton runs run ih =>
      intro m
      rw [attemptsAfter_snoc, List.length_append, List.length_singleton]
      have hnonneg := attemptsAfter_nonneg pol runs
      cases m with
      | zero =>
          have hpos : (0 : Int) < (if run.resets pol then 0 else attemptsAfter pol 0 runs) + 1 := by
            split <;> omega
          simpa using hpos
      | succ m =>
          rw [List.rtake_concat_succ]
          by_cases hlong : run.resets pol = true
          · have hran : ¬ run.ran < pol.resetAfter := by
              simpa [StartRun.resets] using hlong
            constructor
            · intro hlt
              rw [if_pos hlong] at hlt
              omega
            · rintro ⟨-, hshort⟩
              exact absurd (hshort run (by simp)) hran
          · have hran : run.ran < pol.resetAfter := by
              simpa [StartRun.resets] using hlong
            rw [if_neg hlong]
            have hcast : ((m + 1 : Nat) : Int) < attemptsAfter pol 0 runs + 1 ↔
                (m : Int) < attemptsAfter pol 0 runs := by
              omega
            rw [hcast, ih m]
            constructor
            · rintro ⟨hlt, hshort⟩
              refine ⟨by omega, fun run' hrun' => ?_⟩
              rcases List.mem_append.mp hrun' with hold | hnew
              · exact hshort run' hold
              · rw [List.mem_singleton.mp hnew]
                exact hran
            · rintro ⟨hlt, hshort⟩
              exact ⟨by omega, fun run' hrun' => hshort run' (List.mem_append_left _ hrun')⟩

/-- The counter is above `MaxAttempts` after outcome `k`, starting from `attempts`. -/
def Exhausted (pol : RestartPolicy) (attempts : Int) (runs : List StartRun) (k : Nat) : Prop :=
  0 < pol.maxAttempts ∧ pol.maxAttempts < attemptsAfter pol attempts (runs.take (k + 1))

instance (pol : RestartPolicy) (attempts : Int) (runs : List StartRun) (k : Nat) :
    Decidable (Exhausted pol attempts runs k) :=
  inferInstanceAs (Decidable (_ ∧ _))

/-- The delay before a restart. -/
def delayAfter (pol : RestartPolicy) (delay : Duration) (run : StartRun) : Duration :=
  if run.resets pol then pol.initialDelay else delay

theorem supervise_exhausted {pol : RestartPolicy} {attempts : Int} {run : StartRun}
    {runs : List StartRun} (hgives : Exhausted pol attempts (run :: runs) 0)
    (delay : Duration) (raws : List Duration) :
    supervise pol attempts delay (run :: runs) raws = [.start, .done run.err, .exit run.err] := by
  rw [supervise]
  exact if_pos hgives

theorem supervise_continues {pol : RestartPolicy} {attempts : Int} {run : StartRun}
    {runs : List StartRun} (hgoes : ¬ Exhausted pol attempts (run :: runs) 0)
    (delay : Duration) (raws : List Duration) :
    supervise pol attempts delay (run :: runs) raws =
      .start :: .restarting (attemptsAfter pol attempts [run]) (delayAfter pol delay run) run.err ::
        .wait (delayAfter pol delay run) ::
          supervise pol (attemptsAfter pol attempts [run])
            (nextDelay pol (delayAfter pol delay run) (raws.headD 0)) runs raws.tail := by
  rw [supervise]
  exact if_neg hgoes

/-- The loop gives up when the counter is above `MaxAttempts`. -/
theorem givesUp_iff (pol : RestartPolicy) {runs : List StartRun} {k : Nat}
    (hk : k < runs.length) :
    GivesUp pol runs k ↔ Exhausted pol 0 runs k := by
  unfold GivesUp Exhausted
  refine and_congr_right fun hpos => ?_
  obtain ⟨m, hm⟩ := Int.eq_ofNat_of_zero_le hpos.le
  have hlength : (runs.take (k + 1)).length = k + 1 := by
    rw [List.length_take]
    omega
  rw [hm, lt_attemptsAfter_iff, hlength, Int.toNat_natCast]
  refine and_congr ?_ Iff.rfl
  omega

/-- `Start` is called `n` times, and nothing is sent. -/
def GoesOn (n : Nat) (events : List SupEvent) : Prop :=
  events.count .start = n ∧ ∀ e ∈ events, e.sends = false

/-- `Start` is called `n` times; then the result is sent to `done` and to `exits`. -/
def StopsWith (n : Nat) (err : Result) (events : List SupEvent) : Prop :=
  ∃ before, events = before ++ [.done err, .exit err] ∧ GoesOn n before

theorem GoesOn.restart {n : Nat} {events : List SupEvent} (hgo : GoesOn n events)
    (attempt : Int) (delay : Duration) (err : Result) :
    GoesOn (n + 1) (.start :: .restarting attempt delay err :: .wait delay :: events) := by
  refine ⟨by simp [hgo.1], fun e he => ?_⟩
  simp only [List.mem_cons] at he
  rcases he with rfl | rfl | rfl | he
  · rfl
  · rfl
  · rfl
  · exact hgo.2 e he

/-- With no outcome above the limit the loop goes on. -/
theorem goesOn_of_attempts (pol : RestartPolicy) (runs : List StartRun) :
    ∀ (attempts : Int) (delay : Duration) (raws : List Duration),
      (∀ k < runs.length, ¬ Exhausted pol attempts runs k) →
      GoesOn (runs.length + 1) (supervise pol attempts delay runs raws) := by
  induction runs with
  | nil =>
      intro attempts delay raws _
      exact ⟨rfl, by simp [supervise, SupEvent.sends]⟩
  | cons run runs ih =>
      intro attempts delay raws hno
      rw [supervise_continues (hno 0 (by simp))]
      refine GoesOn.restart (ih _ _ _ fun k hk => ?_) _ _ _
      exact hno (k + 1) (by simpa using hk)

/-- The first outcome above the limit ends the loop. -/
theorem stopsWith_of_attempts (pol : RestartPolicy) (runs : List StartRun) :
    ∀ (attempts : Int) (delay : Duration) (raws : List Duration) (k : Nat) (run : StartRun),
      runs[k]? = some run → Exhausted pol attempts runs k →
      (∀ j < k, ¬ Exhausted pol attempts runs j) →
      StopsWith (k + 1) run.err (supervise pol attempts delay runs raws) := by
  induction runs with
  | nil =>
      intro attempts delay raws k run hrun
      simp at hrun
  | cons first runs ih =>
      intro attempts delay raws k run hrun hgives hno
      cases k with
      | zero =>
          obtain rfl : first = run := by simpa using hrun
          rw [supervise_exhausted hgives]
          exact ⟨[.start], rfl, rfl, by simp [SupEvent.sends]⟩
      | succ k =>
          rw [supervise_continues (hno 0 (Nat.succ_pos k))]
          obtain ⟨before, hevents, hgo⟩ := ih (attemptsAfter pol attempts [first])
            (nextDelay pol (delayAfter pol delay first) (raws.headD 0)) raws.tail k run hrun
            hgives fun j hj => hno (j + 1) (Nat.succ_lt_succ hj)
          rw [hevents]
          exact ⟨_, rfl, hgo.restart _ _ _⟩

/-- `supervise` calls `Start` again after every outcome until the budget is used up: at
the first outcome for which that is so it sends the result of that run to `done` and to
`exits` and ends, and before that it sends nothing.  Without a limit the budget is
never used up. -/
theorem restart_budget (pol : RestartPolicy) (runs : List StartRun) (raws : List Duration) :
    ((∀ k < runs.length, ¬ GivesUp pol runs k) →
      GoesOn (runs.length + 1) (supervise pol 0 pol.initialDelay runs raws)) ∧
    (∀ k run, runs[k]? = some run → GivesUp pol runs k → (∀ j < k, ¬ GivesUp pol runs j) →
      StopsWith (k + 1) run.err (supervise pol 0 pol.initialDelay runs raws)) ∧
    (pol.maxAttempts = 0 →
      GoesOn (runs.length + 1) (supervise pol 0 pol.initialDelay runs raws)) := by
  have hgo : (∀ k < runs.length, ¬ GivesUp pol runs k) →
      GoesOn (runs.length + 1) (supervise pol 0 pol.initialDelay runs raws) := by
    intro hno
    exact goesOn_of_attempts pol runs 0 _ raws fun k hk => by
      rw [← givesUp_iff pol hk]
      exact hno k hk
  refine ⟨hgo, ?_, ?_⟩
  · intro k run hrun hgives hno
    obtain ⟨hk, -⟩ := List.getElem?_eq_some_iff.mp hrun
    refine stopsWith_of_attempts pol runs 0 _ raws k run hrun ((givesUp_iff pol hk).mp hgives) ?_
    intro j hj
    rw [← givesUp_iff pol (hj.trans hk)]
    exact hno j hj
  · intro hzero
    refine hgo fun k _ hgives => ?_
    have hpos := hgives.1
    omega

end Shost.Ports.Hosting
