import Shost.Ports.CronCancel

/-!
# Ticks that arrive during a run

A ticker puts its ticks into a channel with room for one and drops those that find it
full.  A tick that arrives while the job runs finds it empty, stays there, and starts the
next run as soon as the job is through.

## Main results

* `tick_after_long_run` — a run of the job that a tick from the run before has started.
* `dropsMidRun_iff` — no run is started so when no tick arrives in an empty channel
  during a run, unless that run is the last one; and a tick that does can start a run.
-/

namespace Shost.Ports.CronService

open Shost.Verified Shost.Ports.Hosting Shost.Ports.GoTime Trace

/-! ## Arrivals -/

/-- The tick that a step puts into the channel: its time, and whether it arrives while a
run is in progress. -/
def arrival (s : State) : Action → Option (Int × Bool)
  | .tick _ => if s.ticks.hasRoom then some (s.now.abs, s.pc.inRun) else none
  | _ => none

/-- The ticks put into the channel, in order. -/
def arrivals (svc : Service) (now : Time) (τ : List Action) : List (Int × Bool) :=
  ((system svc).steps (State.init now) τ).filterMap fun p => arrival p.1 p.2

/-- The ticks that have started a run, in order. -/
def taken (τ : List Action) : List Int :=
  τ.filterMap fun
    | .takeTick time => some time
    | _ => none

/-- The steps at the two ends of the channel. -/
def Action.usesTicks : Action → Bool
  | .tick _ | .takeTick _ => true
  | _ => false

/-- Every periodic run is started by a tick that arrived while no run was in progress. -/
def DropsMidRun (svc : Service) (now : Time) (τ : List Action) : Prop :=
  ∀ (k : Nat) (time : Int), (taken τ)[k]? = some time →
    (arrivals svc now τ)[k]? = some (time, false)

/-- A failed run is in progress, behind which `Start` returns. -/
def Service.stopping (svc : Service) : PC → Bool
  | .report _ _ | .handler _ _ | .runEnds _ (some _) => svc.stopOnError
  | _ => false

/-- No tick arrives in an empty channel during a run, unless `Start` returns behind it. -/
def NoTickMidRun (svc : Service) (s : State) (a : Action) : Prop :=
  ∀ t ∈ arrival s a, t.2 = true → svc.stopping s.pc = true

instance (svc : Service) (s : State) (a : Action) : Decidable (NoTickMidRun svc s a) :=
  inferInstanceAs (Decidable (∀ t ∈ arrival s a, _ → _))

variable {svc : Service} {ok : State → Action → Prop} {now : Time} {τ : List Action} {s : State}

theorem arrivals_snoc (hr : RunIf svc ok now τ s) (a : Action) :
    arrivals svc now (τ ++ [a]) = arrivals svc now τ ++ (arrival s a).toList := by
  rw [arrivals, hr.steps_snoc a, List.filterMap_append, ← arrivals]
  cases harrival : arrival s a <;> simp [harrival]

theorem taken_snoc (τ : List Action) (a : Action) :
    taken (τ ++ [a]) = taken τ ++ taken [a] := List.filterMap_append

/-- No other step changes the channel. -/
theorem ticks_other {a : Action} (hother : a.usesTicks = false) :
    (effect svc s a).ticks = s.ticks ∧ arrival s a = none ∧ taken [a] = [] := by
  cases a with
  | tick t | takeTick t => cases hother
  | setup => cases htiming : svc.timing <;> simp [effect, htiming, arrival, taken]
  | runEnds c err t =>
      refine ⟨?_, rfl, rfl⟩
      simp only [effect]
      split <;> rfl
  | _ => exact ⟨rfl, rfl, rfl⟩

/-- The ticks start runs in the order of their arrival. -/
theorem tick_fifo (hr : RunIf svc ok now τ s) :
    (arrivals svc now τ).map Prod.fst = taken τ ++ s.ticks.buf := by
  refine hr.invariant (fun (τ : List Action) (s : State) =>
    (arrivals svc now τ).map Prod.fst = taken τ ++ s.ticks.buf) rfl ?_
  intro τ s a hr ih _ hg
  rw [arrivals_snoc hr, taken_snoc, List.map_append, ih]
  cases huses : a.usesTicks with
  | false =>
      obtain ⟨hticks, harrival, htaken⟩ := @ticks_other svc s a huses
      rw [harrival, htaken]
      simp [system, hticks]
  | true =>
      cases a with
      | tick t =>
          cases hroom : s.ticks.hasRoom with
          | true => simp [arrival, hroom, taken, system, effect, Chan.buf_send hroom]
          | false =>
              have hfull : ¬ s.ticks.buf.length < 1 := by
                simpa [Chan.hasRoom] using hroom
              simp [arrival, hroom, taken, system, effect, Chan.send, hfull]
      | takeTick time =>
          have hpc : s.pc = .waitTick ∧ s.ticks.next = some time := of_decide_eq_true hg
          obtain ⟨rest, hbuf⟩ := (Chan.next_eq_some_iff _ _).mp hpc.2
          simp [arrival, taken, system, effect, hbuf]
      | _ => cases huses

theorem taken_le (hr : RunIf svc ok now τ s) :
    (taken τ).length ≤ (arrivals svc now τ).length := by
  have hlength := congrArg List.length (tick_fifo hr)
  rw [List.length_map, List.length_append] at hlength
  omega

/-! ## Runs without ticks during runs -/

/-- `Start` returns, or has returned. -/
def Service.over (svc : Service) : PC → Bool
  | .returned _ => true
  | pc => svc.stopping pc

theorem over_of_stopping {pc : PC} (hpc : svc.stopping pc = true) : svc.over pc = true := by
  cases pc with
  | returned res => rfl
  | _ => exact hpc

/-- There is no way back to the loop. -/
theorem over_step {a : Action} {pc pc' : PC} (hstep : PCStep svc now a pc pc')
    (hover : svc.over pc = true) : svc.over pc' = true := by
  cases hstep with
  | wait | cancel | tick => exact hover
  | callHandler | handlerReturns => exact hover
  | takeCtx | stops => rfl
  | @goesOn c r hgo =>
      rcases hgo with rfl | hgo
      · cases hover
      · cases r with
        | none => cases hover
        | some err =>
            have hstop : svc.stopOnError = true := hover
            rw [hstop] at hgo
            cases hgo
  | _ => cases hover

/-- Where no tick arrives during a run that the loop goes on behind, the ticks that
have started a run did not. -/
theorem untouched_of_run (hr : RunIf svc (NoTickMidRun svc) now τ s) :
    (∀ x ∈ (arrivals svc now τ).take (taken τ).length, x.2 = false) ∧
      (svc.over s.pc = false → ∀ x ∈ arrivals svc now τ, x.2 = false) := by
  refine hr.invariant (fun (τ : List Action) (s : State) =>
    (∀ x ∈ (arrivals svc now τ).take (taken τ).length, x.2 = false) ∧
      (svc.over s.pc = false → ∀ x ∈ arrivals svc now τ, x.2 = false)) ?_ ?_
  · exact ⟨nofun, fun _ => nofun⟩
  · intro τ s a hr ih hok hg
    have hbefore : svc.over (effect svc s a).pc = false → svc.over s.pc = false := by
      intro hafter
      cases hover : svc.over s.pc with
      | false => rfl
      | true =>
          rw [over_step (pcStep_of_guard hg) hover] at hafter
          cases hafter
    rw [arrivals_snoc hr, taken_snoc]
    cases huses : a.usesTicks with
    | false =>
        obtain ⟨-, harrival, htaken⟩ := @ticks_other svc s a huses
        rw [harrival, htaken, Option.toList_none, List.append_nil, List.append_nil]
        exact ⟨ih.1, fun hafter => ih.2 (hbefore hafter)⟩
    | true =>
        cases a with
        | tick t =>
            have htaken : taken [.tick t] = [] := rfl
            rw [htaken, List.append_nil, List.take_append_of_le_length (taken_le hr)]
            refine ⟨ih.1, fun hafter x hx => ?_⟩
            rcases List.mem_append.mp hx with hx | hx
            · exact ih.2 (hbefore hafter) x hx
            · cases hrun : x.2 with
              | false => rfl
              | true =>
                  have hstopping := hok x (Option.mem_toList.mp hx) hrun
                  have hover := hbefore hafter
                  rw [over_of_stopping hstopping] at hover
                  cases hover
        | takeTick time =>
            have hpc : s.pc = .waitTick ∧ s.ticks.next = some time := of_decide_eq_true hg
            have hall : ∀ x ∈ arrivals svc now τ, x.2 = false :=
              ih.2 (by rw [hpc.1]; rfl)
            have harrival : arrival s (.takeTick time) = none := rfl
            rw [harrival, Option.toList_none, List.append_nil]
            exact ⟨fun x hx => hall x (List.mem_of_mem_take hx), fun _ => hall⟩
        | _ => cases huses

/-- In such a run no tick that arrives during a run starts one. -/
theorem drops_of_run (hr : RunIf svc (NoTickMidRun svc) now τ s) : DropsMidRun svc now τ := by
  intro k time htime
  have hfifo := tick_fifo hr
  have hk : k < (taken τ).length := (List.getElem?_eq_some_iff.mp htime).1
  have hfst : ((arrivals svc now τ).map Prod.fst)[k]? = some time := by
    rw [hfifo, List.getElem?_append_left hk, htime]
  rw [List.getElem?_map] at hfst
  obtain ⟨x, hx, rfl⟩ := Option.map_eq_some_iff.mp hfst
  have hmem : x ∈ (arrivals svc now τ).take (taken τ).length := by
    refine List.mem_of_getElem? (i := k) ?_
    rw [List.getElem?_take_of_lt hk, hx]
  rw [hx, ← (untouched_of_run hr).1 x hmem]

/-! ## A tick during a run -/

/-- The places of the loop of `Every`. -/
def PC.periodic : PC → Bool
  | .waitTick => true
  | .enterRun c | .jitter c _ | .timeout c | .call c _ | .job c _ | .report c _ | .handler c _
  | .runEnds c _ => decide (c = .tick)
  | _ => false

/-- Only a return leads out of the loop of `Every`. -/
theorem periodic_step {a : Action} {pc pc' : PC} (hstep : PCStep svc now a pc pc')
    (hperiodic : pc.periodic = true) :
    pc'.periodic = true ∨ (∃ e, a = .takeCtx e) ∨
      ∃ c err time, a = .runEnds c (some err) time ∧ svc.stopOnError = true := by
  cases hstep with
  | takeTick => exact Or.inl rfl
  | takeCtx e => exact Or.inr (Or.inl ⟨e, rfl⟩)
  | stops hstop => exact Or.inr (Or.inr ⟨_, _, _, rfl, hstop⟩)
  | @goesOn c =>
      obtain rfl : c = .tick := of_decide_eq_true hperiodic
      exact Or.inl rfl
  | immediate | begin | newTicker | newTimer => cases hperiodic
  | takeFirst | parks | fires | untilNext | reset | takeTimer => cases hperiodic
  | _ => exact Or.inl hperiodic

/-- A ticker is created in front of the loop of `Every` only. -/
theorem ticker_step {a : Action} (hg : guard svc s a = true)
    (hs : (effect svc s a).ticker ≠ none) :
    s.ticker ≠ none ∨ (effect svc s a).pc = .waitTick := by
  cases a with
  | tick t =>
      have hticker : s.ticker = some t ∧ t.due ≤ s.now.abs := of_decide_eq_true hg
      exact Or.inl (by simp [hticker.1])
  | setup =>
      cases htiming : svc.timing with
      | every interval pos => exact Or.inr (by simp [effect, htiming])
      | «at» sched => exact Or.inl (by simpa [effect, htiming] using hs)
  | takeCtx e => exact absurd rfl hs
  | runEnds c err t =>
      simp only [effect] at hs
      split at hs
      · exact absurd rfl hs
      · exact Or.inl hs
  | _ => exact Or.inl hs

/-- The ticker runs in the loop of `Every` only. -/
theorem periodic_of_ticker (hr : RunIf svc ok now τ s) (hs : s.ticker ≠ none) :
    s.pc.periodic = true := by
  refine hr.invariant (fun _ (s : State) => s.ticker ≠ none → s.pc.periodic = true) ?_ ?_ hs
  · exact fun hinit => absurd rfl hinit
  · intro τ s a _ ih _ hg hs
    rcases ticker_step hg hs with hbefore | hwaits
    · rcases periodic_step (pcStep_of_guard hg) (ih hbefore) with
        hin | ⟨e, rfl⟩ | ⟨c, err, time, rfl, hstop⟩
      · exact hin
      · exact absurd rfl hs
      · simp [system, effect, hstop, State.ret] at hs
    · have hpc : ((system svc).effect s a).pc = .waitTick := hwaits
      rw [hpc]
      rfl

/-- A run of the loop of `Every` is in progress that the loop goes on behind. -/
def Service.loops (svc : Service) (pc : PC) : Bool :=
  pc.periodic && pc.inRun && !svc.stopping pc

/-- What is left of the way to the next select, when the job returns nil. -/
def State.toTick (s : State) : Nat :=
  match s.pc with
  | .enterRun _ => 8
  | .jitter _ due => if due ≤ s.now.abs then 6 else 7
  | .timeout _ => 5
  | .call _ _ => 4
  | .job _ _ => 3
  | .report _ _ => 3
  | .handler _ _ => 2
  | .runEnds _ _ => 1
  | _ => 0

/-- A run that the loop goes on behind can come to its end, with the channel untouched. -/
theorem reaches_select {s : State} (hs : svc.loops s.pc = true) :
    ∃ τ s', (system svc).Runs s τ s' ∧ (∀ a ∈ τ, (!a.usesTicks) = true) ∧ s'.pc = .waitTick := by
  refine @Lts.reaches_of_rank _ _ (system svc) (fun _ _ => True)
    (fun s => svc.loops s.pc = true) (fun s => s.pc = .waitTick) (fun a => !a.usesTicks)
    State.toTick ?_ s hs
  intro s hs
  cases hpc : s.pc with
  | enterRun c =>
      obtain rfl : c = .tick := by
        simpa [Service.loops, hpc, PC.periodic, PC.inRun, Service.stopping] using hs
      obtain hpos | hzero := svc.jitter_nonneg.lt_or_eq
      · refine ⟨.enterRun .tick 0, rfl, trivial, ?_, Or.inr ⟨?_, ?_⟩⟩
        · simp [system, guard, hpc, Service.draws, hpos]
        · simp [system, effect, hpos, Service.loops, PC.periodic, PC.inRun, Service.stopping]
        · simp [system, effect, hpos, State.toTick, hpc]
      · refine ⟨.enterRun .tick 0, rfl, trivial, ?_, Or.inr ⟨?_, ?_⟩⟩
        · simp [system, guard, hpc, Service.draws, ← hzero]
        · simp [system, effect, ← hzero, Service.loops, PC.periodic, PC.inRun, Service.stopping]
        · simp [system, effect, ← hzero, State.toTick, hpc]
  | jitter c due =>
      obtain rfl : c = .tick := by
        simpa [Service.loops, hpc, PC.periodic, PC.inRun, Service.stopping] using hs
      by_cases hdue : due ≤ s.now.abs
      · refine ⟨.takeDelay .tick due, rfl, trivial, by simp [system, guard, hpc, hdue],
          Or.inr ⟨rfl, ?_⟩⟩
        simp [system, effect, State.toTick, hpc, hdue]
      · refine ⟨.wait (due - s.now.abs), rfl, trivial, ?_, Or.inr ⟨hs, ?_⟩⟩
        · show decide ((0 : Int) ≤ due - s.now.abs) = true
          simpa using (not_le.mp hdue).le
        · simp [system, effect, State.toTick, hpc, hdue, Time.add]
  | timeout c =>
      obtain rfl : c = .tick := by
        simpa [Service.loops, hpc, PC.periodic, PC.inRun, Service.stopping] using hs
      exact ⟨.setTimeout .tick, rfl, trivial, by simp [system, guard, hpc],
        Or.inr ⟨rfl, by simp [system, effect, State.toTick, hpc]⟩⟩
  | call c deadline =>
      obtain rfl : c = .tick := by
        simpa [Service.loops, hpc, PC.periodic, PC.inRun, Service.stopping] using hs
      exact ⟨.callJob .tick deadline, rfl, trivial, by simp [system, guard, hpc],
        Or.inr ⟨rfl, by simp [system, effect, State.toTick, hpc]⟩⟩
  | job c deadline =>
      obtain rfl : c = .tick := by
        simpa [Service.loops, hpc, PC.periodic, PC.inRun, Service.stopping] using hs
      refine ⟨.jobEnds .tick deadline s.now.abs (.returned none), rfl, trivial,
        by simp [system, guard, hpc], Or.inr ⟨rfl, ?_⟩⟩
      simp [system, effect, Service.jobError, recovered, Service.afterJob, State.toTick, hpc]
  | report c err =>
      obtain ⟨rfl, hgo⟩ : c = .tick ∧ svc.stopOnError = false := by
        simpa [Service.loops, hpc, PC.periodic, PC.inRun, Service.stopping] using hs
      refine ⟨.callHandler .tick err, rfl, trivial, by simp [system, guard, hpc],
        Or.inr ⟨?_, by simp [system, effect, State.toTick, hpc]⟩⟩
      simp [system, effect, Service.loops, PC.periodic, PC.inRun, Service.stopping, hgo]
  | handler c err =>
      obtain ⟨rfl, hgo⟩ : c = .tick ∧ svc.stopOnError = false := by
        simpa [Service.loops, hpc, PC.periodic, PC.inRun, Service.stopping] using hs
      refine ⟨.handlerReturns .tick err, rfl, trivial, by simp [system, guard, hpc],
        Or.inr ⟨?_, by simp [system, effect, State.toTick, hpc]⟩⟩
      simp [system, effect, Service.loops, PC.periodic, PC.inRun, Service.stopping, hgo]
  | runEnds c err =>
      have hgo : c = .tick ∧ ¬ (err ≠ none ∧ svc.stopOnError = true) := by
        cases err <;>
          simpa [Service.loops, hpc, PC.periodic, PC.inRun, Service.stopping] using hs
      obtain ⟨rfl, hgo⟩ := hgo
      refine ⟨.runEnds .tick err s.now.abs, rfl, trivial, by simp [system, guard, hpc],
        Or.inl ?_⟩
      simp [system, effect, hgo, Cause.goesOn]
  | _ =>
      rw [Service.loops, hpc] at hs
      cases hs

/-- Where the channel is not used, nothing arrives and nothing is taken. -/
theorem unused_of_run {s' : State} {τ' : List Action} (hr : Run svc now τ s)
    (hr' : (system svc).Runs s τ' s') (hall : ∀ a ∈ τ', (!a.usesTicks) = true) :
    s'.ticks = s.ticks ∧ arrivals svc now (τ ++ τ') = arrivals svc now τ ∧
      taken (τ ++ τ') = taken τ := by
  refine hr'.invariant (fun (τ' : List Action) (s' : State) => (∀ a ∈ τ', (!a.usesTicks) = true) →
    s'.ticks = s.ticks ∧ arrivals svc now (τ ++ τ') = arrivals svc now τ ∧
      taken (τ ++ τ') = taken τ) ?_ ?_ hall
  · exact fun _ => ⟨rfl, by rw [List.append_nil], by rw [List.append_nil]⟩
  · intro τ' s' a hr' ih _ hg hall
    obtain ⟨hticks, harrivals, htaken⟩ := ih fun b hb => hall b (List.mem_append_left _ hb)
    have hother : a.usesTicks = false := by simpa using hall a (by simp)
    obtain ⟨hsame, hnone, hnil⟩ := @ticks_other svc s' a hother
    refine ⟨hsame.trans hticks, ?_, ?_⟩
    · rw [← List.append_assoc, arrivals_snoc (hr.trans hr'), harrivals, hnone,
        Option.toList_none, List.append_nil]
    · rw [← List.append_assoc, taken_snoc, htaken, hnil, List.append_nil]

/-- Once the run in progress has ended, the tick that waits can start the next one. -/
theorem takes_waiting (hr : Run svc now τ s) (hloops : svc.loops s.pc = true) {time : Int}
    (hbuf : s.ticks.buf = [time]) :
    ∃ τ' s', Run svc now (τ ++ τ') s' ∧ arrivals svc now (τ ++ τ') = arrivals svc now τ ∧
      taken (τ ++ τ') = taken τ ++ [time] := by
  obtain ⟨τ', s', hr', hall, hpc⟩ := reaches_select hloops
  obtain ⟨hticks, harrivals, htaken⟩ := unused_of_run hr hr' hall
  have hnext : s'.ticks.next = some time :=
    (Chan.next_eq_some_iff _ _).mpr ⟨[], by rw [hticks, hbuf]⟩
  have hrun : Run svc now (τ ++ τ') s' := hr.trans hr'
  have hlast : Run svc now (τ ++ τ' ++ [.takeTick time]) _ :=
    hrun.snoc trivial (by simp [system, guard, hpc, hnext])
  refine ⟨τ' ++ [.takeTick time], _, by simpa using hlast, ?_, ?_⟩
  · rw [← List.append_assoc, arrivals_snoc hrun, harrivals]
    exact List.append_nil _
  · rw [← List.append_assoc, taken_snoc, htaken]
    rfl

/-- A tick that arrives in an empty channel during a run can start the next one. -/
theorem starts_of_arrival (hr : Run svc now τ s) {a : Action} (hg : guard svc s a = true)
    (hnot : ¬ NoTickMidRun svc s a) :
    ∃ τ' s', Run svc now (τ ++ a :: τ') s' ∧ ¬ DropsMidRun svc now (τ ++ a :: τ') := by
  obtain ⟨x, hx, hrun, hgo⟩ : ∃ x ∈ arrival s a, x.2 = true ∧ svc.stopping s.pc = false := by
    simpa [NoTickMidRun] using hnot
  cases a with
  | tick t =>
      have hticker : s.ticker = some t ∧ t.due ≤ s.now.abs := of_decide_eq_true hg
      have hperiodic := periodic_of_ticker hr (by simp [hticker.1])
      cases hroom : s.ticks.hasRoom with
      | false => simp [arrival, hroom] at hx
      | true =>
          obtain rfl : (s.now.abs, s.pc.inRun) = x := by simpa [arrival, hroom] using hx
          have hrun : s.pc.inRun = true := hrun
          have hempty : s.ticks.buf = [] := by
            have hlength := (Chan.hasRoom_iff _).mp hroom
            exact List.length_eq_zero_iff.mp (by omega)
          have htick : Run svc now (τ ++ [.tick t]) (effect svc s (.tick t)) := hr.snoc trivial hg
          have hloops : svc.loops (effect svc s (.tick t)).pc = true := by
            simp [effect, Service.loops, hperiodic, hgo, hrun]
          have hbuf : (effect svc s (.tick t)).ticks.buf = [s.now.abs] := by
            rw [effect, Chan.buf_send hroom, hempty, List.nil_append]
          obtain ⟨τ', s', hr', harrivals, htaken⟩ := takes_waiting htick hloops hbuf
          have hequal : (arrivals svc now τ).length = (taken τ).length := by
            simpa [hempty] using congrArg List.length (tick_fifo hr)
          have harrived : arrivals svc now (τ ++ .tick t :: τ') =
              arrivals svc now τ ++ [(s.now.abs, true)] := by
            rw [← List.singleton_append, ← List.append_assoc, harrivals, arrivals_snoc hr]
            simp [arrival, hroom, hrun]
          have htook : taken (τ ++ .tick t :: τ') = taken τ ++ [s.now.abs] := by
            rw [← List.singleton_append, ← List.append_assoc, htaken, taken_snoc]
            simp [taken]
          refine ⟨τ', s', by simpa using hr', fun hdrops => ?_⟩
          have hstarted := hdrops (taken τ).length s.now.abs
          rw [harrived, htook] at hstarted
          simp [← hequal] at hstarted
  | _ => cases hx

/-- No periodic run is started by a tick that arrived during a run, in every run in which
no tick arrives in an empty channel during a run that the loop goes on behind; a step
with which one does can be followed by a run that it starts. -/
theorem dropsMidRun_iff (svc : Service) (now : Time) :
    (∀ τ s, RunIf svc (NoTickMidRun svc) now τ s → DropsMidRun svc now τ) ∧
      ∀ τ s a, Run svc now τ s → guard svc s a = true → ¬ NoTickMidRun svc s a →
        ∃ τ' s', Run svc now (τ ++ a :: τ') s' ∧ ¬ DropsMidRun svc now (τ ++ a :: τ') :=
  ⟨fun _ _ hr => drops_of_run hr, fun _ _ _ hr hg hnot => starts_of_arrival hr hg hnot⟩

/-- The job runs for a second and a half. -/
def longRun : List Action :=
  [.begin, .setup, .wait second, .tick ⟨second, second⟩, .takeTick second, .enterRun .tick 0,
    .setTimeout .tick, .callJob .tick none, .wait second, .tick ⟨2 * second, second⟩,
    .wait (second / 2), .jobEnds .tick none (5 * second / 2) (.returned none),
    .runEnds .tick none (5 * second / 2), .takeTick (2 * second)]

/-- A tick that arrives during a run can start the next one. -/
theorem tick_after_long_run : ¬ ∀ (svc : Service) (now : Time) (τ : List Action) (s : State),
    Run svc now τ s → DropsMidRun svc now τ := by
  intro hall
  have hr : Run secondService Time.zero longRun _ := Lts.Admits.run (by decide)
  have hdrops := hall secondService Time.zero longRun _ hr 1 (2 * second) (by decide)
  exact absurd hdrops (by decide)

/-- The job runs for half a second. -/
def shortRun : List Action :=
  [.begin, .setup, .wait second, .tick ⟨second, second⟩, .takeTick second, .enterRun .tick 0,
    .setTimeout .tick, .callJob .tick none, .wait (second / 2),
    .jobEnds .tick none (3 * second / 2) (.returned none),
    .runEnds .tick none (3 * second / 2), .wait (second / 2), .tick ⟨2 * second, second⟩,
    .takeTick (2 * second)]

theorem dropsMidRun_shortRun : DropsMidRun secondService Time.zero shortRun :=
  (dropsMidRun_iff secondService Time.zero).1 shortRun _ (Lts.Admits.run (by decide))

end Shost.Ports.CronService
