import Shost.Ports.CronService
import Shost.Ports.HostBuilder
import Shost.Ports.HostServices
import Shost.Verified.Decimal

/-!
# The systemd watchdog

systemd tells a process in two variables of its environment how often it is to ping.
`WatchdogEnabled` reads them, and `Bind` adds a service that pings at half the interval.
The number of microseconds becomes a `time.Duration` by a product of `int64` values.

## Main results

* `sound_iff` — for which environments the interval is the given one, the ticker can be
  made, and the service does not stop its host.
-/

namespace Shost.Ports.Systemd

open Verified Bytes Decimal Hosting Building
open GoTime (Time)
open CronService (Ticker newTicker)

/-! ## `WatchdogEnabled` -/

/-- What is read of the process: variables of its environment, which are empty when they
are not set, and its number. -/
structure Env where
  notifySocket : Bytes
  watchdogUsec : Bytes
  watchdogPid : Bytes
  pid : Int

/-- `Available` -/
def available (env : Env) : Bool := decide (env.notifySocket ≠ [])

/-- `time.Microsecond` -/
def microsecond : Duration := 1000

/-- The product of two durations, which are `int64`. -/
def mulDuration (d d' : Duration) : Duration := (d * d').bmod (2 ^ 64)

/-- The pings are meant for another process. -/
def Env.Foreign (env : Env) : Prop :=
  env.watchdogPid ≠ [] ∧ env.watchdogPid ≠ signed env.pid

instance (env : Env) : Decidable env.Foreign := inferInstanceAs (Decidable (_ ∧ _))

/-- `WatchdogEnabled` -/
def watchdogEnabled (env : Env) : Duration × Bool :=
  if env.watchdogUsec = [] then (0, false)
  else
    match parseInt 64 env.watchdogUsec with
    | .error _ => (0, false)
    | .ok v =>
        if v ≤ 0 then (0, false)
        else if env.Foreign then (0, false)
        else (mulDuration v microsecond, true)

/-! ## `Start` of the watchdog service -/

/-- The place of `Start`. -/
inductive PC where
  /-- before the ticker is made -/
  | entry
  /-- select on the context and the ticker -/
  | select
  /-- in `Watchdog` -/
  | ping
  | returned (r : Result)
  | panicked (value : String)
  deriving DecidableEq

/-- The state of a call of `Start`: the clock, the error of its context once that is
done, the ticker and its channel. -/
structure State where
  now : Time
  ctx : Option CtxErr
  ticker : Option Ticker
  ticks : Chan Int 1
  pc : PC

def State.init (now : Time) : State where
  now := now
  ctx := none
  ticker := none
  ticks := .empty
  pc := .entry

/-- The actions: the passing of time, the end of the context, the firing of the ticker,
and the steps of `Start`.  The error of `Watchdog` is dropped. -/
inductive Action where
  | wait (d : Duration)
  | cancel (e : CtxErr)
  | tick (t : Ticker)
  | makeTicker
  | takeCtx (e : CtxErr)
  | takeTick (time : Int)
  | pinged (r : Result)
  deriving DecidableEq

def guard (s : State) : Action → Bool
  | .wait d => decide (0 ≤ d)
  | .cancel _ => decide (s.ctx = none)
  | .tick t => decide (s.ticker = some t ∧ t.due ≤ s.now.abs)
  | .makeTicker => decide (s.pc = .entry)
  | .takeCtx e => decide (s.pc = .select ∧ s.ctx = some e)
  | .takeTick time => decide (s.pc = .select ∧ s.ticks.next = some time)
  | .pinged _ => decide (s.pc = .ping)

/-- What `time.NewTicker` panics with. -/
def tickerPanic : String := "non-positive interval for NewTicker"

def effect (interval : Duration) (s : State) : Action → State
  | .wait d => { s with now := s.now.add d }
  | .cancel e => { s with ctx := some e }
  | .tick t => { s with ticker := some (t.fired s.now), ticks := s.ticks.send s.now.abs }
  | .makeTicker =>
      if interval ≤ 0 then { s with pc := .panicked tickerPanic }
      else { s with ticker := some (newTicker s.now interval), pc := .select }
  | .takeCtx e => { s with ticker := none, pc := .returned (some e.error) }
  | .takeTick _ => { s with ticks := s.ticks.drop, pc := .ping }
  | .pinged _ => { s with pc := .select }

/-- One call of `Start`. -/
def start (interval : Duration) : Lts State Action where
  guard := guard
  effect := effect interval

/-- A run of `Start`, from the moment of the call on. -/
abbrev Run (interval : Duration) (now : Time) (τ : List Action) (s : State) : Prop :=
  (start interval).Runs (State.init now) τ s

/-- The call has ended with the outcome. -/
def State.EndsWith (s : State) (o : Outcome) : Prop :=
  match s.pc with
  | .returned r => o = .returned r
  | .panicked value => ∃ stack, o = .panicked value stack
  | _ => False

/-- How a call can end, when its context is done or not. -/
def Ends (interval : Duration) (ctxDone : Bool) (o : Outcome) : Prop :=
  ∃ now τ s, Run interval now τ s ∧ s.EndsWith o ∧ (s.ctx ≠ none → ctxDone = true)

/-! ## `Bind` -/

/-- The functions that `Bind` hands to the builder, by their numbers. -/
structure Code where
  ready : Hook
  stopping : Hook
  watchdog : Duration → Nat
  watchdog_injective : Function.Injective watchdog

/-- `watchdogService` -/
def watchdogService (code : Code) (interval : Duration) : Building.Service where
  name := "sdnotify-watchdog"
  readier := false
  id := code.watchdog interval

/-- `Bind` -/
def bind (code : Code) (env : Env) (b : Builder) : Builder :=
  if available env then
    let b := (b.addOnStarted (some code.ready)).addOnStopping (some code.stopping)
    match watchdogEnabled env with
    | (interval, true) => b.addService (some (watchdogService code (interval.tdiv 2))) []
    | (_, false) => b
  else b

/-! ## What is to hold -/

/-- The calls of `Start` of the watchdog services of a host end as they can. -/
def Plays (code : Code) (h : BuiltHost) (s : Hosting.State h.host) : Hosting.Action → Prop
  | .sup i (.result _ o) => ∀ reg ∈ h.services[i]?, ∀ interval,
      reg.svc = watchdogService code interval → Ends interval (s.svc i).ctxDone o
  | _ => True

/-- The interval is the given one, and the service that `Bind` adds can run with it. -/
structure Sound (env : Env) (d : Duration) : Prop where
  pos : 0 < d
  given : ∃ n, Numeral env.watchdogUsec n ∧ d = n * microsecond
  half_pos : 0 < d.tdiv 2
  no_panic : ∀ now τ s, Run (d.tdiv 2) now τ s → ∀ value, s.pc ≠ .panicked value
  /-- an exit that stops the host is one of the services it had before -/
  not_stopped : ∀ (code : Code) (b : Builder) τ s,
    RunIf (bind code env b).toHost.host (Plays code (bind code env b).toHost) τ s →
      ∀ exit, .host (.run (.takeExit exit)) ∈ τ → exit.index < b.services.length

/-! ## The interval -/

section Interval

variable {env : Env} {d : Duration} {v : Int}

/-- What is enabled is a positive number of 64 bits, for this process. -/
theorem watchdogEnabled_iff : watchdogEnabled env = (d, true) ↔
    ∃ n, Numeral env.watchdogUsec n ∧ 0 < n ∧ n < 2 ^ 63 ∧ ¬env.Foreign ∧
      mulDuration n microsecond = d := by
  rw [watchdogEnabled]
  constructor
  · intro henabled
    split at henabled
    · cases henabled
    · split at henabled
      · cases henabled
      · next n hn =>
          obtain ⟨hnum, -, hlt⟩ := (parseInt_eq_ok_iff (by decide)).mp hn
          split at henabled
          · cases henabled
          · next hpos =>
              split at henabled
              · cases henabled
              · next hown =>
                  exact ⟨n, hnum, not_le.mp hpos, hlt, hown, congrArg Prod.fst henabled⟩
  · rintro ⟨n, hnum, hpos, hlt, hown, rfl⟩
    have hn : parseInt 64 env.watchdogUsec = .ok n :=
      (parseInt_eq_ok_iff (by decide)).mpr ⟨hnum, by omega, hlt⟩
    rw [if_neg hnum.ne_nil, hn]
    show (if n ≤ 0 then _ else _) = _
    rw [if_neg (not_le.mpr hpos), if_neg hown]

/-- The product is exact while it fits. -/
theorem mulDuration_eq_iff {n : Int} (hpos : 0 < n) :
    mulDuration n microsecond = n * microsecond ↔ n ≤ 9223372036854775 := by
  rw [mulDuration, microsecond]
  constructor
  · intro heq
    have hlt := Int.bmod_lt (x := n * 1000) (m := 2 ^ 64) (by decide)
    rw [heq] at hlt
    omega
  · intro hle
    apply Int.bmod_eq_of_le
    · omega
    · omega

end Interval

/-! ## Runs of `Start` -/

section Start

variable {interval : Duration} {now : Time} {τ : List Action} {s : State}

/-- What `Start` has come to, by its place. -/
def Regular (interval : Duration) (s : State) : Prop :=
  match s.pc with
  | .entry => True
  | .select | .ping => 0 < interval
  | .returned r => 0 < interval ∧ ∃ e, s.ctx = some e ∧ r = some e.error
  | .panicked value => interval ≤ 0 ∧ value = tickerPanic

theorem regular_of_run (hr : Run interval now τ s) : Regular interval s := by
  refine hr.invariant (fun _ (s : State) => Regular interval s) trivial ?_
  intro τ s a _ ih _ hg
  cases a with
  | wait d | tick t => exact ih
  | cancel e =>
      have hctx : s.ctx = none := of_decide_eq_true hg
      cases hpc : s.pc with
      | returned r =>
          rw [Regular, hpc] at ih
          obtain ⟨-, e', he', -⟩ := ih
          rw [hctx] at he'
          cases he'
      | _ =>
          have hsame : ((start interval).effect s (.cancel e)).pc = s.pc := rfl
          rw [Regular, hpc] at ih
          rw [Regular, hsame, hpc]
          exact ih
  | makeTicker =>
      show Regular interval (if interval ≤ 0 then _ else _)
      split
      · next hnonpos => exact ⟨hnonpos, rfl⟩
      · next hpos => exact not_le.mp hpos
  | takeCtx e =>
      have hpc : s.pc = .select ∧ s.ctx = some e := of_decide_eq_true hg
      rw [Regular, hpc.1] at ih
      exact ⟨ih, e, hpc.2, rfl⟩
  | takeTick time =>
      have hpc := (of_decide_eq_true hg : s.pc = .select ∧ _).1
      rw [Regular, hpc] at ih
      exact ih
  | pinged r =>
      have hpc : s.pc = .ping := of_decide_eq_true hg
      rw [Regular, hpc] at ih
      exact ih

/-- With a positive interval the ticker can be made. -/
theorem not_panicked (hpos : 0 < interval) (hr : Run interval now τ s) (value : String) :
    s.pc ≠ .panicked value := by
  intro hpc
  have hregular := regular_of_run hr
  rw [Regular, hpc] at hregular
  exact absurd hregular.1 (not_le.mpr hpos)

/-- A call ends with the error of its context, or at once with the panic of the ticker. -/
theorem ends_iff {ctxDone : Bool} {o : Outcome} : Ends interval ctxDone o ↔
    (0 < interval ∧ ctxDone = true ∧ ∃ e : CtxErr, o = .returned (some e.error)) ∨
      interval ≤ 0 ∧ ∃ stack, o = .panicked tickerPanic stack := by
  constructor
  · rintro ⟨now, τ, s, hr, hends, hdone⟩
    have hregular := regular_of_run hr
    rw [Regular] at hregular
    rw [State.EndsWith] at hends
    cases hpc : s.pc with
    | returned r =>
        rw [hpc] at hregular hends
        obtain ⟨hpos, e, hctx, rfl⟩ := hregular
        exact Or.inl ⟨hpos, hdone (by simp [hctx]), e, hends⟩
    | panicked value =>
        rw [hpc] at hregular hends
        obtain ⟨hnonpos, rfl⟩ := hregular
        exact Or.inr ⟨hnonpos, hends⟩
    | _ =>
        rw [hpc] at hends
        cases hends
  · have hnone : Run interval Time.zero [] (State.init Time.zero) := .nil
    rintro (⟨hpos, rfl, e, rfl⟩ | ⟨hnonpos, hpanics⟩)
    · have hcanceled := hnone.snoc (a := Action.cancel e) trivial rfl
      have hmade := hcanceled.snoc (a := Action.makeTicker) trivial rfl
      have hguard : guard (effect interval (effect interval (State.init Time.zero) (.cancel e))
          .makeTicker) (.takeCtx e) = true := by
        simp [guard, effect, not_le.mpr hpos]
      exact ⟨_, _, _, hmade.snoc (a := Action.takeCtx e) trivial hguard, rfl, fun _ => rfl⟩
    · have hmade := hnone.snoc (a := Action.makeTicker) trivial rfl
      refine ⟨_, _, _, hmade, ?_, fun hctx => ?_⟩
      · simpa [start, effect, hnonpos, State.EndsWith] using hpanics
      · simp [start, effect, hnonpos, State.init] at hctx

end Start

/-! ## The service in a run of its host -/

section Host

variable {h : Host} {ok : Hosting.State h → Hosting.Action → Prop} {τ : List Hosting.Action}
  {s : Hosting.State h} {i : Nat}

/-- The supervisor of a service reports no exit. -/
def Quiet (v : Svc) : Prop :=
  match v.sup with
  | .exited _ _ => v.ctxDone = true
  | .sendDone _ report => report = false
  | .observing | .backoff _ | .sendExit _ => False
  | _ => True

theorem Quiet.cancel {v : Svc} (hv : Quiet v) : Quiet { v with ctxDone := true } := by
  obtain ⟨sup, _⟩ := v
  cases sup with
  | exited began err => rfl
  | _ => exact hv

/-- A service the `Start` of which returns only once its context is done is quiet. -/
theorem quiet_of_run
    (hends : ∀ s began o, ok s (.sup i (.result began o)) → (s.svc i).ctxDone = true)
    (hr : RunIf h ok τ s) : Quiet (s.svc i) := by
  refine hr.invariant (fun _ (s : Hosting.State h) => Quiet (s.svc i)) trivial ?_
  intro τ s a _ ih hok hg
  cases hsvc : a.svcAct i with
  | none =>
      rw [svc_other s hsvc]
      exact ih
  | some b =>
      obtain rfl := svcAct_eq_some hsvc
      rw [svc_action]
      cases b with
      | launch => trivial
      | cancel => exact ih.cancel
      | sup a =>
          cases a with
          | start => trivial
          | result began o => exact hends s began o hok
          | check began err =>
              have hsup : (s.svc i).sup = .exited began err := of_decide_eq_true hg
              rw [Quiet, hsup] at ih
              have hstops : s.supStops i = true := by rw [State.supStops, ih, Bool.true_or]
              rw [svcEffect, checkExit, if_pos hstops]
              rfl
          | wait | stopWaiting due | restart due raw | sendExit err =>
              have hsup := (of_decide_eq_true hg : (s.svc i).sup = _ ∧ _).1
              rw [Quiet, hsup] at ih
              exact ih.elim
          | sendDone err report =>
              have hsup := (of_decide_eq_true hg : (s.svc i).sup = _ ∧ _).1
              rw [Quiet, hsup] at ih
              obtain rfl : report = false := ih
              trivial
      | call a | stopper a => cases a <;> exact ih
      | _ => exact ih

theorem not_exit_of_quiet
    (hends : ∀ s began o, ok s (.sup i (.result began o)) → (s.svc i).ctxDone = true)
    (hr : RunIf h ok τ s) (r : Result) : .sup i (.sendExit r) ∉ τ := by
  intro hmem
  obtain ⟨pre, post, s', -, hpre, -, hg⟩ := hr.of_mem hmem
  have hsup := (of_decide_eq_true hg : (s'.svc i).sup = .sendExit r ∧ _).1
  have hquiet := quiet_of_run hends hpre
  rw [Quiet, hsup] at hquiet
  exact hquiet

/-- The host receives the exits of services that it has launched. -/
theorem index_lt_of_sendExit (hr : RunIf h ok τ s) {r : Result}
    (hmem : .sup i (.sendExit r) ∈ τ) : i < h.services.length :=
  (launched_of_doneSends hr (mem_doneSends_of_sendExit hr hmem)).trans_le
    (placed_of_run hr).launched_le

end Host

/-! ## What `Bind` adds -/

section Bind

variable {code : Code} {env : Env} {b : Builder}

/-- `Bind` adds the watchdog service, if it is enabled and its name is free. -/
theorem bind_services (code : Code) (env : Env) (b : Builder) :
    ∃ added, (bind code env b).services = b.services ++ added ∧
      (added = [] ∨ ∃ d, watchdogEnabled env = (d, true) ∧
        added = [⟨watchdogService code (d.tdiv 2), none, none⟩]) := by
  rw [bind]
  split
  · cases henabled : watchdogEnabled env with
    | mk d enabled =>
        cases enabled with
        | false => exact ⟨[], (List.append_nil _).symm, Or.inl rfl⟩
        | true =>
            obtain ⟨added, heq, hadded⟩ := Builder.addService_services
              ((b.addOnStarted (some code.ready)).addOnStopping (some code.stopping))
              (watchdogService code (d.tdiv 2))
            exact ⟨added, heq, hadded.imp_right fun hsingle => ⟨d, rfl, hsingle⟩⟩
  · exact ⟨[], (List.append_nil _).symm, Or.inl rfl⟩

/-- With a positive interval `Start` of the watchdog waits for the end of its context. -/
theorem ctxDone_of_plays {h : BuiltHost} {i : Nat} {reg : ServiceReg} {interval : Duration}
    (hreg : h.services[i]? = some reg) (hsvc : reg.svc = watchdogService code interval)
    (hpos : 0 < interval) (s : Hosting.State h.host) (began : Int) (o : Outcome)
    (hplays : Plays code h s (.sup i (.result began o))) : (s.svc i).ctxDone = true := by
  rcases ends_iff.mp (hplays reg hreg interval hsvc) with ⟨-, hdone, -⟩ | ⟨hnonpos, -⟩
  · exact hdone
  · exact absurd hpos (not_lt.mpr hnonpos)

/-- A watchdog service with a positive interval does not stop its host. -/
theorem index_lt_of_takeExit {d : Duration} (henabled : watchdogEnabled env = (d, true))
    (hpos : 0 < d.tdiv 2) {τ : List Hosting.Action}
    {s : Hosting.State (bind code env b).toHost.host}
    (hr : RunIf (bind code env b).toHost.host (Plays code (bind code env b).toHost) τ s)
    {exit : ServiceExit} (hmem : .host (.run (.takeExit exit)) ∈ τ) :
    exit.index < b.services.length := by
  have hsent := mem_sendExit_of_takeExit hr hmem
  have hlength : exit.index < (bind code env b).services.length := by
    have hlt := index_lt_of_sendExit hr hsent
    rwa [BuiltHost.host, List.length_map] at hlt
  obtain ⟨added, hservices, hadded⟩ := bind_services code env b
  rw [hservices, List.length_append] at hlength
  rcases hadded with rfl | ⟨d', henabled', rfl⟩
  · exact hlength
  · rw [henabled] at henabled'
    cases henabled'
    by_contra hge
    have hindex : exit.index = b.services.length := by
      rw [List.length_singleton] at hlength
      omega
    have hreg : (bind code env b).toHost.services[exit.index]? =
        some ⟨watchdogService code (d.tdiv 2), none, none⟩ := by
      show (bind code env b).services[exit.index]? = _
      rw [hservices, hindex, List.getElem?_concat_length]
    exact not_exit_of_quiet (ctxDone_of_plays hreg rfl hpos) hr exit.err hsent

end Bind

/-! ## When the interval is right -/

theorem sound_of_exact {env : Env} {d : Int} (henabled : watchdogEnabled env = (d, true))
    {n : Int} (hnum : Numeral env.watchdogUsec n) (hd : d = n * microsecond) (hpos : 0 < n) :
    Sound env d := by
  have hlarge : 1000 ≤ d := by
    have hproduct : d = n * 1000 := hd
    omega
  have hhalf : 0 < d.tdiv 2 := by
    rw [Int.tdiv_eq_ediv_of_nonneg (by omega)]
    omega
  exact
    { pos := lt_of_lt_of_le (by decide) hlarge
      given := ⟨n, hnum, hd⟩
      half_pos := hhalf
      no_panic := fun _ _ _ hr value => not_panicked hhalf hr value
      not_stopped := fun _ _ _ _ hr _ hmem => index_lt_of_takeExit henabled hhalf hr hmem }

/--
**The watchdog**: whatever the environment says, an enabled interval is the given one and
the service runs with it, exactly if the given number of microseconds is not one of those
that fit in an `int64` while their nanoseconds do not.
-/
theorem sound_iff (env : Env) :
    (∀ d, watchdogEnabled env = (d, true) → Sound env d) ↔
      ∀ n, Numeral env.watchdogUsec n → n ≤ 9223372036854775 ∨ 2 ^ 63 ≤ n ∨ env.Foreign := by
  constructor
  · intro hall n hnum
    by_contra hno
    simp only [not_or, not_le] at hno
    obtain ⟨hlarge, hlt, hown⟩ := hno
    have henabled : watchdogEnabled env = (mulDuration n microsecond, true) :=
      watchdogEnabled_iff.mpr ⟨n, hnum, by omega, hlt, hown, rfl⟩
    obtain ⟨m, hm, heq⟩ := (hall _ henabled).given
    obtain rfl := hnum.unique hm
    exact absurd ((mulDuration_eq_iff (by omega)).mp heq) (not_le.mpr hlarge)
  · intro hcond d henabled
    obtain ⟨n, hnum, hpos, hlt, hown, hd⟩ := watchdogEnabled_iff.mp henabled
    have hfits : n ≤ 9223372036854775 := by
      rcases hcond n hnum with hle | hge | hforeign
      · exact hle
      · exact absurd hge (not_le.mpr hlt)
      · exact absurd hforeign hown
    exact sound_of_exact henabled hnum (hd.symm.trans ((mulDuration_eq_iff hpos).mpr hfits)) hpos

/-- The unit has a watchdog of a thousand years. -/
def thousandYears : Env where
  notifySocket := utf8 "/run/systemd/notify"
  watchdogUsec := utf8 "31557600000000000"
  watchdogPid := utf8 "4242"
  pid := 4242

def functions : Code := ⟨⟨0⟩, ⟨1⟩, Encodable.encode, Encodable.encode_injective⟩

/-- The host of the watchdog service alone. -/
def watched : BuiltHost := (bind functions thousandYears new).toHost

/-- The error that the supervisor sees. -/
def panicError : Error := newError ("panic in Start: " ++ tickerPanic ++ "\n" ++ "")

/-- `NewTicker` panics, and the host stops. -/
def stoppedRun : List Hosting.Action :=
  [.host (.run .enter), .host (.run (.launch 0)), .host (.run (.lookReadier 0)),
    .host (.run (.started 1)), .call .host (.begins (.hook .onStarted ⟨0⟩)),
    .call .host (.ends (.hook .onStarted ⟨0⟩) false), .sup 0 .start,
    .sup 0 (.result 0 (.panicked tickerPanic "")), .sup 0 (.check 0 (some panicError)),
    .sup 0 (.sendDone (some panicError) true), .sup 0 (.sendExit (some panicError)),
    .host (.run (.takeExit ⟨0, some panicError⟩))]

/-- The one result in the run is the panic of the ticker. -/
theorem plays_of_mem {t : Hosting.State watched.host} {a : Hosting.Action}
    (ha : a ∈ stoppedRun) : Plays functions watched t a := by
  cases a with
  | sup i a =>
      cases a with
      | result began o =>
          have hresult : i = 0 ∧ began = 0 ∧ o = .panicked tickerPanic "" := by
            simpa [stoppedRun] using ha
          obtain ⟨rfl, rfl, rfl⟩ := hresult
          intro reg hreg interval hsvc
          have hservices : watched.services =
              [⟨watchdogService functions (-2667944073709551616), none, none⟩] := rfl
          rw [hservices] at hreg
          obtain rfl := Option.some.inj hreg
          have hinterval : interval = -2667944073709551616 :=
            functions.watchdog_injective (congrArg Building.Service.id hsvc.symm)
          exact ends_iff.mpr (Or.inr ⟨hinterval.trans_le (by decide), "", rfl⟩)
      | _ => trivial
  | _ => trivial

/-- The interval becomes negative, and the watchdog service stops the host. -/
theorem thousandYears_unsound :
    watchdogEnabled thousandYears = (-5335888147419103232, true) ∧
      ¬Sound thousandYears (-5335888147419103232) := by
  refine ⟨by decide, fun hsound => ?_⟩
  have hstopped : Hosting.Run watched.host stoppedRun _ := Lts.Admits.run (by decide)
  have hr : RunIf watched.host (Plays functions watched) stoppedRun _ :=
    hstopped.imp fun _ _ ha _ => plays_of_mem ha
  exact absurd (hsound.not_stopped functions new stoppedRun _ hr ⟨0, some panicError⟩ (by decide))
    (by decide)

end Shost.Ports.Systemd
