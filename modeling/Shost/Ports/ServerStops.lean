import Shost.Ports.ServerService

/-!
# The server services come to an end

A call of `Start` takes a bounded number of steps, and so does the call of `Stop`.  When
`Stop` has returned every call of `Start` can return, also one that begins only then: its
server was told to stop, whichever call listens on it.  When the context of `Stop` is done
`Stop` can return, whatever the connections do.

## Main results

* `callsEnd_of_run` — both bounds, and that both calls come to their end.
-/

namespace Shost.Ports.Serving

open Shost.Verified Shost.Ports.Hosting

variable {p : Package} {addr : String} {ok : State → Action → Prop} {τ : List Action} {s : State}

/-- Steps of a call of `Start` and of `Serve`, which it waits for. -/
def Action.ofStart : Action → Bool
  | .listened _ | .listenFailed _ | .store _ | .announce | .spawn | .takeServe _ _ | .takeCtx
  | .serveEnds _ _ => true
  | _ => false

/-- Steps of the call of `Stop` and of its goroutine. -/
def Action.ofStop : Action → Bool
  | .httpShutdown | .shutdownEnds _ | .httpClose _ | .goGraceful | .gracefulStop
  | .gracefulEnds | .takeDone | .takeExpiry _ | .grpcStop _ | .joined _ => true
  | _ => false

/-- How many steps `Serve` has left. -/
def ServePC.left : ServePC → Nat
  | .serving => 1
  | .unborn | .ended => 0

/-- How many steps the goroutine that calls `GracefulStop` has left. -/
def GracePC.left : GracePC → Nat
  | .spawned => 2
  | .draining => 1
  | .unborn | .ended => 0

/-- How many steps the call of `Start` has left, at most. -/
def State.startLeft (s : State) : Nat :=
  match s.start with
  | .idle => 0
  | .listening => 7
  | .storing _ => 6
  | .announcing => 5
  | .spawning => 4
  | .serving => 2 + (s.serve s.calls).left
  | .draining => 1 + (s.serve s.calls).left

/-- How many steps the call of `Stop` has left, at most. -/
def State.stopLeft (s : State) : Nat :=
  match s.stop with
  | .uncalled | .called => 6
  | .shutting => 2
  | .closing _ => 1
  | .selecting => 3 + s.graceful.left
  | .stopping _ => 2 + s.graceful.left
  | .joining _ => 1 + s.graceful.left
  | .returned _ => 0

/-- Steps of `Start` are taken one after the other. -/
private theorem startLeft_step (hr : (server p addr).Run ok State.init τ s) {a : Action}
    (hg : (server p addr).guard s a = true) (hstart : a ≠ .start) :
    ((server p addr).effect s a).startLeft + (if a.ofStart then 1 else 0) ≤ s.startLeft := by
  have hplaced := placed_of_run hr
  cases a with
  | start => exact absurd rfl hstart
  | listened a | listenFailed err | store a | announce =>
      have hat : s.start = _ := of_decide_eq_true hg
      simp [server, effect, State.startLeft, State.returnStart, hat, Action.ofStart]
  | spawn =>
      have hat : s.start = .spawning := of_decide_eq_true hg
      simp [server, effect, State.startLeft, ServePC.left, hat, Action.ofStart]
  | takeCtx =>
      have hat : s.start = .serving := (of_decide_eq_true hg : _ ∧ _).1
      simp [server, effect, State.startLeft, hat, Action.ofStart]
  | takeServe drained e =>
      have hat : s.start = _ := (of_decide_eq_true hg : _ ∧ _).1
      cases drained with
      | false =>
          simp [server, effect, State.startLeft, State.returnStart, hat, Action.ofStart]
          omega
      | true => simp [server, effect, State.startLeft, State.returnStart, hat, Action.ofStart]
  | serveEnds n e =>
      have hserving : s.serve n = .serving := (of_decide_eq_true hg : _ ∧ _).1
      obtain ⟨rfl, hwaits⟩ := hplaced.current hserving
      cases hat : s.start with
      | serving | draining =>
          simp [server, effect, State.startLeft, hat, hserving, ServePC.left, Action.ofStart]
      | _ =>
          rw [hat] at hwaits
          cases hwaits
  | shutdownEnds r =>
      cases r with
      | none => exact Nat.le_refl _
      | some err =>
          simp only [server, effect]
          split <;> exact Nat.le_refl _
  | _ => exact Nat.le_refl _

/-- Every step of `Stop` leaves it fewer. -/
private theorem stopLeft_step (hr : (server p addr).Run ok State.init τ s) {a : Action}
    (hg : (server p addr).guard s a = true) :
    ((server p addr).effect s a).stopLeft + (if a.ofStop then 1 else 0) ≤ s.stopLeft := by
  have hstopping := stopping_of_run hr
  cases a with
  | stop =>
      have hallows : (s.deal.canceled && decide (s.deal.stop = .due)) = true := hg
      have hdue := of_decide_eq_true (Bool.and_eq_true_iff.mp hallows).2
      rw [(dealt_of_run hr).stop] at hdue
      have hat : s.stop = .uncalled := by
        cases hstop : s.stop <;> rw [hstop] at hdue <;> first | rfl | cases hdue
      simp [server, effect, State.stopLeft, hat, Action.ofStop]
  | httpShutdown =>
      have hat : s.stop = .called := (of_decide_eq_true hg : _ ∧ _).2
      simp [server, effect, State.stopLeft, hat, Action.ofStop]
  | shutdownEnds r =>
      have hat : s.stop = .shutting := of_decide_eq_true (Bool.and_eq_true_iff.mp hg).1
      cases r with
      | none => simp [server, effect, State.returnStop, State.stopLeft, hat, Action.ofStop]
      | some err =>
          simp only [server, effect]
          split <;> simp [State.returnStop, State.stopLeft, hat, Action.ofStop]
  | httpClose err =>
      have hat : s.stop = .closing err := of_decide_eq_true hg
      simp [server, effect, State.returnStop, State.stopLeft, hat, Action.ofStop]
  | goGraceful =>
      have hat : s.stop = .called := (of_decide_eq_true hg : _ ∧ _).2
      simp [server, effect, State.stopLeft, GracePC.left, hat, Action.ofStop]
  | gracefulStop =>
      have hgrace : s.graceful = .spawned := of_decide_eq_true hg
      cases hat : s.stop <;> simp only [Stopping, hat, hgrace] at hstopping <;>
        simp_all [server, effect, State.stopLeft, GracePC.left, Action.ofStop]
  | gracefulEnds =>
      have hgrace : s.graceful = .draining := (of_decide_eq_true hg : _ ∧ _).1
      cases hat : s.stop <;> simp only [Stopping, hat, hgrace] at hstopping <;>
        simp_all [server, effect, State.stopLeft, GracePC.left, Action.ofStop]
  | takeDone =>
      have hat : s.stop = .selecting := (of_decide_eq_true hg : _ ∧ _).1
      simp [server, effect, State.returnStop, State.stopLeft, hat, Action.ofStop]
      omega
  | takeExpiry e =>
      have hat : s.stop = .selecting := (of_decide_eq_true hg : _ ∧ _).1
      simp [server, effect, State.stopLeft, hat, Action.ofStop]
  | grpcStop e =>
      have hat : s.stop = .stopping e := of_decide_eq_true hg
      simp [server, effect, State.stopLeft, hat, Action.ofStop]
  | joined e =>
      have hat : s.stop = .joining e := (of_decide_eq_true hg : _ ∧ _).1
      simp [server, effect, State.returnStop, State.stopLeft, hat, Action.ofStop]
  | _ => exact Nat.le_refl _

/-- A server stays told to stop. -/
private theorem told_step {a : Action} (htold : s.told = true) :
    ((server p addr).effect s a).told = true := by
  cases a with
  | shutdownEnds r =>
      cases r with
      | none => exact htold
      | some err =>
          simp only [server, effect]
          split <;> exact htold
  | httpShutdown | gracefulStop | grpcStop e => rfl
  | _ => exact htold

/-- A call of `Start` whose server was told to stop can go on. -/
private theorem start_step (addr : String) (hs : Placed s) (htold : s.told = true) (hbusy : s.start ≠ .idle) :
    ∃ a, a.ofStart = true ∧ (server p addr).guard s a = true := by
  have hwaits (drained : Bool) (hat : s.start = if drained then .draining else .serving) :
      ∃ a, a.ofStart = true ∧ (server p addr).guard s a = true := by
    have hw : s.start.waits = true := by rw [hat]; cases drained <;> rfl
    rcases hs.waiting hw with ⟨hserving, hempty⟩ | ⟨-, e, hbuf⟩
    · refine ⟨.serveEnds s.calls .stopped, rfl, ?_⟩
      have hroom : (s.serveErr s.calls).hasRoom = true := by
        rw [Chan.hasRoom_iff, hempty]
        decide
      simp [server, guard, hserving, ServeEnd.fits, htold, hroom]
    · refine ⟨.takeServe drained e, rfl, decide_eq_true ⟨hat, ?_⟩⟩
      exact (Chan.next_eq_some_iff _ _).mpr ⟨[], hbuf⟩
  cases hat : s.start with
  | idle => exact absurd hat hbusy
  | listening => exact ⟨.listened addr, rfl, decide_eq_true hat⟩
  | storing a => exact ⟨.store a, rfl, decide_eq_true hat⟩
  | announcing => exact ⟨.announce, rfl, decide_eq_true hat⟩
  | spawning => exact ⟨.spawn, rfl, decide_eq_true hat⟩
  | serving => exact hwaits false hat
  | draining => exact hwaits true hat

/-- A call of `Start` whose server was told to stop comes to its end. -/
theorem start_ends (hr : Run p addr τ s) (htold : s.told = true)
    (hbusy : s.start ≠ .idle) :
    ∃ post s', (server p addr).Runs s post s' ∧ (∀ a ∈ post, a.ofStart = true) ∧
      s'.start = .idle := by
  refine Lts.reaches_of_rank
    (P := fun t => (∃ τ, Run p addr τ t) ∧ t.told = true ∧ t.start ≠ .idle)
    State.startLeft ?_ s ⟨⟨τ, hr⟩, htold, hbusy⟩
  rintro t ⟨⟨σ, hrt⟩, htold, hbusy⟩
  obtain ⟨a, hown, hg⟩ := start_step addr (placed_of_run hrt) htold hbusy
  refine ⟨a, hown, trivial, hg, ?_⟩
  have hless := startLeft_step hrt hg (by rintro rfl; cases hown)
  rw [if_pos hown] at hless
  by_cases hidle : ((server p addr).effect t a).start = .idle
  · exact Or.inl hidle
  · exact Or.inr ⟨⟨⟨_, hrt.snoc trivial hg⟩, told_step htold, hidle⟩, hless⟩

/-- A call of `Stop` whose context is done can go on. -/
private theorem stop_step (addr : String) (hs : Stopping s) {e : CtxErr} (hctx : s.stopCtx = some e)
    (hcalled : s.stop ≠ .uncalled) (hopen : ∀ r, s.stop ≠ .returned r) :
    ∃ a, a.ofStop = true ∧ (server p addr).guard s a = true := by
  cases hat : s.stop with
  | uncalled => exact absurd hat hcalled
  | returned r => exact absurd hat (hopen r)
  | called =>
      cases p with
      | httpsvc => exact ⟨.httpShutdown, rfl, by simp [server, guard, hat]⟩
      | grpcsvc => exact ⟨.goGraceful, rfl, by simp [server, guard, hat]⟩
  | shutting =>
      refine ⟨.shutdownEnds (some e.error), rfl, ?_⟩
      simp [server, guard, shutdownMay, hat, hctx]
  | closing err => exact ⟨.httpClose err, rfl, decide_eq_true hat⟩
  | selecting => exact ⟨.takeExpiry e, rfl, decide_eq_true ⟨hat, hctx⟩⟩
  | stopping e' => exact ⟨.grpcStop e', rfl, decide_eq_true hat⟩
  | joining e' =>
      simp only [Stopping, hat] at hs
      cases hgrace : s.graceful with
      | unborn => exact absurd hgrace hs.2.2
      | spawned => exact ⟨.gracefulStop, rfl, decide_eq_true hgrace⟩
      | draining => exact ⟨.gracefulEnds, rfl, decide_eq_true ⟨hgrace, hs.2.1⟩⟩
      | ended => exact ⟨.joined e', rfl, decide_eq_true ⟨hat, hgrace⟩⟩

/-- Steps of `Stop` leave its context alone. -/
private theorem stopCtx_step (addr : String) {a : Action} (ha : a.ofStop = true) :
    ((server p addr).effect s a).stopCtx = s.stopCtx ∧
      ((server p addr).effect s a).stop ≠ .uncalled ∨ a = .gracefulStop ∨ a = .gracefulEnds := by
  cases a with
  | shutdownEnds r =>
      cases r with
      | none => exact Or.inl ⟨rfl, by simp [server, effect, State.returnStop]⟩
      | some err =>
          simp only [server, effect]
          split <;> exact Or.inl ⟨rfl, by simp [State.returnStop]⟩
  | gracefulStop => exact Or.inr (Or.inl rfl)
  | gracefulEnds => exact Or.inr (Or.inr rfl)
  | httpShutdown | httpClose err | goGraceful | takeDone | takeExpiry e | grpcStop e | joined e =>
      exact Or.inl ⟨rfl, by simp [server, effect, State.returnStop]⟩
  | _ => cases ha

/-- A call of `Stop` whose context is done comes to its end. -/
theorem stop_ends (hr : Run p addr τ s) {e : CtxErr} (hctx : s.stopCtx = some e)
    (hcalled : s.stop ≠ .uncalled) (hopen : ∀ r, s.stop ≠ .returned r) :
    ∃ post s', (server p addr).Runs s post s' ∧ (∀ a ∈ post, a.ofStop = true) ∧
      ∃ r, s'.stop = .returned r := by
  refine Lts.reaches_of_rank
    (P := fun t => (∃ τ, Run p addr τ t) ∧ t.stopCtx = some e ∧ t.stop ≠ .uncalled ∧
      ∀ r, t.stop ≠ .returned r)
    State.stopLeft ?_ s ⟨⟨τ, hr⟩, hctx, hcalled, hopen⟩
  rintro t ⟨⟨σ, hrt⟩, hctx, hcalled, hopen⟩
  obtain ⟨a, hown, hg⟩ := stop_step (p := p) addr (stopping_of_run hrt) hctx hcalled hopen
  refine ⟨a, hown, trivial, hg, ?_⟩
  have hless := stopLeft_step hrt hg
  rw [if_pos hown] at hless
  have hsame : ((server p addr).effect t a).stopCtx = some e ∧
      ((server p addr).effect t a).stop ≠ .uncalled := by
    rw [← hctx]
    rcases stopCtx_step (p := p) (s := t) addr hown with hsame | rfl | rfl
    · exact hsame
    · exact ⟨rfl, hcalled⟩
    · exact ⟨rfl, hcalled⟩
  by_cases hend : ∃ r, ((server p addr).effect t a).stop = .returned r
  · exact Or.inl hend
  · exact Or.inr ⟨⟨⟨_, hrt.snoc trivial hg⟩, hsame.1, hsame.2, fun r hr => hend ⟨r, hr⟩⟩, hless⟩

/-! ## The result -/

/-- How the calls of `Start` and of `Stop` come to an end. -/
structure Ends (p : Package) (addr : String) (τ : List Action) (s : State) : Prop where
  /-- each call of `Start` takes at most seven steps, with that of `Serve` -/
  start_bounded : ∀ pre call post, τ = pre ++ .start :: (call ++ post) → .start ∉ call →
    call.countP Action.ofStart ≤ 7
  /-- and no such step comes before the first call -/
  start_first : ∀ pre post, τ = pre ++ post → .start ∉ pre → pre.countP Action.ofStart = 0
  /-- the call of `Stop` takes at most six, with those of its goroutine -/
  stop_bounded : τ.countP Action.ofStop ≤ 6
  /-- when `Stop` has returned, a call of `Start` can return -/
  start_ends : ∀ r, s.stop = .returned r → s.start ≠ .idle →
    ∃ post s', (server p addr).Runs s post s' ∧ (∀ a ∈ post, a.ofStart = true) ∧
      s'.start = .idle
  /-- when the context of `Stop` is done, the call of `Stop` can return -/
  stop_ends : s.stopCtx.isSome = true → s.stop ≠ .uncalled → (∀ r, s.stop ≠ .returned r) →
    ∃ post s', (server p addr).Runs s post s' ∧ (∀ a ∈ post, a.ofStop = true) ∧
      ∃ r, s'.stop = .returned r

/-- Up to the next call of `Start` the steps of the call in progress are those it had left,
at most. -/
private theorem start_count (hr : Run p addr τ s) {call : List Action} {t : State}
    (hcall : (server p addr).Runs s call t) (hno : .start ∉ call) :
    call.countP Action.ofStart ≤ s.startLeft := by
  have hother : (server p addr).Run (fun _ a => a ≠ .start) s call t :=
    hcall.imp fun _ a ha _ => fun hstart => hno (hstart ▸ ha)
  have hcount := hother.count_add_rank_le Action.ofStart State.startLeft
    fun σ u a hu hne hg => startLeft_step (hr.trans (hu.imp fun _ _ _ _ => trivial)) hg hne
  omega

theorem callsEnd_of_run (hr : Run p addr τ s) : Ends p addr τ s where
  start_bounded := by
    rintro pre call post rfl hno
    obtain ⟨s₁, hpre, -, hg, hrest⟩ := hr.split
    obtain ⟨s₂, hcall, -⟩ := hrest.split_append
    exact start_count (hpre.snoc trivial hg) hcall hno
  start_first := by
    rintro pre post rfl hno
    obtain ⟨s₁, hpre, -⟩ := hr.split_append
    exact Nat.le_zero.mp (start_count (Lts.Run.nil (M := server p addr)) hpre hno)
  stop_bounded := by
    have hcount := hr.count_add_rank_le Action.ofStop State.stopLeft
      fun τ s a hr _ hg => stopLeft_step hr hg
    have hinit : State.init.stopLeft = 6 := rfl
    omega
  start_ends := by
    intro r hstop hbusy
    have hstopping := stopping_of_run hr
    simp only [Stopping, hstop] at hstopping
    exact start_ends hr hstopping.1 hbusy
  stop_ends := by
    intro hctx hcalled hopen
    obtain ⟨e, he⟩ := Option.isSome_iff_exists.mp hctx
    exact stop_ends hr he hcalled hopen

theorem callsEnd_forcedRun : Ends .grpcsvc ":50051" forcedRun
    ((server .grpcsvc ":50051").after State.init forcedRun) :=
  callsEnd_of_run (Lts.Admits.run (by decide))

end Shost.Ports.Serving
