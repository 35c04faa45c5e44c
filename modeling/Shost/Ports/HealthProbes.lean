import Shost.Ports.Health
import Shost.Ports.HostHooks

/-!
# Probes of a running host

The health registry at work: requests to both handlers, calls of `Add` and the two hooks
that set the flag go on at the same time.  A handler loads the flag, copies the checkers
under the lock and calls the copies one after the other, so that an answer is made of what
was found at different moments.

## Main results

* `answers_of_run` — what an answer is made of.
* `window_of_run` — what an answer says about the host: the flag is set while all services
  are up, and not when one of them is stopped.
-/

namespace Shost.Ports.Health

open Verified Lts Beside Trace Hosting

/-! ## The handlers -/

inductive ProbeKind where
  | live
  | ready
  deriving DecidableEq

/-- The place of a request. -/
inductive Place (ω : Type) where
  | idle
  /-- in `ReadyHandler`, before the flag is loaded -/
  | entered
  /-- at the call of `runChecks` -/
  | toCopy (kind : ProbeKind)
  /-- at the head of the loop of `runChecks` -/
  | looping (kind : ProbeKind) (todo : List (Checker ω)) (healthy : Bool)
    (checks : String → Option String)
  /-- the flag was not set -/
  | refused
  | answered (kind : ProbeKind) (r : Response)

/-- One turn of the loop of `runChecks`. -/
def turn {ω : Type} (c : Checker ω) (w : ω) (healthy : Bool) (checks : String → Option String) :
    Bool × (String → Option String) :=
  match c.err w with
  | some err => (false, Function.update checks c.name (some err))
  | none => (healthy, Function.update checks c.name (some "ok"))

variable {ω : Type}

/-- The state of the registry, of the hook that sets its flag, and of the requests. -/
structure State (ω : Type) where
  registry : Registry ω
  course : Course Bool
  place : Nat → Place ω

def State.init : State ω where
  registry := .empty
  course := .idle
  place := fun _ => .idle

/-- `load` carries the flag that is found, `check` the state of the world that the checker
is called in. -/
inductive Act (ω : Type) where
  | add (c : Option (Checker ω))
  /-- a hook that calls `SetReady` -/
  | hook (a : CourseAct Bool)
  | request (n : Nat) (kind : ProbeKind)
  | load (n : Nat) (flag : Bool)
  | copy (n : Nat)
  | check (n : Nat) (w : ω)
  | write (n : Nat)

def State.move (s : State ω) (n : Nat) (p : Place ω) : State ω :=
  { s with place := Function.update s.place n p }

def guard (s : State ω) : Act ω → Bool
  | .add _ => true
  | .hook a => s.course.allows a && match a with
      | .ends _ panicked => !panicked
      | _ => true
  | .request n _ => match s.place n with
      | .idle => true
      | _ => false
  | .load n flag => match s.place n with
      | .entered => decide (flag = s.registry.ready)
      | _ => false
  | .copy n => match s.place n with
      | .toCopy _ => true
      | _ => false
  | .check n _ => match s.place n with
      | .looping _ (_ :: _) _ _ => true
      | _ => false
  | .write n => match s.place n with
      | .refused | .looping _ [] _ _ => true
      | _ => false

/-- The body of the answer when the flag is not set. -/
def notReady : String → Option String :=
  Function.update (fun _ => none) "host" (some "not ready")

def effect (s : State ω) : Act ω → State ω
  | .add c => { s with registry := (Call.add c).apply s.registry }
  | .hook a =>
      match a with
      | .does v => { s with registry := s.registry.setReady v, course := s.course.next a }
      | _ => { s with course := s.course.next a }
  | .request n .live => s.move n (.toCopy .live)
  | .request n .ready => s.move n .entered
  | .load n true => s.move n (.toCopy .ready)
  | .load n false => s.move n .refused
  | .copy n =>
      match s.place n with
      | .toCopy kind => s.move n (.looping kind s.registry.checkers true fun _ => none)
      | _ => s
  | .check n w =>
      match s.place n with
      | .looping kind (c :: todo) healthy checks =>
          s.move n (.looping kind todo (turn c w healthy checks).1 (turn c w healthy checks).2)
      | _ => s
  | .write n =>
      match s.place n with
      | .refused => s.move n (.answered .ready (writeStatus false notReady))
      | .looping kind [] healthy checks => s.move n (.answered kind (writeStatus healthy checks))
      | _ => s

/-- The registry with the requests to its handlers. -/
def probes (ω : Type) : Lts (State ω) (Act ω) where
  guard := guard
  effect := effect

abbrev ProbesRun (υ : List (Act ω)) (t : State ω) : Prop := (probes ω).Runs State.init υ t

/-! ## What a history says -/

/-- The call of `Add` or `SetReady` that an action is. -/
def Act.call? : Act ω → Option (Call ω)
  | .add c => some (.add c)
  | .hook (.does v) => some (.setReady v)
  | _ => none

def calls (υ : List (Act ω)) : List (Call ω) := υ.filterMap Act.call?

/-- The state of the world at a call of a checker for a request. -/
def Act.world? (n : Nat) : Act ω → Option ω
  | .check m w => if m = n then some w else none
  | _ => none

def worlds (n : Nat) (υ : List (Act ω)) : List ω := υ.filterMap (Act.world? n)

/-- The loop of `runChecks`, when each checker is called in a state of its own. -/
def runTurns (seen : List (Checker ω × ω)) : Bool × (String → Option String) :=
  seen.foldl (fun acc p => turn p.1 p.2 acc.1 acc.2) (true, fun _ => none)

/-- What an answer is made of: the flag that was loaded, the checkers that were copied,
and what each of them said when it was called. -/
inductive Answer (υ : List (Act ω)) (n : Nat) : ProbeKind → Response → Prop
  | refused : .load n false ∈ υ → Answer υ n .ready (writeStatus false notReady)
  | checked {kind : ProbeKind} {pre post : List (Act ω)} :
      υ = pre ++ .copy n :: post → (kind = .ready → .load n true ∈ pre) →
      (worlds n post).length = (added (calls pre)).length →
      Answer υ n kind (writeStatus (runTurns ((added (calls pre)).zip (worlds n post))).1
        (runTurns ((added (calls pre)).zip (worlds n post))).2)

/-! ## Requests -/

section Requests

variable {υ : List (Act ω)} {t : State ω} {n : Nat}

@[simp] theorem place_move_same (t : State ω) (n : Nat) (p : Place ω) :
    (t.move n p).place n = p := Function.update_self ..

theorem place_move_of_ne (t : State ω) {m n : Nat} (hn : n ≠ m) (p : Place ω) :
    (t.move m p).place n = t.place n := Function.update_of_ne hn ..

/-- The request that an action is a step of. -/
def Act.request? : Act ω → Option Nat
  | .add _ | .hook _ => none
  | .request n _ | .load n _ | .copy n | .check n _ | .write n => some n

/-- A request is moved by its own steps. -/
theorem place_effect_of_ne (t : State ω) {a : Act ω} (ha : a.request? ≠ some n) :
    (effect t a).place n = t.place n := by
  have hne {m : Nat} (hm : some m ≠ some n) : n ≠ m := fun heq => hm (congrArg some heq.symm)
  cases a with
  | add c => rfl
  | hook a => cases a <;> rfl
  | request m kind => cases kind <;> exact place_move_of_ne _ (hne ha) _
  | load m flag => cases flag <;> exact place_move_of_ne _ (hne ha) _
  | copy m | check m w | write m =>
      simp only [effect]
      split
      all_goals first | rfl | exact place_move_of_ne _ (hne ha) _

/-- The requests leave the registry alone. -/
theorem registry_effect (t : State ω) (a : Act ω) :
    (effect t a).registry = a.call?.elim t.registry fun c => c.apply t.registry := by
  cases a with
  | add c => rfl
  | hook a => cases a <;> rfl
  | request m kind => cases kind <;> rfl
  | load m flag => cases flag <;> rfl
  | copy m | check m w | write m =>
      simp only [effect]
      split <;> rfl

theorem registry_of_run (hr : ProbesRun υ t) : t.registry = run (calls υ) := by
  refine hr.invariant (fun υ (t : State ω) => t.registry = run (calls υ)) rfl ?_
  intro υ t a _ ih _ _
  show (effect t a).registry = _
  have hcalls : calls (υ ++ [a]) = calls υ ++ a.call?.toList := filterMap_snoc _ υ a
  rw [registry_effect, ih, hcalls]
  cases a.call? with
  | none =>
      rw [Option.toList_none, List.append_nil]
      rfl
  | some c =>
      rw [Option.toList_some, run_append]
      rfl

theorem runTurns_snoc (seen : List (Checker ω × ω)) (c : Checker ω) (w : ω) :
    runTurns (seen ++ [(c, w)]) = turn c w (runTurns seen).1 (runTurns seen).2 := by
  rw [runTurns, List.foldl_append]
  rfl

/-- What the place of a request says about the history. -/
private def Seen (υ : List (Act ω)) (n : Nat) : Place ω → Prop
  | .idle | .entered => True
  | .toCopy kind => kind = .ready → .load n true ∈ υ
  | .looping kind todo healthy checks => ∃ pre post done,
      υ = pre ++ .copy n :: post ∧ (kind = .ready → .load n true ∈ pre) ∧
        added (calls pre) = done ++ todo ∧ (worlds n post).length = done.length ∧
          runTurns (done.zip (worlds n post)) = (healthy, checks)
  | .refused => .load n false ∈ υ
  | .answered kind r => Answer υ n kind r

private theorem worlds_snoc (n : Nat) (υ : List (Act ω)) (a : Act ω) :
    worlds n (υ ++ [a]) = worlds n υ ++ (a.world? n).toList := filterMap_snoc _ υ a

/-- Steps at which no checker is called for the request. -/
private theorem Seen.keep {p : Place ω} (hseen : Seen υ n p) {a : Act ω}
    (ha : a.world? n = none) : Seen (υ ++ [a]) n p := by
  have hsame (post : List (Act ω)) : worlds n (post ++ [a]) = worlds n post := by
    rw [worlds_snoc, ha, Option.toList_none, List.append_nil]
  cases p with
  | idle | entered => trivial
  | toCopy kind => exact fun hkind => List.mem_append_left _ (hseen hkind)
  | looping kind todo healthy checks =>
      obtain ⟨pre, post, done, rfl, hload, hadded, hlength, hturns⟩ := hseen
      refine ⟨pre, post ++ [a], done, by simp, hload, hadded, ?_, ?_⟩
      · rw [hsame, hlength]
      · rw [hsame, hturns]
  | refused => exact List.mem_append_left _ hseen
  | answered kind r =>
      have hanswer : Answer υ n kind r := hseen
      cases hanswer with
      | refused hload => exact .refused (List.mem_append_left _ hload)
      | @checked _ pre post hυ hload hlength =>
          have hnext : υ ++ [a] = pre ++ .copy n :: (post ++ [a]) := by rw [hυ]; simp
          have hchecked := Answer.checked hnext hload (by rw [hsame, hlength])
          rw [hsame] at hchecked
          exact hchecked

/-- A step of the request. -/
private theorem seen_step (hr : ProbesRun υ t) {a : Act ω} (hg : guard t a = true)
    (ha : a.request? = some n) (hseen : Seen υ n (t.place n)) :
    Seen (υ ++ [a]) n ((effect t a).place n) := by
  have hlast : a ∈ υ ++ [a] := List.mem_append_right _ (List.mem_singleton_self _)
  cases a with
  | add c | hook a => cases ha
  | request m kind =>
      obtain rfl := Option.some.inj ha
      cases kind with
      | ready =>
          rw [effect, place_move_same]
          trivial
      | live =>
          rw [effect, place_move_same]
          exact ProbeKind.noConfusion
  | load m flag =>
      obtain rfl := Option.some.inj ha
      cases flag with
      | true =>
          rw [effect, place_move_same]
          exact fun _ => hlast
      | false =>
          rw [effect, place_move_same]
          exact hlast
  | copy m =>
      obtain rfl := Option.some.inj ha
      rw [guard] at hg
      cases hplace : t.place m with
      | toCopy kind =>
          rw [hplace] at hseen
          simp only [effect, hplace, place_move_same]
          refine ⟨υ, [], [], rfl, hseen, ?_, rfl, rfl⟩
          rw [registry_of_run hr, run_checkers, List.nil_append]
      | _ =>
          rw [hplace] at hg
          cases hg
  | check m w =>
      obtain rfl := Option.some.inj ha
      rw [guard] at hg
      cases hplace : t.place m with
      | looping kind todo healthy checks =>
          rw [hplace] at hg hseen
          cases todo with
          | nil => cases hg
          | cons c todo =>
              obtain ⟨pre, post, done, rfl, hload, hadded, hlength, hturns⟩ := hseen
              have hworld : worlds m (post ++ [.check m w]) = worlds m post ++ [w] := by
                rw [worlds_snoc, Act.world?, if_pos rfl, Option.toList_some]
              simp only [effect, hplace, place_move_same]
              refine ⟨pre, post ++ [.check m w], done ++ [c], by simp, hload, ?_, ?_, ?_⟩
              · rw [hadded, List.append_assoc, List.singleton_append]
              · rw [hworld, List.length_append, List.length_append, hlength]
                rfl
              · rw [hworld, List.zip_append hlength.symm]
                show runTurns (_ ++ [(c, w)]) = _
                rw [runTurns_snoc, hturns]
      | _ =>
          rw [hplace] at hg
          cases hg
  | write m =>
      obtain rfl := Option.some.inj ha
      rw [guard] at hg
      cases hplace : t.place m with
      | refused =>
          rw [hplace] at hseen
          simp only [effect, hplace, place_move_same]
          exact .refused (List.mem_append_left _ hseen)
      | looping kind todo healthy checks =>
          rw [hplace] at hg hseen
          cases todo with
          | cons c todo => cases hg
          | nil =>
              have hkept := hseen.keep (a := .write m) rfl
              obtain ⟨pre, post, done, hυ, hload, hadded, hlength, hturns⟩ := hkept
              rw [List.append_nil] at hadded
              rw [← hadded] at hlength hturns
              simp only [effect, hplace, place_move_same]
              have hchecked := Answer.checked hυ hload hlength
              rw [hturns] at hchecked
              exact hchecked
      | _ =>
          rw [hplace] at hg
          cases hg

private theorem seen_of_run (hr : ProbesRun υ t) : Seen υ n (t.place n) := by
  refine hr.invariant (fun υ (t : State ω) => Seen υ n (t.place n)) trivial ?_
  intro υ t a hr ih _ hg
  show Seen _ n ((effect t a).place n)
  by_cases ha : a.request? = some n
  · exact seen_step hr hg ha ih
  · rw [place_effect_of_ne t ha]
    refine ih.keep ?_
    cases a with
    | check m w => exact if_neg fun hm => ha (congrArg some hm)
    | _ => rfl

/-- The answer is 200 when all checks have passed. -/
theorem runTurns_fst (seen : List (Checker ω × ω)) :
    (runTurns seen).1 = true ↔ ∀ p ∈ seen, p.1.err p.2 = none := by
  induction seen using List.reverseRecOn with
  | nil => simp [runTurns]
  | append_singleton seen p ih =>
      rw [runTurns_snoc, turn]
      cases hp : p.1.err p.2 with
      | none =>
          rw [List.forall_mem_append, List.forall_mem_singleton, ih]
          exact (and_iff_left hp).symm
      | some err =>
          simp only [Bool.false_eq_true, false_iff]
          intro hall
          have hlast := hall p (List.mem_append_right _ (List.mem_singleton_self p))
          rw [hp] at hlast
          cases hlast

/-- A loop over a world that stands still is the loop of `runChecks`. -/
theorem runTurns_still (r : Registry ω) (w : ω) :
    runTurns (r.checkers.map fun c => (c, w)) = r.runChecks w := by
  rw [runTurns, List.foldl_map]
  rfl

private theorem zip_still {cs : List (Checker ω)} {ws : List ω} {w : ω}
    (hlength : ws.length = cs.length) (hstill : ∀ w' ∈ ws, w' = w) :
    cs.zip ws = cs.map fun c => (c, w) := by
  induction cs generalizing ws with
  | nil => rfl
  | cons c cs ih =>
      cases ws with
      | nil => cases hlength
      | cons w' ws =>
          obtain rfl := hstill w' List.mem_cons_self
          rw [List.zip_cons_cons, List.map_cons, ih (Nat.succ.inj hlength) fun w hw =>
            hstill w (List.mem_cons_of_mem _ hw)]

/-- What the answers to the requests are. -/
structure Answers (υ : List (Act ω)) (t : State ω) : Prop where
  made_of : ∀ n kind r, t.place n = .answered kind r → Answer υ n kind r
  /-- an answer 200 vouches for all checkers that were there when they were copied -/
  healthy : ∀ n kind r, t.place n = .answered kind r → r.code = 200 →
    ∃ pre post, υ = pre ++ .copy n :: post ∧ (kind = .ready → .load n true ∈ pre) ∧
      ∀ c ∈ added (calls pre), ∃ w ∈ worlds n post, c.err w = none
  /-- with any other the flag was not set or a checker has failed -/
  unhealthy : ∀ n kind r, t.place n = .answered kind r → r.code ≠ 200 →
    kind = .ready ∧ .load n false ∈ υ ∨
      ∃ pre post, υ = pre ++ .copy n :: post ∧
        ∃ c ∈ added (calls pre), ∃ w ∈ worlds n post, c.err w ≠ none
  /-- while the world stands still, the handlers answer as if run at one go -/
  still : ∀ n kind r w, t.place n = .answered kind r → (∀ w' ∈ worlds n υ, w' = w) →
    kind = .ready ∧ (∃ pre post, υ = pre ++ .load n false :: post ∧
        r = readyHandler (run (calls pre)) w) ∨
      ∃ pre post, υ = pre ++ .copy n :: post ∧ r = liveHandler (run (calls pre)) w

/-- What is loaded is the flag. -/
private theorem load_sound (hr : ProbesRun υ t) {pre post : List (Act ω)} {flag : Bool}
    (hυ : υ = pre ++ .load n flag :: post) : (run (calls pre)).ready = flag := by
  subst hυ
  obtain ⟨t₁, hr₁, -, hg, -⟩ := hr.split
  rw [← registry_of_run hr₁]
  replace hg : guard t₁ (.load n flag) = true := hg
  rw [guard] at hg
  split at hg
  · exact (of_decide_eq_true hg).symm
  · cases hg

private theorem zip_mem {cs : List (Checker ω)} {ws : List ω} (hlength : ws.length = cs.length)
    {c : Checker ω} (hc : c ∈ cs) : ∃ w, (c, w) ∈ cs.zip ws := by
  have hfst : (cs.zip ws).map Prod.fst = cs := List.map_fst_zip hlength.ge
  rw [← hfst] at hc
  obtain ⟨⟨c', w⟩, hp, rfl⟩ := List.mem_map.mp hc
  exact ⟨w, hp⟩

/-- An answer 200 is made of checks that have all succeeded. -/
private theorem vouched_of_run (hr : ProbesRun υ t) {n : Nat} {kind : ProbeKind} {r : Response}
    (hplace : t.place n = .answered kind r) (hcode : r.code = 200) :
    ∃ pre post, υ = pre ++ .copy n :: post ∧ (kind = .ready → .load n true ∈ pre) ∧
      ∀ c ∈ added (calls pre), ∃ w ∈ worlds n post, c.err w = none := by
  have hseen := seen_of_run (n := n) hr
  rw [hplace] at hseen
  have hanswer : Answer υ n kind r := hseen
  cases hanswer with
  | refused hload => cases hcode
  | @checked _ pre post hυ hload hlength =>
      refine ⟨pre, post, hυ, hload, fun c hc => ?_⟩
      have hall := (runTurns_fst _).mp ((writeStatus_code _ _).mp hcode)
      obtain ⟨w, hp⟩ := zip_mem hlength hc
      exact ⟨w, (List.of_mem_zip hp).2, hall _ hp⟩

theorem answers_of_run (hr : ProbesRun υ t) : Answers υ t where
  made_of := by
    intro n kind r hplace
    have hseen := seen_of_run (n := n) hr
    rw [hplace] at hseen
    exact hseen
  healthy := fun _ _ _ hplace hcode => vouched_of_run hr hplace hcode
  unhealthy := by
    intro n kind r hplace hcode
    have hseen := seen_of_run (n := n) hr
    rw [hplace] at hseen
    have hanswer : Answer υ n kind r := hseen
    cases hanswer with
    | refused hload => exact Or.inl ⟨rfl, hload⟩
    | @checked _ pre post hυ hload hlength =>
        rw [Ne, writeStatus_code, runTurns_fst] at hcode
        push Not at hcode
        obtain ⟨⟨c, w⟩, hp, hfails⟩ := hcode
        obtain ⟨hc, hw⟩ := List.of_mem_zip hp
        exact Or.inr ⟨pre, post, hυ, c, hc, w, hw, hfails⟩
  still := by
    intro n kind r w hplace hstill
    have hseen := seen_of_run (n := n) hr
    rw [hplace] at hseen
    have hanswer : Answer υ n kind r := hseen
    cases hanswer with
    | refused hload =>
        obtain ⟨pre, post, hυ⟩ := List.append_of_mem hload
        refine Or.inl ⟨rfl, pre, post, hυ, ?_⟩
        rw [readyHandler, if_pos (load_sound hr hυ)]
        rfl
    | @checked _ pre post hυ hload hlength =>
        refine Or.inr ⟨pre, post, hυ, ?_⟩
        have hpost : ∀ w' ∈ worlds n post, w' = w := by
          intro w' hw'
          refine hstill w' ?_
          rw [hυ, worlds, List.filterMap_append]
          refine List.mem_append_right _ ?_
          rw [List.filterMap_cons_none rfl]
          exact hw'
        rw [zip_still hlength hpost, ← run_checkers, runTurns_still]
        rfl

end Requests

/-! ## The flag and the host -/

/-- The registry as the hooks that set its flag know it. -/
def listener (ω : Type) : Listener Bool (State ω) (Act ω) where
  system := probes ω
  init := State.init
  act
    | .hook a => some a
    | _ => none
  course := State.course
  course_init := rfl
  keeps := by
    intro t b hg
    cases b with
    | hook a =>
        have hallows : t.course.allows a = true := (Bool.and_eq_true_iff.mp hg).1
        refine .of_effect hallows ?_
        cases a <;> rfl
    | request n kind => cases kind <;> exact .stays
    | load n v => cases v <;> exact .stays
    | copy n | check n w | write n =>
        refine .of_eq ?_
        show t.course = (effect t _).course
        simp only [effect]
        split <;> rfl
    | add c => exact .stays

/-- The hook of `OnStarted` that sets the flag, and the one of `OnStopping` that clears it. -/
def setsReady (up down : Hook) : HookKind → Hook → Option Bool
  | .onStarted, f => if f = up then some true else none
  | .onStopping, f => if f = down then some false else none
  | .onStopped, _ => none

variable {h : Host} {σ α : Type} {E : Setting h σ α} {up down : Hook}
  {τ : List (Beside α (Act ω))} {s : σ × State ω}

/-- A registry that is wired with a host as its package says. -/
abbrev ProbedRun (E : Setting h σ α) (up down : Hook) (τ : List (Beside α (Act ω)))
    (s : σ × State ω) : Prop :=
  HookedRun E (setsReady up down) (listener ω) τ s

/-- What the readiness of a registry says about its host. -/
structure Window (E : Setting h σ α) (τ : List (Beside α (Act ω))) (s : σ × State ω) : Prop where
  /-- a request finds the flag set when all services are launched and ready, and none has
  been stopped -/
  opens : Guarded (fun pre c => ∀ n, c.right? = some (.load n true) →
    launches (hostActs (E.acts pre)) = List.range h.services.length ∧
      (∀ j < h.services.length, h.readier j = true → .env (.closeReady j) ∈ E.acts pre) ∧
        ∀ a ∈ E.acts pre, ¬ a.stops) τ
  /-- it finds it set from the end of the `OnStarted` hooks to the first `OnStopping` hook -/
  stays : Guarded (fun pre c => ∀ n flag, c.right? = some (.load n flag) →
    hooksOf .onStarted (hostReturns (E.acts pre)) = h.onStarted →
      hooksOf .onStopping (hostCalls (E.acts pre)) = [] → flag = true) τ
  closed : (E.state s.1).pc = .returned → s.2.registry.ready = false
  /-- so an answer 200 of `ReadyHandler` says that the host was up when the flag was loaded,
  and that the checkers there were then have passed since -/
  vouches : ∀ n r, s.2.place n = .answered .ready r → r.code = 200 →
    ∃ front c back, τ = front ++ c :: back ∧ c.right? = some (.copy n) ∧
      (∃ b ∈ front, b.right? = some (.load n true)) ∧
        ∀ checker ∈ added (calls (rights front)), ∃ w ∈ worlds n (rights back), checker.err w = none

private theorem kind_of_setsReady {kind : HookKind} {f : Hook} {v : Bool}
    (hv : setsReady up down kind f = some v) :
    kind = if v then .onStarted else .onStopping := by
  cases kind with
  | onStarted =>
      obtain ⟨-, hsome⟩ := Option.ite_none_right_eq_some.mp hv
      cases hsome
      rfl
  | onStopping =>
      obtain ⟨-, hsome⟩ := Option.ite_none_right_eq_some.mp hv
      cases hsome
      rfl
  | onStopped => cases hv

/-- The hooks set the flag before they clear it. -/
private theorem setsReady_sorted (hr : ProbedRun E up down τ s) :
    ((listener ω).performed (rights τ)).Pairwise fun v v' => v = false → v' = false := by
  refine List.Pairwise.sublist (performed_prefix_called hr).sublist (called_sorted hr ?_)
  rintro kind f v kind' f' v' hv hv' hrank rfl
  obtain rfl := kind_of_setsReady hv
  obtain rfl := kind_of_setsReady hv'
  cases v' with
  | false => rfl
  | true => cases hrank

/-- The flag is what was set last. -/
private theorem ready_eq (hr : ProbedRun E up down τ s) :
    s.2.registry.ready = ((listener ω).performed (rights τ)).getLast?.getD false := by
  rw [registry_of_run hr.listener, run_ready, flag, calls, Listener.performed,
    List.filterMap_filterMap, List.filterMap_filterMap]
  congr 3
  funext a
  cases a with
  | hook a => cases a <;> rfl
  | _ => rfl

/-- The flag is not set when it was cleared. -/
private theorem not_ready (hr : ProbedRun E up down τ s)
    (hdone : false ∈ (listener ω).performed (rights τ)) : s.2.registry.ready = false := by
  rw [ready_eq hr]
  cases hlast : ((listener ω).performed (rights τ)).getLast? with
  | none => rfl
  | some v =>
      obtain ⟨front, hfront⟩ := List.getLast?_eq_some_iff.mp hlast
      have hsorted := setsReady_sorted hr
      rw [hfront, List.pairwise_append] at hsorted
      rw [hfront, List.mem_append, List.mem_singleton] at hdone
      rcases hdone with hbefore | hat
      · exact hsorted.2.2 _ hbefore v (List.mem_singleton_self v) rfl
      · exact hat.symm

private theorem cleared_of_returned (hr : ProbedRun E up down τ s)
    (hret : .hook .onStopping down ∈ hostReturns (E.acts τ)) :
    false ∈ (listener ω).performed (rights τ) :=
  (returned_prefix_performed hr).mem (mem_notices.mpr ⟨.onStopping, down, hret, if_pos rfl⟩)

private theorem opens_of_run (hr : ProbedRun E up down τ s) (hdown : down ∈ h.onStopping)
    (hready : s.2.registry.ready = true) :
    launches (hostActs (E.acts τ)) = List.range h.services.length ∧
      (∀ j < h.services.length, h.readier j = true → .env (.closeReady j) ∈ E.acts τ) ∧
        ∀ a ∈ E.acts τ, ¬ a.stops := by
  have hset : true ∈ (listener ω).performed (rights τ) := by
    rw [ready_eq hr] at hready
    cases hlast : ((listener ω).performed (rights τ)).getLast? with
    | none =>
        rw [hlast] at hready
        cases hready
    | some v =>
        rw [hlast] at hready
        have hv : v = true := hready
        exact hv ▸ List.mem_of_getLast? hlast
  obtain ⟨kind, f, hcalled, hwhat⟩ := mem_notices.mp ((performed_prefix_called hr).mem hset)
  obtain rfl := kind_of_setsReady hwhat
  obtain ⟨hlaunched, hclosed⟩ := launched_of_called hr.host hcalled
  refine ⟨hlaunched, hclosed, fun a ha hstops => ?_⟩
  have hoff := not_ready hr (cleared_of_returned hr (returned_of_stops hr.host ha hstops hdown))
  rw [hready] at hoff
  cases hoff

private theorem stays_of_run (hr : ProbedRun E up down τ s) (hup : up ∈ h.onStarted)
    (hstarted : hooksOf .onStarted (hostReturns (E.acts τ)) = h.onStarted)
    (hstopping : hooksOf .onStopping (hostCalls (E.acts τ)) = []) : s.2.registry.ready = true := by
  have hret : .hook .onStarted up ∈ hostReturns (E.acts τ) := by
    rw [← mem_hooksOf, hstarted]
    exact hup
  have hset : true ∈ (listener ω).performed (rights τ) :=
    (returned_prefix_performed hr).mem (mem_notices.mpr ⟨.onStarted, up, hret, if_pos rfl⟩)
  have hall : ∀ v ∈ (listener ω).performed (rights τ), v = true := by
    intro v hv
    obtain ⟨kind, f, hcalled, hwhat⟩ := mem_notices.mp ((performed_prefix_called hr).mem hv)
    obtain rfl := kind_of_setsReady hwhat
    cases v with
    | true => rfl
    | false =>
        have hin := mem_hooksOf.mpr hcalled
        rw [if_neg Bool.false_ne_true, hstopping] at hin
        cases hin
  rw [ready_eq hr, List.getLast?_eq_some_getLast (List.ne_nil_of_mem hset), Option.getD_some]
  exact hall _ (List.getLast_mem _)

/-- What is loaded alone is the flag of the registry. -/
private theorem load_eq {c : Beside α (Act ω)} {n : Nat} {v : Bool}
    (hg : (hooked E (setsReady up down) (listener ω)).guard s c = true)
    (hc : c.right? = some (.load n v)) : s.2.registry.ready = v := by
  have hload : guard s.2 (.load n v) = true := (step_sides hg).2.1 _ hc
  rw [guard] at hload
  split at hload
  · exact (of_decide_eq_true hload).symm
  · cases hload

theorem window_of_run (hr : ProbedRun E up down τ s) (hup : up ∈ h.onStarted)
    (hdown : down ∈ h.onStopping) : Window E τ s where
  opens := by
    refine Lts.Run.guarded hr ?_
    intro τ s c hr _ hg n hc
    exact opens_of_run hr hdown (load_eq hg hc)
  stays := by
    refine Lts.Run.guarded hr ?_
    intro τ s c hr _ hg n v hc hstarted hstopping
    rw [← load_eq hg hc]
    exact stays_of_run hr hup hstarted hstopping
  closed := fun hpc => not_ready hr (cleared_of_returned hr (stopping_of_returned hr.host hpc hdown))
  vouches := by
    intro n r hplace hcode
    obtain ⟨pre, post, hυ, hload, hall⟩ := vouched_of_run hr.listener hplace hcode
    obtain ⟨front, c, back, rfl, rfl, hc, rfl⟩ := split_filterMap hυ
    obtain ⟨b, hb, hbload⟩ := List.mem_filterMap.mp (hload rfl)
    exact ⟨front, c, back, rfl, hc, ⟨b, hb, hbload⟩, hall⟩

/-- A host with one service and the two hooks. -/
def probedHost : Host where
  services := [⟨"probed", false, none⟩]
  tasks := []
  shutdownTimeout := 45
  startTimeout := 0
  onStarted := [⟨0⟩]
  onStopping := [⟨1⟩]
  onStopped := []
  observers := []
  names_nonempty := by decide
  names_nodup := by decide
  shutdownTimeout_pos := by decide
  policies_normal := by simp

/-- A database that is up or down. -/
def database : Checker Bool :=
  ⟨"db", fun up => .returned (if up then none else some "connection refused")⟩

/-- Two requests while the host runs, the second of which meets a database that is down, and
a third one when it has begun to stop. -/
def probedRun : List (Beside Hosting.Action (Act Bool)) :=
  [.right (.add (some database)), .left (.host (.run .enter)),
    .left (.host (.run (.launch 0))), .left (.host (.run (.lookReadier 0))),
    .left (.host (.run (.started 1))),
    .both (.call .host (.begins (.hook .onStarted ⟨0⟩))) (.hook (.begins true)),
    .right (.hook (.does true)),
    .both (.call .host (.ends (.hook .onStarted ⟨0⟩) false)) (.hook (.ends true false)),
    .right (.request 0 .ready), .right (.load 0 true), .right (.copy 0),
    .right (.request 1 .ready), .right (.check 0 true), .right (.load 1 true),
    .left (.env .shutdown), .left (.host (.run .takeShutdown)),
    .left (.host (.run .beginStopping)),
    .both (.call .host (.begins (.hook .onStopping ⟨1⟩))) (.hook (.begins false)),
    .right (.copy 1), .right (.check 1 false), .right (.hook (.does false)),
    .right (.request 2 .ready), .right (.load 2 false), .right (.write 1), .right (.write 0),
    .both (.call .host (.ends (.hook .onStopping ⟨1⟩) false)) (.hook (.ends false false)),
    .right (.write 2), .left (.host (.stop .enter)), .left (.host (.stop (.cancel 0)))]

theorem window_probedRun : Window (Setting.alone probedHost) probedRun
    ((hooked (Setting.alone probedHost) (setsReady ⟨0⟩ ⟨1⟩) (listener Bool)).after
      (Hosting.State.init probedHost, State.init) probedRun) := by
  have hr : ProbedRun (Setting.alone probedHost) ⟨0⟩ ⟨1⟩ probedRun _ :=
    Lts.Admits.run (by decide)
  exact window_of_run hr (by decide) (by decide)

theorem answers_probedRun : Answers (rights probedRun)
    ((probes Bool).after State.init (rights probedRun)) :=
  answers_of_run (Lts.Admits.run (by decide))

end Shost.Ports.Health
