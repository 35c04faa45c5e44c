import Shost.Ports.HostLifecycle
import Shost.Ports.HostedService
import Shost.Verified.Course

/-!
# Hooks at work in their host

Hooks are functions of the caller.  Those of one purpose, such as the two that a health
registry is wired with, are a system of its own here: it shows when such a function is
called, when it takes effect and when it returns, and is taken together with the host,
whatever else the host works with.

The host calls its hooks one after the other, those of `OnStarted` before those of
`OnStopping`, and these before the ones of `OnStopped`; so the effects come in this order.

## Main results

* `hooks_sorted` — the kinds of hooks come in order.
* `called_eq`, `performed_eq` — the effects are those of the hooks called so far, up to the
  one in progress.
-/

namespace Shost.Ports.Hosting

open Shost.Verified Lts Beside Trace

variable {h : Host} {ok : State h → Action → Prop} {τ : List Action} {s : State h}

/-! ## The order of the kinds -/

def HookKind.rank : HookKind → Nat
  | .onStarted => 0
  | .onStopping => 1
  | .onStopped => 2

/-- The hooks among some calls, each with its kind. -/
def hooksIn (cs : List Callout) : List (HookKind × Hook) :=
  cs.filterMap fun
    | .hook kind f => some (kind, f)
    | .callback _ _ => none

theorem hooksIn_append (cs cs' : List Callout) :
    hooksIn (cs ++ cs') = hooksIn cs ++ hooksIn cs' := List.filterMap_append

theorem mem_hooksIn {cs : List Callout} {kind : HookKind} {f : Hook} :
    (kind, f) ∈ hooksIn cs ↔ .hook kind f ∈ cs := by
  rw [hooksIn, List.mem_filterMap]
  constructor
  · rintro ⟨c, hc, heq⟩
    cases c with
    | hook kind' f' =>
        cases heq
        exact hc
    | callback o c => cases heq
  · exact fun hc => ⟨_, hc, rfl⟩

theorem mem_hooksOf {cs : List Callout} {kind : HookKind} {f : Hook} :
    f ∈ hooksOf kind cs ↔ .hook kind f ∈ cs := by
  rw [hooksOf, List.mem_filterMap]
  constructor
  · rintro ⟨c, hc, heq⟩
    cases c with
    | hook kind' f' =>
        have hsome : (if kind' = kind then some f' else none) = some f := heq
        obtain ⟨rfl, hf⟩ := Option.ite_none_right_eq_some.mp hsome
        cases hf
        exact hc
    | callback o c => cases heq
  · exact fun hc => ⟨_, hc, if_pos rfl⟩

/-- A step asks for hooks of one kind. -/
private theorem mem_madeCalls {a : HostAct} {kind : HookKind} {f : Hook}
    (hmem : .hook kind f ∈ madeCalls s a) : a.runsHooks kind = true := by
  by_contra hnot
  have hhooks := hooksOf_madeCalls s a kind
  rw [if_neg hnot] at hhooks
  have hin : f ∈ hooksOf kind (madeCalls s a) := mem_hooksOf.mpr hmem
  rw [hhooks] at hin
  cases hin

private theorem runsHooks_unique {a : HostAct} {kind kind' : HookKind}
    (hkind : a.runsHooks kind = true) (hkind' : a.runsHooks kind' = true) : kind = kind' := by
  cases a with
  | task a => cases hkind
  | run a => cases a <;> cases kind <;> cases hkind <;> cases kind' <;> first | rfl | cases hkind'
  | stop a =>
      cases a <;> cases kind <;> cases hkind
      cases kind' <;> first | rfl | cases hkind'

/-- No hooks of a later kind have been asked for when those of a kind are. -/
private theorem later_unhooked {a : HostAct} {v v' : LoopVars} (hstep : HostStep h a v v')
    (hp : Placed h v) {kind kind' : HookKind} (hkind : a.runsHooks kind = true)
    (hlater : kind.rank < kind'.rank) : v.hooked kind' = false := by
  cases hstep with
  | task hstep => cases hkind
  | run hstep =>
      cases hstep with
      | started v =>
          obtain ⟨-, -, -, hopen, -⟩ := hp
          cases kind' with
          | onStarted => cases hlater
          | onStopping => exact hopen
          | onStopped => rfl
      | beginStopping v =>
          cases kind with
          | onStarted | onStopped => cases hkind
          | onStopping =>
              cases kind' with
              | onStopped => rfl
              | onStarted | onStopping => simp [HookKind.rank] at hlater
      | _ => cases kind <;> cases hkind
  | stop hstep =>
      cases hstep with
      | leave v =>
          cases kind with
          | onStarted | onStopping => cases hkind
          | onStopped => cases kind' <;> simp [HookKind.rank] at hlater
      | _ => cases kind <;> cases hkind

private def Sorted (cs : List Callout) : Prop :=
  (hooksIn cs).Pairwise fun p q => p.1.rank ≤ q.1.rank

private theorem sorted_madeCalls (s : State h) (a : HostAct) : Sorted (madeCalls s a) := by
  refine List.Pairwise.imp_of_mem ?_ (List.pairwise_of_forall (R := fun _ _ => True) fun _ _ => trivial)
  rintro ⟨kind, f⟩ ⟨kind', f'⟩ hp hq -
  have hkind := mem_madeCalls (mem_hooksIn.mp hp)
  have hkind' := mem_madeCalls (mem_hooksIn.mp hq)
  rw [runsHooks_unique hkind hkind']

private theorem sorted_issued (hr : RunIf h ok τ s) : Sorted (issued τ s) := by
  refine hr.invariant (fun (τ : List Action) (s : State h) => Sorted (issued τ s)) .nil ?_
  intro τ s a hr ih _ hg
  rw [issued_step hg]
  by_cases ha : ∃ b, a = .host b
  · obtain ⟨b, rfl⟩ := ha
    rw [Sorted, hooksIn_append, List.pairwise_append]
    refine ⟨ih, sorted_madeCalls s b, ?_⟩
    rintro ⟨kind', f'⟩ hold ⟨kind, f⟩ hnew
    have hkind := mem_madeCalls (mem_hooksIn.mp hnew)
    by_contra hlater
    have hnone := later_unhooked (hostStep_of_can (hostCan_of_guard hg)) (placed_of_run hr)
      hkind (not_le.mp hlater)
    have hin : f' ∈ hooksOf kind' (issued τ s) := mem_hooksOf.mpr (mem_hooksIn.mp hold)
    have hissued := hooks_issued hr kind'
    rw [if_neg (Bool.eq_false_iff.mp hnone)] at hissued
    rw [hissued] at hin
    cases hin
  · cases a with
    | host b => exact absurd ⟨b, rfl⟩ ha
    | _ =>
        rw [List.append_nil]
        exact ih

/-- The hooks of a kind are called behind those of the kinds before it. -/
theorem hooks_sorted (hr : RunIf h ok τ s) :
    (hooksIn (hostCalls τ)).Pairwise fun p q => p.1.rank ≤ q.1.rank := by
  have hsorted := sorted_issued hr
  rw [Sorted, issued, hooksIn_append, List.pairwise_append] at hsorted
  exact hsorted.1

/-! ## What has happened when a hook is called -/

/-- A hook of a kind that was called had been asked for. -/
theorem hooked_of_called (hr : RunIf h ok τ s) {kind : HookKind} {f : Hook}
    (hf : .hook kind f ∈ hostCalls τ) : s.loop.hooked kind = true := by
  by_contra hnot
  have hin : f ∈ hooksOf kind (issued τ s) :=
    mem_hooksOf.mpr (List.mem_append_left _ hf)
  rw [hooks_issued hr, if_neg hnot] at hin
  cases hin

/-- A hook of `OnStarted` is called when all services are launched and ready. -/
theorem launched_of_called (hr : RunIf h ok τ s) {f : Hook}
    (hf : .hook .onStarted f ∈ hostCalls τ) :
    launches (hostActs τ) = List.range h.services.length ∧
      ∀ j < h.services.length, h.readier j = true → .env (.closeReady j) ∈ τ := by
  obtain ⟨hlaunched, hreadied⟩ := launched_of_hasStarted (placed_of_run hr) (hooked_of_called hr hf)
  constructor
  · rw [launches_eq hr]
    exact congrArg List.range hlaunched
  · rw [← hreadied]
    exact readied_closed hr

/-- The hooks of `OnStopping` have returned before a service is stopped. -/
theorem returned_before_stops {post : List Action} {a : Action}
    (hr : RunIf h ok (τ ++ a :: post) s) (hstops : a.stops) {f : Hook} (hf : f ∈ h.onStopping) :
    .hook .onStopping f ∈ hostReturns τ := by
  refine mem_hooksOf.mp ?_
  rw [stops_ordered hr τ a post rfl hstops]
  exact hf

theorem returned_of_stops (hr : RunIf h ok τ s) {a : Action} (ha : a ∈ τ) (hstops : a.stops)
    {f : Hook} (hf : f ∈ h.onStopping) : .hook .onStopping f ∈ hostReturns τ := by
  obtain ⟨pre, post, rfl⟩ := List.append_of_mem ha
  rw [hostReturns_append]
  exact List.mem_append_left _ (returned_before_stops hr hstops hf)

/-- They have returned when `RunContext` has. -/
theorem stopping_of_returned (hr : RunIf h ok τ s) (hpc : s.pc = .returned) {f : Hook}
    (hf : f ∈ h.onStopping) : .hook .onStopping f ∈ hostReturns τ := by
  have hplaced := placed_of_run hr
  simp only [Placed, State.loop, hpc] at hplaced
  refine mem_hooksOf.mp ?_
  rw [hooks_of_returned hr hpc .onStopping hplaced.2]
  exact hf

/-! ## What hooks stand for -/

section Notices

variable {ν : Type} {what : HookKind → Hook → Option ν}

/-- What an action of the host is to functions some of whose hooks stand for something. -/
def Action.notice (what : HookKind → Hook → Option ν) : Action → Option (CourseAct ν)
  | .call .host (.begins (.hook kind f)) => (what kind f).map .begins
  | .call .host (.ends (.hook kind f) panicked) => (what kind f).map fun n => .ends n panicked
  | _ => none

/-- What the calls of the hooks stand for. -/
def notices (what : HookKind → Hook → Option ν) (cs : List Callout) : List ν :=
  (hooksIn cs).filterMap fun p => what p.1 p.2

theorem mem_notices {cs : List Callout} {n : ν} :
    n ∈ notices what cs ↔ ∃ kind f, .hook kind f ∈ cs ∧ what kind f = some n := by
  rw [notices, List.mem_filterMap]
  constructor
  · rintro ⟨⟨kind, f⟩, hp, hn⟩
    exact ⟨kind, f, mem_hooksIn.mp hp, hn⟩
  · rintro ⟨kind, f, hc, hn⟩
    exact ⟨(kind, f), mem_hooksIn.mpr hc, hn⟩

/-- What one hook alone stands for is called as often as the hook. -/
theorem count_notices_le [DecidableEq ν] {n : ν} {kind : HookKind} {f : Hook}
    (hwhat : ∀ kind' f', what kind' f' = some n → kind' = kind ∧ f' = f) (cs : List Callout) :
    (notices what cs).count n ≤ (hooksOf kind cs).count f := by
  have hof : hooksOf kind cs =
      (hooksIn cs).filterMap fun p => if p.1 = kind then some p.2 else none := by
    rw [hooksIn, hooksOf, List.filterMap_filterMap]
    congr 1
    funext c
    cases c <;> rfl
  rw [hof, notices, List.count_filterMap, List.count_filterMap]
  refine List.countP_mono_left ?_
  rintro ⟨kind', f'⟩ - hp
  obtain ⟨rfl, rfl⟩ := hwhat kind' f' (by simpa using hp)
  simp

private theorem notices_calls (τ : List Action) :
    τ.filterMap (fun a => (a.notice what).bind CourseAct.begins?) = notices what (hostCalls τ) := by
  rw [notices, hooksIn, hostCalls, List.filterMap_filterMap, List.filterMap_filterMap]
  congr 1
  funext a
  cases a with
  | call who b =>
      cases who with
      | sup i => rfl
      | host =>
          cases b with
          | begins c =>
              cases c with
              | callback o c => rfl
              | hook kind f =>
                  show ((what kind f).map _).bind _ = what kind f
                  cases what kind f <;> rfl
          | ends c panicked =>
              cases c with
              | callback o c => rfl
              | hook kind f =>
                  show ((what kind f).map _).bind _ = none
                  cases what kind f <;> rfl
  | _ => rfl

private theorem notices_returns (τ : List Action) :
    τ.filterMap (fun a => (a.notice what).bind CourseAct.ends?) = notices what (hostReturns τ) := by
  rw [notices, hooksIn, hostReturns, List.filterMap_filterMap, List.filterMap_filterMap]
  congr 1
  funext a
  cases a with
  | call who b =>
      cases who with
      | sup i => rfl
      | host =>
          cases b with
          | begins c =>
              cases c with
              | callback o c => rfl
              | hook kind f =>
                  show ((what kind f).map _).bind _ = none
                  cases what kind f <;> rfl
          | ends c panicked =>
              cases c with
              | callback o c => rfl
              | hook kind f =>
                  show ((what kind f).map _).bind _ = what kind f
                  cases what kind f <;> rfl
  | _ => rfl

end Notices

/-! ## Where a host works -/

/-- A system in which a host takes its steps, alone or next to others. -/
structure Setting (h : Host) (σ α : Type) where
  system : Lts σ α
  init : σ
  host? : α → Option Action
  state : σ → State h
  runs : ∀ {τ s}, system.Runs init τ s → Run h (τ.filterMap host?) (state s)

/-- The host with nothing next to it. -/
def Setting.alone (h : Host) : Setting h (State h) Action where
  system := Hosting.system h
  init := State.init h
  host? := some
  state := id
  runs := fun hr => by simpa using hr

/-- The host with a service of its own. -/
def Setting.serving {σ β : Type} (C : Component σ β) (h : Host) (i : Nat) :
    Setting h (State h × σ) (Beside Action β) where
  system := hosted C h i
  init := (State.init h, C.init)
  host? := left?
  state := Prod.fst
  runs := HostedRun.host

/-! ## Listeners -/

/-- Functions of the caller that are registered as hooks, with all that they work on. -/
structure Listener (ν σ β : Type) [DecidableEq ν] where
  system : Lts σ β
  init : σ
  /-- what an action is in the course of such a function -/
  act : β → Option (CourseAct ν)
  course : σ → Course ν
  course_init : course init = .idle
  keeps : ∀ {s b}, system.guard s b = true →
    Takes (courses ν) (course s) (act b) (course (system.effect s b))

variable {σ α σ' β ν : Type} [DecidableEq ν]

/-- A host with functions that are registered as hooks. -/
def hooked (E : Setting h σ α) (what : HookKind → Hook → Option ν) (L : Listener ν σ' β) :
    Lts (σ × σ') (Beside α β) :=
  E.system.beside L.system (fun _ a => (E.host? a).bind (Action.notice what))
    (fun _ b => (L.act b).bind CourseAct.outward) fun _ _ => true

abbrev HookedRun (E : Setting h σ α) (what : HookKind → Hook → Option ν) (L : Listener ν σ' β)
    (τ : List (Beside α β)) (s : σ × σ') : Prop :=
  (hooked E what L).Runs (E.init, L.init) τ s

variable {E : Setting h σ α} {what : HookKind → Hook → Option ν} {L : Listener ν σ' β}

/-- What the host has done. -/
def Setting.acts (E : Setting h σ α) (τ : List (Beside α β)) : List Action :=
  (lefts τ).filterMap E.host?

theorem Setting.acts_snoc (τ : List (Beside α β)) {c : Beside α β} {a : Action}
    (hc : c.left?.bind E.host? = some a) : E.acts (τ ++ [c]) = E.acts τ ++ [a] := by
  rw [Setting.acts, Setting.acts, lefts_snoc, List.filterMap_append]
  cases hleft : c.left? with
  | none =>
      rw [hleft] at hc
      cases hc
  | some x =>
      rw [hleft] at hc
      have hx : E.host? x = some a := hc
      simp [hx]

/-- The host is where its own steps have taken it. -/
theorem Setting.state_step {τ : List α} {s : σ} (hr : E.system.Runs E.init τ s) {a : α}
    (hg : E.system.guard s a = true) :
    match E.host? a with
    | some b => (Hosting.system h).guard (E.state s) b = true ∧
        E.state (E.system.effect s a) = (Hosting.system h).effect (E.state s) b
    | none => E.state (E.system.effect s a) = E.state s := by
  have hnext := E.runs (hr.snoc trivial hg)
  rw [filterMap_snoc] at hnext
  cases ha : E.host? a with
  | none =>
      rw [ha, Option.toList_none, List.append_nil] at hnext
      exact hnext.after_eq.symm.trans (E.runs hr).after_eq
  | some b =>
      rw [ha, Option.toList_some] at hnext
      obtain ⟨s₁, hr₁, -, hg₁, hlast⟩ := hnext.split
      obtain rfl : s₁ = E.state s := hr₁.after_eq.symm.trans (E.runs hr).after_eq
      exact ⟨hg₁, hlast.after_eq.symm⟩

/-- What has taken effect. -/
def Listener.performed (L : Listener ν σ' β) (υ : List β) : List ν :=
  (υ.filterMap L.act).filterMap CourseAct.does?

section Hooked

variable {τ : List (Beside α β)} {s : σ × σ'}

theorem HookedRun.host (hr : HookedRun E what L τ s) : Run h (E.acts τ) (E.state s.1) :=
  E.runs (Run.fst hr)

theorem HookedRun.listener (hr : HookedRun E what L τ s) :
    L.system.Runs L.init (rights τ) s.2 := Run.snd hr

theorem Listener.balanced_of_runs {υ : List β} {t : σ'} (hr : L.system.Runs L.init υ t) :
    Balanced (υ.filterMap L.act) (L.course t) := by
  refine Verified.balanced_of_runs ?_
  rw [← L.course_init]
  exact hr.refines L.course L.act fun _ _ _ _ _ hg => L.keeps hg

/-- Host and listener agree on what is seen of the calls. -/
private theorem seen_eq (hr : HookedRun E what L τ s) (read : CourseAct ν → Option ν)
    (hread : ∀ a, read a = a.outward.bind read) :
    ((rights τ).filterMap L.act).filterMap read =
      (E.acts τ).filterMap fun a => (a.notice what).bind read := by
  have hsame := Run.agree hr (fun a => ((E.host? a).bind (Action.notice what)).bind read)
    (fun b => (L.act b).bind read) read (fun _ _ => rfl) fun _ b => by
      cases hb : L.act b with
      | none => rfl
      | some a => exact hread a
  rw [Setting.acts, List.filterMap_filterMap, List.filterMap_filterMap, ← hsame]
  congr 1
  funext a
  exact Option.bind_assoc ..

/-- What was called has taken effect, but for the call in progress. -/
theorem called_eq (hr : HookedRun E what L τ s) : notices what (hostCalls (E.acts τ)) =
    L.performed (rights τ) ++ (L.course s.2).open?.toList := by
  rw [← notices_calls, ← seen_eq hr _ CourseAct.begins?_outward]
  exact (Listener.balanced_of_runs hr.listener).effects

/-- What has taken effect has returned, but for the call in progress. -/
theorem performed_eq (hr : HookedRun E what L τ s) : L.performed (rights τ) =
    notices what (hostReturns (E.acts τ)) ++ (L.course s.2).done?.toList := by
  rw [← notices_returns, ← seen_eq hr _ CourseAct.ends?_outward]
  exact (Listener.balanced_of_runs hr.listener).returns

theorem performed_prefix_called (hr : HookedRun E what L τ s) :
    L.performed (rights τ) <+: notices what (hostCalls (E.acts τ)) := by
  rw [called_eq hr]
  exact List.prefix_append _ _

theorem returned_prefix_performed (hr : HookedRun E what L τ s) :
    notices what (hostReturns (E.acts τ)) <+: L.performed (rights τ) := by
  rw [performed_eq hr]
  exact List.prefix_append _ _

/-- The calls come in the order of the kinds. -/
theorem called_sorted (hr : HookedRun E what L τ s) {R : ν → ν → Prop}
    (hR : ∀ kind f n kind' f' n', what kind f = some n → what kind' f' = some n' →
      kind.rank ≤ kind'.rank → R n n') : (notices what (hostCalls (E.acts τ))).Pairwise R := by
  rw [notices, List.pairwise_filterMap]
  refine (hooks_sorted hr.host).imp ?_
  intro p q hpq n hn n' hn'
  exact hR _ _ _ _ _ _ hn hn' hpq

end Hooked

end Shost.Ports.Hosting
