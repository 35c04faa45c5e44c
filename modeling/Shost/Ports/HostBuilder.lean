import Shost.Ports.HostRestart
import Shost.Verified.Trace

/-!
# The builder

`Builder` collects services, tasks, hooks and settings; a call with an unusable argument
records an error and changes nothing else, and `Build` returns the host or the errors.
What a host relies on is part of a `Builder` at any time, so `Build` has nothing left to
check.

Services, task functions, hooks and loggers are code of the caller and are told apart by a
number.

## Main results

* `build_sound` — `Build` succeeds when no call was invalid, and returns what was added.
-/

namespace Shost.Ports.Building

open Hosting

/-- `Service`: its name, and whether it implements `Readier`. -/
structure Service where
  name : String
  readier : Bool
  id : Nat

/-- The function of a startup task. -/
structure TaskFn where
  id : Nat

inductive Logger where
  | nop
  | custom (id : Nat)

/-- `registration`. -/
structure ServiceReg where
  svc : Service
  restart : Option RestartPolicy
  restartErr : Option RestartPolicy.Invalid

/-- `startupTask`. -/
structure TaskReg where
  name : String
  fn : TaskFn

def production : String := "Production"

/-- The errors of the calls. -/
inductive ConfigError where
  | nilLogger
  | emptyEnvironment
  | shutdownTimeout (d : Duration)
  | startTimeout (d : Duration)
  | nilService
  | emptyName
  | duplicateName (name : String)
  | restart (name : String) (err : RestartPolicy.Invalid)
  | emptyTaskName
  | nilTask (name : String)
  | nilHook (method : String)

/-- The text of an error; the first argument is the `%q` verb, the others are `%v`. -/
def ConfigError.message (quote : String → String) (showFactor : ℚ → String)
    (showDuration : Duration → String) : ConfigError → String
  | .nilLogger => "shost: WithLogger called with nil logger"
  | .emptyEnvironment => "shost: WithEnvironment called with empty environment"
  | .shutdownTimeout d => "shost: shutdown timeout must be positive, got " ++ showDuration d
  | .startTimeout d => "shost: start timeout must be positive, got " ++ showDuration d
  | .nilService => "shost: AddService called with nil service"
  | .emptyName => "shost: service has empty name"
  | .duplicateName name => "shost: duplicate service name " ++ quote name
  | .restart name err =>
      "service " ++ quote name ++ ": " ++ err.message showFactor showDuration
  | .emptyTaskName => "shost: AddStartupTask called with empty name"
  | .nilTask name => "shost: AddStartupTask " ++ quote name ++ " called with nil task"
  | .nilHook method => "shost: " ++ method ++ " called with nil hook"

/-! ## Registrations -/

/-- `WithRestart`: the raw policy is validated, the normalized one is stored. -/
def withRestart (p : RestartPolicy) (r : ServiceReg) : ServiceReg :=
  { r with restart := some p.normalized, restartErr := p.validate }

/-- The registration of a service with its options applied. -/
def register (s : Service) (opts : List RestartPolicy) : ServiceReg :=
  opts.foldl (fun reg p => withRestart p reg) { svc := s, restart := none, restartErr := none }

/-- Of several policies the last one counts. -/
theorem register_eq (s : Service) (opts : List RestartPolicy) :
    register s opts =
      { svc := s
        restart := opts.getLast?.map RestartPolicy.normalized
        restartErr := opts.getLast?.bind RestartPolicy.validate } := by
  induction opts using List.reverseRecOn with
  | nil => rfl
  | append_singleton opts p ih =>
      rw [register, List.foldl_append]
      show withRestart p (register s opts) = _
      rw [ih, List.getLast?_concat]
      rfl

/-- A registration that was accepted. -/
structure ServiceReg.Sound (reg : ServiceReg) : Prop where
  name_nonempty : reg.svc.name ≠ ""
  policy_normal : ∀ p ∈ reg.restart, p.Normal

theorem register_sound {s : Service} {opts : List RestartPolicy} (hname : s.name ≠ "")
    (hopts : (register s opts).restartErr = none) : (register s opts).Sound := by
  rw [register_eq] at hopts ⊢
  refine ⟨hname, fun p hp => ?_⟩
  obtain ⟨raw, hraw, rfl⟩ := Option.map_eq_some_iff.mp hp
  apply RestartPolicy.normal_of_validate
  simpa [hraw] using hopts

/-! ## The builder -/

/-- `Builder`.  The last three fields are what every accepted call keeps. -/
structure Builder where
  services : List ServiceReg
  tasks : List TaskReg
  logger : Option Logger
  environment : String
  shutdownTimeout : Duration
  startTimeout : Duration
  onStarted : List Hook
  onStopping : List Hook
  onStopped : List Hook
  onReload : List Hook
  observers : List Observer
  errs : List ConfigError
  services_sound : ∀ reg ∈ services, reg.Sound
  names_nodup : (services.map (·.svc.name)).Nodup
  shutdownTimeout_pos : 0 < shutdownTimeout

theorem defaultShutdownTimeout_pos : 0 < defaultShutdownTimeout := by decide

/-- `New`. -/
def new : Builder where
  services := []
  tasks := []
  logger := none
  environment := ""
  shutdownTimeout := defaultShutdownTimeout
  startTimeout := 0
  onStarted := []
  onStopping := []
  onStopped := []
  onReload := []
  observers := []
  errs := []
  services_sound _ hreg := absurd hreg List.not_mem_nil
  names_nodup := List.nodup_nil
  shutdownTimeout_pos := defaultShutdownTimeout_pos

namespace Builder

variable (b : Builder)

def reject (err : ConfigError) : Builder := { b with errs := b.errs ++ [err] }

def names : List String := b.services.map (·.svc.name)

theorem services_sound_append {reg : ServiceReg} (hreg : reg.Sound) :
    ∀ reg' ∈ b.services ++ [reg], reg'.Sound := by
  intro reg' hmem
  rcases List.mem_append.mp hmem with hold | hnew
  · exact b.services_sound reg' hold
  · rw [List.mem_singleton.mp hnew]
    exact hreg

theorem names_nodup_append {s : Service} (hfresh : s.name ∉ b.names) (opts : List RestartPolicy) :
    ((b.services ++ [register s opts]).map (·.svc.name)).Nodup := by
  rw [List.map_append, List.map_singleton, register_eq, ← List.concat_eq_append]
  exact List.Nodup.concat hfresh b.names_nodup

def withLogger : Option Logger → Builder
  | none => b.reject .nilLogger
  | some l => { b with logger := some l }

def withEnvironment (e : String) : Builder :=
  if e = "" then b.reject .emptyEnvironment else { b with environment := e }

def withShutdownTimeout (d : Duration) : Builder :=
  if hd : d ≤ 0 then b.reject (.shutdownTimeout d)
  else { b with shutdownTimeout := d, shutdownTimeout_pos := not_le.mp hd }

def withStartTimeout (d : Duration) : Builder :=
  if d ≤ 0 then b.reject (.startTimeout d) else { b with startTimeout := d }

def addService (s : Option Service) (opts : List RestartPolicy) : Builder :=
  match s with
  | none => b.reject .nilService
  | some s =>
      if hname : s.name = "" then b.reject .emptyName
      else if hfresh : s.name ∈ b.names then b.reject (.duplicateName s.name)
      else
        match hreg : (register s opts).restartErr with
        | some err => b.reject (.restart s.name err)
        | none =>
            { b with
              services := b.services ++ [register s opts]
              services_sound := b.services_sound_append (register_sound hname hreg)
              names_nodup := b.names_nodup_append hfresh opts }

def addStartupTask (name : String) (fn : Option TaskFn) : Builder :=
  if name = "" then b.reject .emptyTaskName
  else
    match fn with
    | none => b.reject (.nilTask name)
    | some fn => { b with tasks := b.tasks ++ [⟨name, fn⟩] }

/-- `addHook`; the last argument appends to the list of hooks. -/
def addHook (name : String) (fn : Option Hook) (append : Hook → Builder) : Builder :=
  match fn with
  | none => b.reject (.nilHook name)
  | some fn => append fn

/-- `OnStarted`; the hooks of a host have the lower-case names. -/
def addOnStarted (fn : Option Hook) : Builder :=
  b.addHook "OnStarted" fn fun fn => { b with onStarted := b.onStarted ++ [fn] }

def addOnStopping (fn : Option Hook) : Builder :=
  b.addHook "OnStopping" fn fun fn => { b with onStopping := b.onStopping ++ [fn] }

def addOnStopped (fn : Option Hook) : Builder :=
  b.addHook "OnStopped" fn fun fn => { b with onStopped := b.onStopped ++ [fn] }

def addOnReload (fn : Option Hook) : Builder :=
  b.addHook "OnReload" fn fun fn => { b with onReload := b.onReload ++ [fn] }

def withObserver (o : Observer) : Builder := { b with observers := b.observers ++ [o] }

end Builder

/-- `Host`, with all that `Build` puts in. -/
structure BuiltHost where
  services : List ServiceReg
  tasks : List TaskReg
  log : Logger
  environment : String
  shutdownTimeout : Duration
  startTimeout : Duration
  onStarted : List Hook
  onStopping : List Hook
  onStopped : List Hook
  onReload : List Hook
  observers : List Observer
  services_sound : ∀ reg ∈ services, reg.Sound
  names_nodup : (services.map (·.svc.name)).Nodup
  shutdownTimeout_pos : 0 < shutdownTimeout

/-- The host that `Build` makes when no error was recorded. -/
def Builder.toHost (b : Builder) : BuiltHost where
  services := b.services
  tasks := b.tasks
  log := b.logger.getD .nop
  environment := if b.environment = "" then production else b.environment
  shutdownTimeout := b.shutdownTimeout
  startTimeout := b.startTimeout
  onStarted := b.onStarted
  onStopping := b.onStopping
  onStopped := b.onStopped
  onReload := b.onReload
  observers := b.observers
  services_sound := b.services_sound
  names_nodup := b.names_nodup
  shutdownTimeout_pos := b.shutdownTimeout_pos

/-- `Build`; on failure `errors.Join` keeps the recorded errors. -/
def Builder.build (b : Builder) : Except (List ConfigError) BuiltHost :=
  if b.errs.length > 0 then .error b.errs else .ok b.toHost

/-- The host as its loop sees it. -/
def BuiltHost.host (h : BuiltHost) : Host where
  services := h.services.map fun reg => ⟨reg.svc.name, reg.svc.readier, reg.restart⟩
  tasks := h.tasks.map fun task => ⟨task.name⟩
  shutdownTimeout := h.shutdownTimeout
  startTimeout := h.startTimeout
  onStarted := h.onStarted
  onStopping := h.onStopping
  onStopped := h.onStopped
  observers := h.observers
  names_nonempty := by
    simpa using fun reg hreg => (h.services_sound reg hreg).name_nonempty
  names_nodup := by
    rw [List.map_map]
    exact h.names_nodup
  shutdownTimeout_pos := h.shutdownTimeout_pos
  policies_normal := by
    simpa using fun reg hreg => (h.services_sound reg hreg).policy_normal

/-! ## Sequences of calls -/

inductive Call where
  | withLogger (l : Option Logger)
  | withEnvironment (e : String)
  | withShutdownTimeout (d : Duration)
  | withStartTimeout (d : Duration)
  | addService (s : Option Service) (opts : List RestartPolicy)
  | addStartupTask (name : String) (fn : Option TaskFn)
  | onStarted (fn : Option Hook)
  | onStopping (fn : Option Hook)
  | onStopped (fn : Option Hook)
  | onReload (fn : Option Hook)
  | withObserver (o : Observer)

namespace Call

def apply (b : Builder) : Call → Builder
  | withLogger l => b.withLogger l
  | withEnvironment e => b.withEnvironment e
  | withShutdownTimeout d => b.withShutdownTimeout d
  | withStartTimeout d => b.withStartTimeout d
  | addService s opts => b.addService s opts
  | addStartupTask name fn => b.addStartupTask name fn
  | onStarted fn => b.addOnStarted fn
  | onStopping fn => b.addOnStopping fn
  | onStopped fn => b.addOnStopped fn
  | onReload fn => b.addOnReload fn
  | withObserver o => b.withObserver o

/-- The call is invalid when these names are taken. -/
def Invalid (taken : List String) : Call → Prop
  | withLogger l => l = none
  | withEnvironment e => e = ""
  | withShutdownTimeout d | withStartTimeout d => d ≤ 0
  | addService none _ => True
  | addService (some s) opts =>
      s.name = "" ∨ s.name ∈ taken ∨ ∃ p ∈ opts.getLast?, p.validate ≠ none
  | addStartupTask name fn => name = "" ∨ fn = none
  | onStarted fn | onStopping fn | onStopped fn | onReload fn => fn = none
  | withObserver _ => False

instance (taken : List String) (call : Call) : Decidable (call.Invalid taken) :=
  match call with
  | withLogger l => inferInstanceAs (Decidable (l = none))
  | withEnvironment e => inferInstanceAs (Decidable (e = ""))
  | withShutdownTimeout d | withStartTimeout d => inferInstanceAs (Decidable (d ≤ 0))
  | addService none _ => inferInstanceAs (Decidable True)
  | addService (some s) opts =>
      inferInstanceAs (Decidable (s.name = "" ∨ s.name ∈ taken ∨
        ∃ p ∈ opts.getLast?, p.validate ≠ none))
  | addStartupTask name fn => inferInstanceAs (Decidable (name = "" ∨ fn = none))
  | onStarted fn | onStopping fn | onStopped fn | onReload fn =>
      inferInstanceAs (Decidable (fn = none))
  | withObserver _ => inferInstanceAs (Decidable False)

/-- The service a call adds, with the normal form of its last policy. -/
@[simp] def service? : Call → Option ServiceReg
  | addService (some s) opts => some ⟨s, opts.getLast?.map RestartPolicy.normalized, none⟩
  | _ => none

@[simp] def task? : Call → Option TaskReg
  | addStartupTask name (some fn) => some ⟨name, fn⟩
  | _ => none

@[simp] def onStarted? : Call → Option Hook
  | onStarted fn => fn
  | _ => none

@[simp] def onStopping? : Call → Option Hook
  | onStopping fn => fn
  | _ => none

@[simp] def onStopped? : Call → Option Hook
  | onStopped fn => fn
  | _ => none

@[simp] def onReload? : Call → Option Hook
  | onReload fn => fn
  | _ => none

@[simp] def observer? : Call → Option Observer
  | withObserver o => some o
  | _ => none

@[simp] def logger? : Call → Option Logger
  | withLogger l => l
  | _ => none

@[simp] def environment? : Call → Option String
  | withEnvironment e => some e
  | _ => none

@[simp] def shutdownTimeout? : Call → Option Duration
  | withShutdownTimeout d => some d
  | _ => none

@[simp] def startTimeout? : Call → Option Duration
  | withStartTimeout d => some d
  | _ => none

end Call

/-- What an error says of the call it was recorded for. -/
inductive Reports : Call → ConfigError → Prop
  | nilLogger : Reports (.withLogger none) .nilLogger
  | emptyEnvironment : Reports (.withEnvironment "") .emptyEnvironment
  | shutdownTimeout {d : Duration} : d ≤ 0 → Reports (.withShutdownTimeout d) (.shutdownTimeout d)
  | startTimeout {d : Duration} : d ≤ 0 → Reports (.withStartTimeout d) (.startTimeout d)
  | nilService {opts : List RestartPolicy} : Reports (.addService none opts) .nilService
  | emptyName {s : Service} {opts : List RestartPolicy} : s.name = "" →
      Reports (.addService (some s) opts) .emptyName
  | duplicateName {s : Service} {opts : List RestartPolicy} : s.name ≠ "" →
      Reports (.addService (some s) opts) (.duplicateName s.name)
  | restart {s : Service} {opts : List RestartPolicy} {p : RestartPolicy}
      {err : RestartPolicy.Invalid} : s.name ≠ "" → opts.getLast? = some p →
      p.validate = some err → Reports (.addService (some s) opts) (.restart s.name err)
  | emptyTaskName {fn : Option TaskFn} : Reports (.addStartupTask "" fn) .emptyTaskName
  | nilTask {name : String} : name ≠ "" → Reports (.addStartupTask name none) (.nilTask name)
  | onStarted : Reports (.onStarted none) (.nilHook "OnStarted")
  | onStopping : Reports (.onStopping none) (.nilHook "OnStopping")
  | onStopped : Reports (.onStopped none) (.nilHook "OnStopped")
  | onReload : Reports (.onReload none) (.nilHook "OnReload")

/-- The invalid calls of a sequence, in order. -/
def invalids : List String → List Call → List Call
  | _, [] => []
  | taken, call :: calls =>
      if call.Invalid taken then call :: invalids taken calls
      else invalids (taken ++ call.service?.toList.map (·.svc.name)) calls

def run (calls : List Call) : Builder := calls.foldl Call.apply new

/-- The host holds what the calls added, in call order, and the last value of each setting. -/
structure BuiltHost.Holds (h : BuiltHost) (calls : List Call) : Prop where
  services : h.services = calls.filterMap Call.service?
  tasks : h.tasks = calls.filterMap Call.task?
  log : h.log = (calls.filterMap Call.logger?).getLast?.getD .nop
  environment : h.environment = (calls.filterMap Call.environment?).getLast?.getD production
  shutdownTimeout : h.shutdownTimeout =
    (calls.filterMap Call.shutdownTimeout?).getLast?.getD defaultShutdownTimeout
  startTimeout : h.startTimeout = (calls.filterMap Call.startTimeout?).getLast?.getD 0
  onStarted : h.onStarted = calls.filterMap Call.onStarted?
  onStopping : h.onStopping = calls.filterMap Call.onStopping?
  onStopped : h.onStopped = calls.filterMap Call.onStopped?
  onReload : h.onReload = calls.filterMap Call.onReload?
  observers : h.observers = calls.filterMap Call.observer?

/-! ## One call -/

section Step

variable {b : Builder} {call : Call} {calls : List Call}

/-- An invalid call records an error and changes nothing else. -/
theorem apply_invalid (hcall : call.Invalid b.names) :
    ∃ err, Reports call err ∧ call.apply b = b.reject err := by
  cases call with
  | withLogger l =>
      obtain rfl : l = none := hcall
      exact ⟨_, .nilLogger, rfl⟩
  | withEnvironment e =>
      obtain rfl : e = "" := hcall
      exact ⟨_, .emptyEnvironment, rfl⟩
  | withShutdownTimeout d => exact ⟨_, .shutdownTimeout hcall, dif_pos hcall⟩
  | withStartTimeout d => exact ⟨_, .startTimeout hcall, if_pos hcall⟩
  | addService s opts =>
      cases s with
      | none => exact ⟨_, .nilService, rfl⟩
      | some s =>
          show ∃ err, _ ∧ b.addService (some s) opts = _
          rw [Builder.addService]
          by_cases hname : s.name = ""
          · exact ⟨_, .emptyName hname, dif_pos hname⟩
          by_cases hfresh : s.name ∈ b.names
          · exact ⟨_, .duplicateName hname, by rw [dif_neg hname, dif_pos hfresh]⟩
          rcases hcall with h | h | ⟨p, hp, herr⟩
          · exact absurd h hname
          · exact absurd h hfresh
          · obtain ⟨err, hvalidate⟩ := Option.ne_none_iff_exists'.mp herr
            have hreg : (register s opts).restartErr = some err := by
              rw [register_eq]
              simp [Option.mem_def.mp hp, hvalidate]
            refine ⟨_, .restart hname hp hvalidate, ?_⟩
            rw [dif_neg hname, dif_neg hfresh]
            split
            · next err' herr' =>
                rw [hreg] at herr'
                cases herr'
                rfl
            · next hnone =>
                rw [hreg] at hnone
                cases hnone
  | addStartupTask name fn =>
      by_cases hname : name = ""
      · subst hname
        exact ⟨_, .emptyTaskName, rfl⟩
      · obtain rfl : fn = none := hcall.resolve_left hname
        exact ⟨_, .nilTask hname, if_neg hname⟩
  | onStarted fn =>
      obtain rfl : fn = none := hcall
      exact ⟨_, .onStarted, rfl⟩
  | onStopping fn =>
      obtain rfl : fn = none := hcall
      exact ⟨_, .onStopping, rfl⟩
  | onStopped fn =>
      obtain rfl : fn = none := hcall
      exact ⟨_, .onStopped, rfl⟩
  | onReload fn =>
      obtain rfl : fn = none := hcall
      exact ⟨_, .onReload, rfl⟩
  | withObserver o => exact hcall.elim

/-- The registration that is added for a service. -/
theorem addService_valid {s : Service} {opts : List RestartPolicy}
    (hcall : ¬(Call.addService (some s) opts).Invalid b.names) :
    ∃ hsound hnodup, b.addService (some s) opts =
      { b with
        services := b.services ++ [⟨s, opts.getLast?.map RestartPolicy.normalized, none⟩]
        services_sound := hsound
        names_nodup := hnodup } := by
  simp only [Call.Invalid, not_or, not_exists, not_and, not_not] at hcall
  obtain ⟨hname, hfresh, hopts⟩ := hcall
  have hreg : (register s opts).restartErr = none := by
    rw [register_eq]
    exact Option.bind_eq_none_iff.mpr hopts
  have heq : register s opts = ⟨s, opts.getLast?.map RestartPolicy.normalized, none⟩ := by
    rw [← hreg, register_eq]
  have hsound := b.services_sound_append (register_sound hname hreg)
  have hnodup := b.names_nodup_append hfresh opts
  rw [heq] at hsound hnodup
  refine ⟨hsound, hnodup, ?_⟩
  rw [Builder.addService, dif_neg hname, dif_neg hfresh]
  split
  · next err herr =>
      rw [hreg] at herr
      cases herr
  · simp only [heq]

/-- What a call adds to a builder or sets in it. -/
structure Adds (call : Call) (b b' : Builder) : Prop where
  services : b'.services = b.services ++ call.service?.toList
  tasks : b'.tasks = b.tasks ++ call.task?.toList
  logger : b'.logger = call.logger?.or b.logger
  environment : b'.environment = call.environment?.getD b.environment
  environment_ne : ∀ e ∈ call.environment?, e ≠ ""
  shutdownTimeout : b'.shutdownTimeout = call.shutdownTimeout?.getD b.shutdownTimeout
  startTimeout : b'.startTimeout = call.startTimeout?.getD b.startTimeout
  onStarted : b'.onStarted = b.onStarted ++ call.onStarted?.toList
  onStopping : b'.onStopping = b.onStopping ++ call.onStopping?.toList
  onStopped : b'.onStopped = b.onStopped ++ call.onStopped?.toList
  onReload : b'.onReload = b.onReload ++ call.onReload?.toList
  observers : b'.observers = b.observers ++ call.observer?.toList
  errs : b'.errs = b.errs

theorem adds_of_valid (hcall : ¬call.Invalid b.names) : Adds call b (call.apply b) := by
  cases call with
  | withLogger l =>
      obtain ⟨l, rfl⟩ := Option.ne_none_iff_exists'.mp hcall
      constructor <;> simp [Call.apply, Builder.withLogger]
  | withEnvironment e =>
      have he : ¬e = "" := hcall
      constructor <;> simp [Call.apply, Builder.withEnvironment, he]
  | withShutdownTimeout d =>
      have hd : ¬d ≤ 0 := hcall
      constructor <;> simp [Call.apply, Builder.withShutdownTimeout, hd]
  | withStartTimeout d =>
      have hd : ¬d ≤ 0 := hcall
      constructor <;> simp [Call.apply, Builder.withStartTimeout, hd]
  | addService s opts =>
      cases s with
      | none => exact absurd trivial hcall
      | some s =>
          obtain ⟨hsound, hnodup, heq⟩ := addService_valid hcall
          constructor <;> simp [Call.apply, heq]
  | addStartupTask name fn =>
      obtain ⟨hname, hfn⟩ := not_or.mp hcall
      obtain ⟨fn, rfl⟩ := Option.ne_none_iff_exists'.mp hfn
      constructor <;> simp [Call.apply, Builder.addStartupTask, hname]
  | onStarted fn =>
      obtain ⟨fn, rfl⟩ := Option.ne_none_iff_exists'.mp hcall
      constructor <;> simp [Call.apply, Builder.addOnStarted, Builder.addHook]
  | onStopping fn =>
      obtain ⟨fn, rfl⟩ := Option.ne_none_iff_exists'.mp hcall
      constructor <;> simp [Call.apply, Builder.addOnStopping, Builder.addHook]
  | onStopped fn =>
      obtain ⟨fn, rfl⟩ := Option.ne_none_iff_exists'.mp hcall
      constructor <;> simp [Call.apply, Builder.addOnStopped, Builder.addHook]
  | onReload fn =>
      obtain ⟨fn, rfl⟩ := Option.ne_none_iff_exists'.mp hcall
      constructor <;> simp [Call.apply, Builder.addOnReload, Builder.addHook]
  | withObserver o => constructor <;> simp [Call.apply, Builder.withObserver]

/-- A service without options is added as it is, or not at all. -/
theorem Builder.addService_services (b : Builder) (s : Service) :
    ∃ added, (b.addService (some s) []).services = b.services ++ added ∧
      (added = [] ∨ added = [⟨s, none, none⟩]) := by
  by_cases hcall : (Call.addService (some s) []).Invalid b.names
  · obtain ⟨err, -, heq⟩ := apply_invalid hcall
    have hreject : b.addService (some s) [] = b.reject err := heq
    exact ⟨[], by rw [hreject, List.append_nil]; rfl, Or.inl rfl⟩
  · exact ⟨_, (adds_of_valid hcall).services, Or.inr rfl⟩

private theorem getLast?_filterMap_snoc {α β : Type*} (f : α → Option β) (l : List α) (a : α) :
    ((l ++ [a]).filterMap f).getLast? = (f a).or (l.filterMap f).getLast? := by
  rw [List.filterMap_append]
  cases ha : f a <;> simp [ha]

/-- A valid call adds its part to the host. -/
theorem Adds.holds {b' : Builder} (hadds : Adds call b b') (hhost : b.toHost.Holds calls) :
    b'.toHost.Holds (calls ++ [call]) where
  services := by rw [Verified.Trace.filterMap_snoc, ← hhost.services]; exact hadds.services
  tasks := by rw [Verified.Trace.filterMap_snoc, ← hhost.tasks]; exact hadds.tasks
  log := by
    rw [getLast?_filterMap_snoc]
    have hlog := hhost.log
    simp only [Builder.toHost, hadds.logger] at hlog ⊢
    cases call.logger? <;> simp [hlog]
  environment := by
    rw [getLast?_filterMap_snoc]
    have henvironment := hhost.environment
    have hne := hadds.environment_ne
    simp only [Builder.toHost, hadds.environment] at henvironment ⊢
    cases hcall : call.environment? with
    | none => simpa using henvironment
    | some e => simp [hne e hcall]
  shutdownTimeout := by
    rw [getLast?_filterMap_snoc]
    have htimeout := hhost.shutdownTimeout
    simp only [Builder.toHost, hadds.shutdownTimeout] at htimeout ⊢
    cases call.shutdownTimeout? <;> simp [htimeout]
  startTimeout := by
    rw [getLast?_filterMap_snoc]
    have htimeout := hhost.startTimeout
    simp only [Builder.toHost, hadds.startTimeout] at htimeout ⊢
    cases call.startTimeout? <;> simp [htimeout]
  onStarted := by rw [Verified.Trace.filterMap_snoc, ← hhost.onStarted]; exact hadds.onStarted
  onStopping := by rw [Verified.Trace.filterMap_snoc, ← hhost.onStopping]; exact hadds.onStopping
  onStopped := by rw [Verified.Trace.filterMap_snoc, ← hhost.onStopped]; exact hadds.onStopped
  onReload := by rw [Verified.Trace.filterMap_snoc, ← hhost.onReload]; exact hadds.onReload
  observers := by rw [Verified.Trace.filterMap_snoc, ← hhost.observers]; exact hadds.observers

theorem Adds.names {b' : Builder} (hadds : Adds call b b') :
    b'.names = b.names ++ call.service?.toList.map (·.svc.name) := by
  rw [Builder.names, hadds.services, List.map_append, Builder.names]

end Step

/-! ## All calls -/

theorem holds_new : new.toHost.Holds [] := by
  constructor <;> rfl

/-- The errors are those of the invalid calls. -/
theorem errs_foldl (calls : List Call) (b : Builder) :
    ∃ errs, (calls.foldl Call.apply b).errs = b.errs ++ errs ∧
      List.Forall₂ Reports (invalids b.names calls) errs := by
  induction calls generalizing b with
  | nil => exact ⟨[], (List.append_nil _).symm, .nil⟩
  | cons call calls ih =>
      rw [invalids, List.foldl_cons]
      by_cases hcall : call.Invalid b.names
      · obtain ⟨err, hreports, happly⟩ := apply_invalid hcall
        obtain ⟨errs, herrs, hall⟩ := ih (b.reject err)
        rw [if_pos hcall, happly]
        refine ⟨err :: errs, ?_, .cons hreports hall⟩
        rw [herrs, Builder.reject]
        simp
      · have hadds := adds_of_valid hcall
        obtain ⟨errs, herrs, hall⟩ := ih (call.apply b)
        rw [hadds.names] at hall
        rw [if_neg hcall]
        exact ⟨errs, by rw [herrs, hadds.errs], hall⟩

/-- When no call is invalid, everything is added. -/
theorem holds_foldl (calls : List Call) {b : Builder} {before : List Call}
    (hhost : b.toHost.Holds before) (hvalid : invalids b.names calls = []) :
    (calls.foldl Call.apply b).toHost.Holds (before ++ calls) := by
  induction calls generalizing b before with
  | nil => rwa [List.append_nil]
  | cons call calls ih =>
      rw [invalids] at hvalid
      split at hvalid
      · cases hvalid
      · next hcall =>
          have hadds := adds_of_valid hcall
          rw [← hadds.names] at hvalid
          rw [List.append_cons]
          exact ih (hadds.holds hhost) hvalid

/--
**The builder**: `Build` succeeds exactly if no call was invalid, and otherwise returns one
error for each invalid call, in order.  The host holds what was added and is as its loop
relies on; an invalid call changes nothing but the errors.
-/
theorem build_sound (calls : List Call) :
    ((∃ h, (run calls).build = .ok h) ↔ invalids [] calls = []) ∧
    (∀ errs, (run calls).build = .error errs →
      List.Forall₂ Reports (invalids [] calls) errs) ∧
    (∀ h, (run calls).build = .ok h → h.Holds calls ∧
      (∀ reg ∈ h.services, reg.svc.name ≠ "") ∧ (h.services.map (·.svc.name)).Nodup ∧
      0 < h.shutdownTimeout ∧ ∀ reg ∈ h.services, ∀ p ∈ reg.restart, p.Normal) ∧
    (∀ (b : Builder) (call : Call), call.Invalid b.names →
      ∃ err, Reports call err ∧ call.apply b = { b with errs := b.errs ++ [err] }) := by
  obtain ⟨errs, herrs, hforall⟩ := errs_foldl calls new
  have hrun : (run calls).errs = errs := herrs
  have hall : List.Forall₂ Reports (invalids [] calls) errs := hforall
  have hnil : errs = [] ↔ invalids [] calls = [] := by
    rw [← List.length_eq_zero_iff, ← List.length_eq_zero_iff, hall.length_eq]
  have hbuild : (run calls).build =
      if errs.length > 0 then .error errs else .ok (run calls).toHost := by
    rw [Builder.build, hrun]
  refine ⟨?_, fun errs' hfail => ?_, fun h hok => ?_, fun b call hcall => apply_invalid hcall⟩
  · rw [hbuild, ← hnil]
    split
    · next hpos => simp [List.ne_nil_of_length_pos hpos]
    · next hpos => simpa using List.length_eq_zero_iff.mp (Nat.eq_zero_of_not_pos hpos)
  · rw [hbuild] at hfail
    split at hfail
    · cases hfail
      exact hall
    · cases hfail
  · rw [hbuild] at hok
    split at hok
    · cases hok
    · next hpos =>
        cases hok
        have hvalid := hnil.mp (List.length_eq_zero_iff.mp (Nat.eq_zero_of_not_pos hpos))
        have hsound := (run calls).services_sound
        exact ⟨holds_foldl calls holds_new hvalid, fun reg hreg => (hsound reg hreg).name_nonempty,
          (run calls).names_nodup, (run calls).shutdownTimeout_pos,
          fun reg hreg => (hsound reg hreg).policy_normal⟩

end Shost.Ports.Building
