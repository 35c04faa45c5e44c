import Shost.Verified.Mutex
import Shost.Verified.Refine

/-!
# The single-instance lock

`Acquire` and `Release` of package `single`, called any number of times by any processes
and with any paths, on the files of one machine.  On Unix the file is opened, and created
where it is missing, and then its `flock` is tried without waiting; `Release` closes the
descriptor and leaves the file.  On Windows the file is opened without sharing, which is
the lock; `Release` closes the handle and then removes the file, if nobody has opened it.
A process can die at any moment, and a file can be removed by anybody.

## Main results

* `locks_of_run` — the calls are a table of locks, one for each path, as long as nobody
  removes a file that a Unix process has open.
* `race_after_removal` — two holders, when somebody does.
* `acquires_of_run` — no call waits, and a lock file names the process that holds it.
-/

namespace Shost.Ports.Single

open Shost.Verified

inductive Os where
  | unix
  | windows
  deriving DecidableEq

/-- Why `open` fails. -/
inductive Failure where
  | alreadyRunning
  | other (text : String)
  deriving DecidableEq

def Failure.text : Failure → String
  | .alreadyRunning => "single: another instance is already running"
  | .other text => text

/-- The text of the error that `Acquire` returns. -/
def acquireError (path : String) (failure : Failure) : String :=
  "single: lock " ++ path ++ ": " ++ failure.text

/-- The place of a call of `Acquire`, and of the `Release` of its lock.  A file is named
by its number. -/
inductive CallPC where
  | idle
  /-- Unix: before `Flock` -/
  | opened (file : Nat)
  /-- Unix: `Flock` has failed, before `Close` -/
  | denied (file : Nat) (failure : Failure)
  /-- before `Truncate` -/
  | locked (file : Nat)
  /-- before the process id is written; `ok` tells whether `Truncate` succeeded -/
  | cut (file : Nat) (ok : Bool)
  /-- `Acquire` has returned the lock; `ok` tells whether the process id was written -/
  | held (file : Nat) (ok : Bool)
  /-- Windows: the handle is closed, before `Remove` -/
  | removing
  | released
  | failed (text : String)
  /-- the process has died -/
  | dead
  deriving DecidableEq

/-- The file that a call has open. -/
def CallPC.file : CallPC → Option Nat
  | .opened file | .denied file _ | .locked file | .cut file _ | .held file _ => some file
  | _ => none

/-- The file that a call has locked. -/
def CallPC.holds : CallPC → Option Nat
  | .locked file | .cut file _ | .held file _ => some file
  | _ => none

/-- The calls: the process and the path of each. -/
structure Calls where
  pid : Nat → Nat
  path : Nat → String

/-- What `Acquire` writes to the file. -/
def Calls.line (calls : Calls) (c : Nat) : String := toString (calls.pid c) ++ "\n"

/-- The files of the machine and the calls. -/
structure State where
  /-- the directory entries -/
  dir : String → Option Nat
  /-- the next file that is created -/
  fresh : Nat
  /-- the call whose descriptor holds the lock of a file -/
  lock : Nat → Option Nat
  text : Nat → String
  pc : Nat → CallPC

def State.init : State where
  dir := fun _ => none
  fresh := 0
  lock := fun _ => none
  text := fun _ => ""
  pc := fun _ => .idle

/-- Steps of the calls, the death of a process, and the removal of a file by somebody
else. -/
inductive Action where
  | openFile (c : Nat)
  | openFails (c : Nat) (text : String)
  | flock (c : Nat)
  /-- `EWOULDBLOCK` -/
  | flockBusy (c : Nat)
  | flockFails (c : Nat) (text : String)
  | closeDenied (c : Nat)
  | createFile (c : Nat)
  /-- `ERROR_SHARING_VIOLATION` -/
  | createBusy (c : Nat)
  | createFails (c : Nat) (text : String)
  | truncate (c : Nat) (ok : Bool)
  | write (c : Nat) (ok : Bool)
  | release (c : Nat)
  | remove (c : Nat)
  | crash (pid : Nat)
  | unlink (path : String)
  deriving DecidableEq

/-- A call goes on to another place. -/
def State.goto (s : State) (c : Nat) (pc : CallPC) : State :=
  { s with pc := Function.update s.pc c pc }

/-- The call that has locked the file of a path. -/
def State.holder (s : State) (path : String) : Option Nat := (s.dir path).bind s.lock

/-- The path has a directory entry, and a file is created where it had none. -/
def State.create (s : State) (path : String) : State :=
  if (s.dir path).isSome then s
  else { s with dir := Function.update s.dir path (some s.fresh), fresh := s.fresh + 1 }

/-- The number of that file. -/
def State.fileOf (s : State) (path : String) : Nat := (s.dir path).getD s.fresh

/-- A call locks a file. -/
def State.take (s : State) (c file : Nat) : State :=
  { s with
    lock := Function.update s.lock file (some c)
    pc := Function.update s.pc c (.locked file) }

/-- The descriptors of some calls are closed, and with them their locks. -/
def State.close (s : State) (who : Nat → Bool) : State :=
  { s with lock := fun file => if (s.lock file).any who then none else s.lock file }

/-- Writing at the beginning of a file. -/
def overwrite (new old : String) : String :=
  String.ofList (new.toList ++ old.toList.drop new.toList.length)

/-- Windows removes a file that nobody has opened, Unix any. -/
def guard (os : Os) (calls : Calls) (s : State) : Action → Bool
  | .openFile c | .openFails c _ => decide (os = .unix ∧ s.pc c = .idle)
  | .flock c =>
      match s.pc c with
      | .opened file => (s.lock file).isNone
      | _ => false
  | .flockBusy c =>
      match s.pc c with
      | .opened file => (s.lock file).isSome
      | _ => false
  | .flockFails c _ =>
      match s.pc c with
      | .opened _ => true
      | _ => false
  | .closeDenied c =>
      match s.pc c with
      | .denied _ _ => true
      | _ => false
  | .createFile c =>
      decide (os = .windows ∧ s.pc c = .idle) && (s.holder (calls.path c)).isNone
  | .createBusy c =>
      decide (os = .windows ∧ s.pc c = .idle) && (s.holder (calls.path c)).isSome
  | .createFails c _ => decide (os = .windows ∧ s.pc c = .idle)
  | .truncate c _ =>
      match s.pc c with
      | .locked _ => true
      | _ => false
  | .write c _ =>
      match s.pc c with
      | .cut _ _ => true
      | _ => false
  | .release c =>
      match s.pc c with
      | .held _ _ => true
      | _ => false
  | .remove c => decide (s.pc c = .removing)
  | .crash _ => true
  | .unlink path => decide (os = .unix) || (s.holder path).isNone

def effect (os : Os) (calls : Calls) (s : State) : Action → State
  | .openFile c => (s.create (calls.path c)).goto c (.opened (s.fileOf (calls.path c)))
  | .openFails c text | .createFails c text =>
      s.goto c (.failed (acquireError (calls.path c) (.other text)))
  | .flock c =>
      match s.pc c with
      | .opened file => s.take c file
      | _ => s
  | .flockBusy c =>
      match s.pc c with
      | .opened file => s.goto c (.denied file .alreadyRunning)
      | _ => s
  | .flockFails c text =>
      match s.pc c with
      | .opened file => s.goto c (.denied file (.other text))
      | _ => s
  | .closeDenied c =>
      match s.pc c with
      | .denied _ failure =>
          (s.close (· == c)).goto c (.failed (acquireError (calls.path c) failure))
      | _ => s
  | .createFile c => (s.create (calls.path c)).take c (s.fileOf (calls.path c))
  | .createBusy c => s.goto c (.failed (acquireError (calls.path c) .alreadyRunning))
  | .truncate c ok =>
      match s.pc c with
      | .locked file =>
          { s with text := if ok then Function.update s.text file "" else s.text }.goto c
            (.cut file ok)
      | _ => s
  | .write c ok =>
      match s.pc c with
      | .cut file cutOk =>
          { s with
            text := if ok then
                Function.update s.text file (overwrite (calls.line c) (s.text file))
              else s.text }.goto c (.held file (cutOk && ok))
      | _ => s
  | .release c => (s.close (· == c)).goto c (if os = .windows then .removing else .released)
  -- best effort: the file of another holder stays
  | .remove c =>
      { s with
        dir := if (s.holder (calls.path c)).isNone then
            Function.update s.dir (calls.path c) none
          else s.dir }.goto c .released
  | .crash pid =>
      { s.close (fun c => calls.pid c == pid) with
        pc := fun c => if calls.pid c = pid then .dead else s.pc c }
  | .unlink path => { s with dir := Function.update s.dir path none }

/-- The calls on a machine. -/
def machine (os : Os) (calls : Calls) : Lts State Action where
  guard := guard os calls
  effect := effect os calls

abbrev Run (os : Os) (calls : Calls) (τ : List Action) (s : State) : Prop :=
  (machine os calls).Runs State.init τ s

abbrev RunIf (os : Os) (calls : Calls) (ok : State → Action → Prop) (τ : List Action)
    (s : State) : Prop :=
  (machine os calls).Run ok State.init τ s

/-- Nobody removes a file that a Unix process has open for the lock. -/
def Undisturbed (os : Os) (calls : Calls) (s : State) (a : Action) : Prop :=
  os = .unix → ∀ path, a = .unlink path → ∀ c, calls.path c = path → (s.pc c).file = none

variable {os : Os} {calls : Calls} {ok : State → Action → Prop} {τ : List Action} {s : State}

/-! ## The files and the places of the calls -/

/-- Directory entries: each names a file of its own, which has been created. -/
structure Entries (dir : String → Option Nat) (fresh : Nat) : Prop where
  lt : ∀ path file, dir path = some file → file < fresh
  unique : ∀ path path' file, dir path = some file → dir path' = some file → path = path'

theorem Entries.remove {dir : String → Option Nat} {fresh : Nat} (hdir : Entries dir fresh)
    (path : String) : Entries (Function.update dir path none) fresh := by
  have hold (p : String) (file : Nat) (hentry : Function.update dir path none p = some file) :
      dir p = some file := by
    by_cases hp : p = path
    · rw [hp, Function.update_self] at hentry
      cases hentry
    · rwa [Function.update_of_ne hp] at hentry
  exact ⟨fun p file hentry => hdir.lt p file (hold p file hentry), fun p p' file hentry hentry' =>
    hdir.unique p p' file (hold p file hentry) (hold p' file hentry')⟩

theorem Entries.create {dir : String → Option Nat} {fresh : Nat} (hdir : Entries dir fresh)
    (path : String) : Entries (Function.update dir path (some fresh)) (fresh + 1) := by
  have hold (p : String) (file : Nat)
      (hentry : Function.update dir path (some fresh) p = some file) :
      p = path ∧ file = fresh ∨ dir p = some file ∧ file < fresh := by
    by_cases hp : p = path
    · rw [hp, Function.update_self] at hentry
      exact Or.inl ⟨hp, (Option.some.inj hentry).symm⟩
    · rw [Function.update_of_ne hp] at hentry
      exact Or.inr ⟨hentry, hdir.lt p file hentry⟩
  refine ⟨fun p file hentry => ?_, fun p p' file hentry hentry' => ?_⟩
  · rcases hold p file hentry with ⟨-, rfl⟩ | ⟨-, hlt⟩
    · exact Nat.lt_succ_self _
    · exact Nat.lt_succ_of_lt hlt
  · rcases hold p file hentry with ⟨rfl, rfl⟩ | ⟨hp, hlt⟩ <;>
      rcases hold p' _ hentry' with ⟨rfl, hfile⟩ | ⟨hp', hlt'⟩
    · rfl
    · exact absurd hlt' (Nat.lt_irrefl _)
    · rw [hfile] at hlt
      exact absurd hlt (Nat.lt_irrefl _)
    · exact hdir.unique p p' file hp hp'

/-- What the files are, by the places of the calls. -/
structure Files (s : State) : Prop where
  entries : Entries s.dir s.fresh
  open_lt : ∀ c file, (s.pc c).file = some file → file < s.fresh
  lock_iff : ∀ file c, s.lock file = some c ↔ (s.pc c).holds = some file

/-- What a call has locked it has open. -/
theorem CallPC.file_of_holds {pc : CallPC} {file : Nat} (hholds : pc.holds = some file) :
    pc.file = some file := by
  cases pc <;> simp_all [CallPC.holds, CallPC.file]

/-- A file not yet created is not locked. -/
private theorem Files.fresh_free (hs : Files s) : s.lock s.fresh = none := by
  cases hlock : s.lock s.fresh with
  | none => rfl
  | some c =>
      have hopen := CallPC.file_of_holds ((hs.lock_iff _ c).mp hlock)
      exact absurd (hs.open_lt c _ hopen) (Nat.lt_irrefl _)

/-- A call goes on, with the file that it has or has not locked. -/
private theorem Files.goto {c : Nat} {pc : CallPC} {text : Nat → String} (hs : Files s)
    (hfile : ∀ file, pc.file = some file → file < s.fresh)
    (hholds : pc.holds = (s.pc c).holds) : Files ({ s with text := text }.goto c pc) where
  entries := hs.entries
  open_lt := by
    intro d file hopen
    have hopen' : (Function.update s.pc c pc d).file = some file := hopen
    by_cases hd : d = c
    · rw [hd, Function.update_self] at hopen'
      exact hfile file hopen'
    · rw [Function.update_of_ne hd] at hopen'
      exact hs.open_lt d file hopen'
  lock_iff := by
    intro file d
    show s.lock file = some d ↔ (Function.update s.pc c pc d).holds = some file
    by_cases hd : d = c
    · rw [hd, Function.update_self, hholds]
      exact hs.lock_iff file c
    · rw [Function.update_of_ne hd]
      exact hs.lock_iff file d

/-- Calls close what they have open. -/
private theorem Files.close {who : Nat → Bool} {pc : Nat → CallPC} (hs : Files s)
    (hwho : ∀ c, who c = true → (pc c).file = none)
    (hother : ∀ c, who c = false → pc c = s.pc c) :
    Files { s.close who with pc := pc } where
  entries := hs.entries
  open_lt := by
    intro c file hopen
    have hopen' : (pc c).file = some file := hopen
    cases hc : who c with
    | true =>
        rw [hwho c hc] at hopen'
        cases hopen'
    | false =>
        rw [hother c hc] at hopen'
        exact hs.open_lt c file hopen'
  lock_iff := by
    intro file c
    show (if (s.lock file).any who then none else s.lock file) = some c ↔
      (pc c).holds = some file
    cases hc : who c with
    | true =>
        have hnone : (pc c).holds ≠ some file := by
          intro hholds
          have hopen := CallPC.file_of_holds hholds
          rw [hwho c hc] at hopen
          cases hopen
        refine ⟨fun heq => ?_, fun hholds => absurd hholds hnone⟩
        split at heq
        · cases heq
        · rename_i hany
          rw [heq] at hany
          exact absurd hc hany
    | false =>
        rw [hother c hc, ← hs.lock_iff file c]
        refine ⟨fun heq => ?_, fun hlock => ?_⟩
        · split at heq
          · cases heq
          · exact heq
        · rw [hlock, if_neg]
          · show ¬ who c = true
            rw [hc]
            nofun

/-- A file is created where there is none. -/
private theorem Files.create (hs : Files s) (path : String) : Files (s.create path) := by
  unfold State.create
  split
  · exact hs
  · have hlt (c : Nat) (file : Nat) (hopen : (s.pc c).file = some file) : file < s.fresh + 1 :=
      Nat.lt_succ_of_lt (hs.open_lt c file hopen)
    exact ⟨hs.entries.create path, hlt, hs.lock_iff⟩

/-- What is created has its entry. -/
theorem dir_create (s : State) (path p : String) :
    (s.create path).dir p = if p = path then some (s.fileOf path) else s.dir p := by
  unfold State.create State.fileOf
  cases hentry : s.dir path with
  | some file =>
      by_cases hp : p = path <;> simp [hp, hentry]
  | none =>
      by_cases hp : p = path <;> simp [hp, Function.update_of_ne]

theorem pc_create (s : State) (path : String) : (s.create path).pc = s.pc := by
  unfold State.create
  split <;> rfl

theorem lock_create (s : State) (path : String) : (s.create path).lock = s.lock := by
  unfold State.create
  split <;> rfl

/-- The file of a path, after it was created. -/
private theorem Files.fileOf_lt (hs : Files s) (path : String) :
    s.fileOf path < (s.create path).fresh := by
  refine (hs.create path).entries.lt path _ ?_
  rw [dir_create, if_pos rfl]

/-- The file of a path is locked by its holder. -/
private theorem Files.lock_fileOf (hs : Files s) (path : String) :
    s.lock (s.fileOf path) = s.holder path := by
  unfold State.holder State.fileOf
  cases hentry : s.dir path with
  | some file => rfl
  | none => exact hs.fresh_free

/-- A call locks a file that is free. -/
private theorem Files.take {c file : Nat} (hs : Files s) (hlt : file < s.fresh)
    (hfree : s.lock file = none) (hout : (s.pc c).holds = none) : Files (s.take c file) where
  entries := hs.entries
  open_lt := by
    intro d f hopen
    by_cases hd : d = c
    · subst hd
      obtain rfl : file = f := by simpa [State.take, CallPC.file] using hopen
      exact hlt
    · simp only [State.take, Function.update_of_ne hd] at hopen
      exact hs.open_lt d f hopen
  lock_iff := by
    intro f d
    show Function.update s.lock file (some c) f = some d ↔
      (Function.update s.pc c (.locked file) d).holds = some f
    by_cases hf : f = file
    · by_cases hd : d = c
      · rw [hf, hd, Function.update_self, Function.update_self]
        exact ⟨fun _ => rfl, fun _ => rfl⟩
      · rw [hf, Function.update_self, Function.update_of_ne hd, ← hs.lock_iff, hfree]
        exact ⟨fun heq => absurd (Option.some.inj heq).symm hd, nofun⟩
    · by_cases hd : d = c
      · rw [hd, Function.update_of_ne hf, Function.update_self, hs.lock_iff, hout]
        exact ⟨nofun, fun heq => absurd (Option.some.inj heq).symm hf⟩
      · rw [Function.update_of_ne hf, Function.update_of_ne hd]
        exact hs.lock_iff f d

/-! ## The places of the calls -/

/-- The place that the guard of a step names. -/
private theorem opened_of_flock {c : Nat} (hg : (machine os calls).guard s (.flock c) = true) :
    ∃ file, s.pc c = .opened file ∧ s.lock file = none := by
  simp only [machine, guard] at hg
  split at hg
  · rename_i file hat
    exact ⟨file, hat, Option.isNone_iff_eq_none.mp hg⟩
  · cases hg

private theorem opened_of_flockBusy {c : Nat}
    (hg : (machine os calls).guard s (.flockBusy c) = true) :
    ∃ file, s.pc c = .opened file ∧ (s.lock file).isSome = true := by
  simp only [machine, guard] at hg
  split at hg
  · rename_i file hat
    exact ⟨file, hat, hg⟩
  · cases hg

private theorem opened_of_flockFails {c : Nat} {text : String}
    (hg : (machine os calls).guard s (.flockFails c text) = true) :
    ∃ file, s.pc c = .opened file := by
  simp only [machine, guard] at hg
  split at hg
  · rename_i file hat
    exact ⟨file, hat⟩
  · cases hg

private theorem denied_of_closeDenied {c : Nat}
    (hg : (machine os calls).guard s (.closeDenied c) = true) :
    ∃ file failure, s.pc c = .denied file failure := by
  simp only [machine, guard] at hg
  split at hg
  · rename_i file failure hat
    exact ⟨file, failure, hat⟩
  · cases hg

private theorem locked_of_truncate {c : Nat} {done : Bool}
    (hg : (machine os calls).guard s (.truncate c done) = true) :
    ∃ file, s.pc c = .locked file := by
  simp only [machine, guard] at hg
  split at hg
  · rename_i file hat
    exact ⟨file, hat⟩
  · cases hg

private theorem cut_of_write {c : Nat} {done : Bool}
    (hg : (machine os calls).guard s (.write c done) = true) :
    ∃ file cutOk, s.pc c = .cut file cutOk := by
  simp only [machine, guard] at hg
  split at hg
  · rename_i file cutOk hat
    exact ⟨file, cutOk, hat⟩
  · cases hg

/-- Where a call may open its file. -/
private theorem idle_of_create {c : Nat} (hg : (machine os calls).guard s (.createFile c) = true) :
    os = .windows ∧ s.pc c = .idle ∧ s.holder (calls.path c) = none := by
  obtain ⟨hat, hfree⟩ := Bool.and_eq_true_iff.mp hg
  have hat := of_decide_eq_true hat
  exact ⟨hat.1, hat.2, Option.isNone_iff_eq_none.mp hfree⟩

/-- What a call that is at a place has open. -/
private theorem Files.lt_of_pc {c : Nat} {pc pc' : CallPC} (hs : Files s) (hat : s.pc c = pc)
    (hsame : pc'.file = pc.file) (file : Nat) (hfile : pc'.file = some file) : file < s.fresh := by
  refine hs.open_lt c file ?_
  rw [hat, ← hsame, hfile]

/-- A call that closes its descriptor goes on without a file. -/
private theorem Files.closeOne {c : Nat} {pc : CallPC} (hs : Files s) (hpc : pc.file = none) :
    Files ((s.close (· == c)).goto c pc) := by
  refine hs.close (fun d hd => ?_) (fun d hd => ?_)
  · have heq : d = c := eq_of_beq hd
    show (Function.update s.pc c pc d).file = none
    rw [heq, Function.update_self, hpc]
  · have hne : d ≠ c := ne_of_beq_false hd
    exact Function.update_of_ne hne _ _

theorem files_of_run (hr : RunIf os calls ok τ s) : Files s := by
  refine hr.invariant (fun _ s => Files s) ⟨⟨nofun, nofun⟩, nofun, fun _ _ => ⟨nofun, nofun⟩⟩ ?_
  intro τ s a _ ih _ hg
  cases a with
  | openFile c =>
      have hat := (of_decide_eq_true hg : os = .unix ∧ s.pc c = .idle).2
      have hlt := ih.fileOf_lt (calls.path c)
      refine (ih.create (calls.path c)).goto (fun file hfile => ?_) ?_
      · rw [← Option.some.inj hfile]
        exact hlt
      · rw [pc_create, hat]
        rfl
  | flock c =>
      obtain ⟨file, hat, hfree⟩ := opened_of_flock hg
      simp only [machine, effect, hat]
      exact ih.take (ih.open_lt c file (by rw [hat]; rfl)) hfree (by rw [hat]; rfl)
  | createFile c =>
      obtain ⟨-, hat, hfree⟩ := idle_of_create hg
      have hlock := ih.lock_fileOf (calls.path c)
      refine (ih.create _).take (ih.fileOf_lt _) ?_ ?_
      · rw [lock_create, hlock, hfree]
      · rw [pc_create, hat]
        rfl
  | openFails c text | createFails c text =>
      have hat := (of_decide_eq_true hg : _ ∧ s.pc c = .idle).2
      exact ih.goto nofun (by rw [hat]; rfl)
  | createBusy c =>
      have hat := (of_decide_eq_true (Bool.and_eq_true_iff.mp hg).1 : _ ∧ s.pc c = .idle).2
      exact ih.goto nofun (by rw [hat]; rfl)
  | flockBusy c =>
      obtain ⟨file, hat, -⟩ := opened_of_flockBusy hg
      simp only [machine, effect, hat]
      exact ih.goto (ih.lt_of_pc hat rfl) (by rw [hat]; rfl)
  | flockFails c text =>
      obtain ⟨file, hat⟩ := opened_of_flockFails hg
      simp only [machine, effect, hat]
      exact ih.goto (ih.lt_of_pc hat rfl) (by rw [hat]; rfl)
  | truncate c done =>
      obtain ⟨file, hat⟩ := locked_of_truncate hg
      simp only [machine, effect, hat]
      exact ih.goto (ih.lt_of_pc hat rfl) (by rw [hat]; rfl)
  | write c done =>
      obtain ⟨file, cutOk, hat⟩ := cut_of_write hg
      simp only [machine, effect, hat]
      exact ih.goto (ih.lt_of_pc hat rfl) (by rw [hat]; rfl)
  | closeDenied c =>
      obtain ⟨file, failure, hat⟩ := denied_of_closeDenied hg
      simp only [machine, effect, hat]
      exact ih.closeOne rfl
  | release c =>
      refine ih.closeOne ?_
      split <;> rfl
  | remove c =>
      have hat : s.pc c = .removing := of_decide_eq_true hg
      have hgo : Files (s.goto c .released) := ih.goto nofun (by rw [hat]; rfl)
      refine ⟨?_, hgo.open_lt, hgo.lock_iff⟩
      simp only [machine, effect, State.goto]
      split
      · exact ih.entries.remove _
      · exact ih.entries
  | crash pid =>
      refine ih.close (fun d hd => ?_) (fun d hd => ?_)
      · rw [if_pos (eq_of_beq hd)]
        rfl
      · exact if_neg (ne_of_beq_false hd)
  | unlink path => exact ⟨ih.entries.remove path, ih.open_lt, ih.lock_iff⟩

/-! ## Open files keep their name -/

/-- Places that the calls of an operating system do not come to. -/
def Os.admits : Os → CallPC → Bool
  | .unix, .removing => false
  | .windows, .opened _ | .windows, .denied _ _ => false
  | _, _ => true

theorem admits_of_run (hr : RunIf os calls ok τ s) : ∀ c, os.admits (s.pc c) = true := by
  refine hr.invariant (fun _ s => ∀ c, os.admits (s.pc c) = true)
    (fun _ => by cases os <;> rfl) ?_
  intro τ s a _ ih _ hg c
  have hgo (d : Nat) (pc : CallPC) (hpc : os.admits pc = true) :
      os.admits (Function.update s.pc d pc c) = true := by
    by_cases hd : c = d
    · rwa [hd, Function.update_self]
    · rw [Function.update_of_ne hd]
      exact ih c
  have hdenied (d file : Nat) (failure : Failure) (hat : s.pc d = .opened file) :
      os.admits (.denied file failure) = true := by
    have hopened := ih d
    rw [hat] at hopened
    cases os with
    | unix => rfl
    | windows => cases hopened
  cases a with
  | openFile d =>
      have hos := (of_decide_eq_true hg : os = .unix ∧ _).1
      show os.admits (Function.update (s.create (calls.path d)).pc d _ c) = true
      rw [pc_create]
      exact hgo d _ (by rw [hos]; rfl)
  | createFile d =>
      have hos := (idle_of_create hg).1
      show os.admits (Function.update (s.create (calls.path d)).pc d _ c) = true
      rw [pc_create]
      exact hgo d _ (by rw [hos]; rfl)
  | openFails d text | createFails d text | createBusy d => exact hgo d _ (by cases os <;> rfl)
  | flock d =>
      obtain ⟨file, hat, -⟩ := opened_of_flock hg
      simp only [machine, effect, hat]
      exact hgo d _ (by cases os <;> rfl)
  | flockBusy d =>
      obtain ⟨file, hat, -⟩ := opened_of_flockBusy hg
      simp only [machine, effect, hat]
      exact hgo d _ (hdenied d file _ hat)
  | flockFails d text =>
      obtain ⟨file, hat⟩ := opened_of_flockFails hg
      simp only [machine, effect, hat]
      exact hgo d _ (hdenied d file _ hat)
  | truncate d done =>
      obtain ⟨file, hat⟩ := locked_of_truncate hg
      simp only [machine, effect, hat]
      exact hgo d _ (by cases os <;> rfl)
  | write d done =>
      obtain ⟨file, cutOk, hat⟩ := cut_of_write hg
      simp only [machine, effect, hat]
      exact hgo d _ (by cases os <;> rfl)
  | closeDenied d =>
      obtain ⟨file, failure, hat⟩ := denied_of_closeDenied hg
      simp only [machine, effect, hat]
      exact hgo d _ (by cases os <;> rfl)
  | release d => exact hgo d _ (by cases os <;> rfl)
  | remove d => exact hgo d _ (by cases os <;> rfl)
  | crash pid =>
      show os.admits (if calls.pid c = pid then .dead else s.pc c) = true
      split
      · cases os <;> rfl
      · exact ih c
  | unlink path => exact ih c

/-- The files that calls have open still have their names. -/
def Named (calls : Calls) (dir : String → Option Nat) (pc : Nat → CallPC) : Prop :=
  ∀ c file, (pc c).file = some file → dir (calls.path c) = some file

/-- A call goes on with a file that has its name, or without one. -/
private theorem Named.go {dir : String → Option Nat} {pc : Nat → CallPC}
    (hs : Named calls dir pc) (c : Nat) {at' : CallPC}
    (hfile : ∀ file, at'.file = some file → dir (calls.path c) = some file) :
    Named calls dir (Function.update pc c at') := by
  intro d file hopen
  by_cases hd : d = c
  · rw [hd, Function.update_self] at hopen
    rw [hd]
    exact hfile file hopen
  · rw [Function.update_of_ne hd] at hopen
    exact hs d file hopen

/-- A call goes on with the file that it has open, or without one. -/
private theorem Named.keep {dir : String → Option Nat} {pc : Nat → CallPC}
    (hs : Named calls dir pc) {c : Nat} {at' : CallPC}
    (hfile : at'.file = (pc c).file ∨ at'.file = none) :
    Named calls dir (Function.update pc c at') := by
  refine hs.go c fun file hopen => ?_
  rcases hfile with hsame | hnone
  · exact hs c file (hsame ▸ hopen)
  · rw [hnone] at hopen
    cases hopen

/-- A name is removed that no call has open. -/
private theorem Named.remove {dir : String → Option Nat} {pc : Nat → CallPC} {path : String}
    (hs : Named calls dir pc) (hfree : ∀ c, calls.path c = path → (pc c).file = none) :
    Named calls (Function.update dir path none) pc := by
  intro c file hopen
  have hne : calls.path c ≠ path := by
    intro hpath
    rw [hfree c hpath] at hopen
    cases hopen
  rw [Function.update_of_ne hne]
  exact hs c file hopen

/-- A file is created where there is none, and is then the file of its path. -/
private theorem Named.create (hs : Named calls s.dir s.pc) (path : String) :
    Named calls (s.create path).dir s.pc := by
  intro c file hopen
  have hentry := hs c file hopen
  rw [dir_create]
  by_cases hpath : calls.path c = path
  · rw [if_pos hpath, ← hentry, hpath]
    rw [hpath] at hentry
    rw [State.fileOf, hentry, Option.getD_some]
  · rwa [if_neg hpath]

/-- On Windows what a call has open it has locked. -/
private theorem unopened_of_windows (hr : RunIf .windows calls ok τ s)
    (hs : Named calls s.dir s.pc) {path : String} (hfree : s.holder path = none) (c : Nat)
    (hpath : calls.path c = path) : (s.pc c).file = none := by
  cases hopen : (s.pc c).file with
  | none => rfl
  | some file =>
      have hadmits := admits_of_run hr c
      have hholds : (s.pc c).holds = some file := by
        cases hat : s.pc c with
        | opened f | denied f failure =>
            rw [hat] at hadmits
            cases hadmits
        | _ =>
            rw [hat] at hopen
            exact hopen
      have hlock := ((files_of_run hr).lock_iff file c).mpr hholds
      have hentry := hs c file hopen
      rw [hpath] at hentry
      rw [State.holder, hentry, Option.bind_some, hlock] at hfree
      cases hfree

theorem named_of_run (hr : RunIf os calls (Undisturbed os calls) τ s) :
    Named calls s.dir s.pc := by
  refine hr.invariant (fun _ s => Named calls s.dir s.pc) nofun ?_
  intro τ s a hr ih hok hg
  cases a with
  | openFile c =>
      have hcreate := ih.create (calls.path c)
      rw [← pc_create s (calls.path c)] at hcreate
      refine hcreate.go c fun file hfile => ?_
      rw [dir_create, if_pos rfl]
      exact hfile
  | createFile c =>
      have hcreate := ih.create (calls.path c)
      rw [← pc_create s (calls.path c)] at hcreate
      refine hcreate.go c fun file hfile => ?_
      rw [dir_create, if_pos rfl]
      exact hfile
  | openFails c text | createFails c text | createBusy c => exact ih.keep (Or.inr rfl)
  | flock c =>
      obtain ⟨file, hat, -⟩ := opened_of_flock hg
      simp only [machine, effect, hat]
      exact ih.keep (Or.inl (by rw [hat]; rfl))
  | flockBusy c =>
      obtain ⟨file, hat, -⟩ := opened_of_flockBusy hg
      simp only [machine, effect, hat]
      exact ih.keep (Or.inl (by rw [hat]; rfl))
  | flockFails c text =>
      obtain ⟨file, hat⟩ := opened_of_flockFails hg
      simp only [machine, effect, hat]
      exact ih.keep (Or.inl (by rw [hat]; rfl))
  | truncate c done =>
      obtain ⟨file, hat⟩ := locked_of_truncate hg
      simp only [machine, effect, hat]
      exact ih.keep (Or.inl (by rw [hat]; rfl))
  | write c done =>
      obtain ⟨file, cutOk, hat⟩ := cut_of_write hg
      simp only [machine, effect, hat]
      exact ih.keep (Or.inl (by rw [hat]; rfl))
  | closeDenied c =>
      obtain ⟨file, failure, hat⟩ := denied_of_closeDenied hg
      simp only [machine, effect, hat]
      exact ih.keep (Or.inr rfl)
  | release c => exact ih.keep (Or.inr (by split <;> rfl))
  | remove c =>
      have hat : s.pc c = .removing := of_decide_eq_true hg
      have hadmits := admits_of_run hr c
      rw [hat] at hadmits
      cases os with
      | unix => cases hadmits
      | windows =>
          have hreleased : Named calls s.dir (Function.update s.pc c .released) :=
            ih.keep (Or.inr rfl)
          simp only [machine, effect, State.goto]
          split
          · rename_i hfree
            rw [Option.isNone_iff_eq_none] at hfree
            exact (ih.remove fun d hd => unopened_of_windows hr ih hfree d hd).keep (Or.inr rfl)
          · exact hreleased
  | crash pid =>
      intro c file hopen
      refine ih c file ?_
      have hopen' : (if calls.pid c = pid then .dead else s.pc c).file = some file := hopen
      split at hopen'
      · cases hopen'
      · exact hopen'
  | unlink path =>
      refine ih.remove fun c hpath => ?_
      cases os with
      | unix => exact hok rfl path rfl c hpath
      | windows =>
          exact unopened_of_windows hr ih (Option.isNone_iff_eq_none.mp hg) c hpath

/-! ## The result -/

/-- What an action does to the locks, one for each path. -/
def Action.act (calls : Calls) : Action → Option (Mutex.Act String Nat)
  | .flock c | .createFile c => some (.take (calls.path c) c)
  | .flockBusy c | .createBusy c => some (.refuse (calls.path c) c)
  | .release c => some (.drop (· == c))
  | .crash pid => some (.drop fun c => calls.pid c == pid)
  | _ => none

/-- What holds of the calls on a machine. -/
structure Locks (calls : Calls) (τ : List Action) (s : State) : Prop where
  /-- the calls are a table of locks -/
  mutex : (mutex String Nat).Runs (fun _ => none) (τ.filterMap (Action.act calls)) s.holder
  /-- the holder of a lock is the call that has passed `open` and not yet released it -/
  holder_iff : ∀ path c, s.holder path = some c ↔
    calls.path c = path ∧ (s.pc c).holds.isSome = true
  /-- no two calls with one path have -/
  exclusive : ∀ c d, calls.path c = calls.path d → (s.pc c).holds.isSome = true →
    (s.pc d).holds.isSome = true → c = d

private theorem holder_iff_of_named (hfiles : Files s) (hnamed : Named calls s.dir s.pc)
    (path : String) (c : Nat) :
    s.holder path = some c ↔ calls.path c = path ∧ (s.pc c).holds.isSome = true := by
  constructor
  · intro hholder
    obtain ⟨file, hentry, hlock⟩ := Option.bind_eq_some_iff.mp hholder
    have hholds := (hfiles.lock_iff file c).mp hlock
    have hentry' := hnamed c file (CallPC.file_of_holds hholds)
    refine ⟨hfiles.entries.unique _ _ file hentry' hentry, ?_⟩
    rw [hholds]
    rfl
  · rintro ⟨rfl, hsome⟩
    obtain ⟨file, hholds⟩ := Option.isSome_iff_exists.mp hsome
    have hentry := hnamed c file (CallPC.file_of_holds hholds)
    rw [State.holder, hentry]
    exact (hfiles.lock_iff file c).mpr hholds

/-- Who holds which lock after a step. -/
private theorem Files.holder_create (hs : Files s) (path : String) :
    (s.create path).holder = s.holder := by
  funext p
  show ((s.create path).dir p).bind (s.create path).lock = s.holder p
  rw [dir_create, lock_create]
  by_cases hp : p = path
  · rw [if_pos hp, hp]
    exact hs.lock_fileOf path
  · rw [if_neg hp]
    rfl

private theorem Entries.holder_take (hdir : Entries s.dir s.fresh) {path : String} {file : Nat}
    (hentry : s.dir path = some file) (c : Nat) :
    (s.take c file).holder = Function.update s.holder path (some c) := by
  funext p
  show (s.dir p).bind (Function.update s.lock file (some c)) = _
  by_cases hp : p = path
  · rw [hp, hentry, Function.update_self]
    exact Function.update_self ..
  · rw [Function.update_of_ne hp]
    cases hdirp : s.dir p with
    | none =>
        rw [State.holder, hdirp]
        rfl
    | some file' =>
        have hne : file' ≠ file := fun heq => hp (hdir.unique p path file (heq ▸ hdirp) hentry)
        rw [State.holder, hdirp]
        exact Function.update_of_ne hne _ _

private theorem holder_close (s : State) (who : Nat → Bool) :
    (s.close who).holder = Mutex.next s.holder (.drop who) := by
  funext p
  show (s.dir p).bind (s.close who).lock = if (s.holder p).any who then none else s.holder p
  cases hentry : s.dir p with
  | none =>
      rw [State.holder, hentry]
      rfl
  | some file =>
      rw [State.holder, hentry]
      rfl

private theorem holder_remove {path : String} (hfree : s.holder path = none) :
    ({ s with dir := Function.update s.dir path none } : State).holder = s.holder := by
  funext p
  show (Function.update s.dir path none p).bind s.lock = s.holder p
  by_cases hp : p = path
  · rw [hp, Function.update_self, hfree]
    rfl
  · rw [Function.update_of_ne hp]
    rfl

/-- A descriptor without a lock is closed. -/
private theorem Files.holder_closeOne (hs : Files s) {c : Nat} (hout : (s.pc c).holds = none) :
    (s.close (· == c)).holder = s.holder := by
  rw [holder_close]
  refine Mutex.next_drop_of_idle fun p d hholder => beq_eq_false_iff_ne.mpr ?_
  rintro rfl
  obtain ⟨file, -, hlock⟩ := Option.bind_eq_some_iff.mp hholder
  rw [hs.lock_iff, hout] at hlock
  cases hlock

/-- What a step shows of the locks, it does to them. -/
private theorem takes_of_step (hr : RunIf os calls (Undisturbed os calls) τ s) {a : Action}
    (hok : Undisturbed os calls s a) (hg : (machine os calls).guard s a = true) :
    Lts.Takes (mutex String Nat) s.holder (a.act calls)
      ((machine os calls).effect s a).holder := by
  have hfiles := files_of_run hr
  have hnamed := named_of_run hr
  cases a with
  | openFile c => exact .of_eq (hfiles.holder_create (calls.path c)).symm
  | openFails c text | createFails c text => exact .stays
  | flock c =>
      obtain ⟨file, hat, hfree⟩ := opened_of_flock hg
      have hentry := hnamed c file (by rw [hat]; rfl)
      have hnone : s.holder (calls.path c) = none := by
        rw [State.holder, hentry]
        exact hfree
      simp only [machine, effect, hat]
      exact .of_effect (Option.isNone_iff_eq_none.mpr hnone)
        (hfiles.entries.holder_take hentry c).symm
  | createFile c =>
      obtain ⟨-, -, hfree⟩ := idle_of_create hg
      have hentry := dir_create s (calls.path c) (calls.path c)
      rw [if_pos rfl] at hentry
      have htake := (hfiles.create (calls.path c)).entries.holder_take hentry c
      rw [hfiles.holder_create] at htake
      exact .of_effect (Option.isNone_iff_eq_none.mpr hfree) htake.symm
  | flockBusy c =>
      obtain ⟨file, hat, hbusy⟩ := opened_of_flockBusy hg
      have hentry := hnamed c file (by rw [hat]; rfl)
      simp only [machine, effect, hat]
      refine .of_effect ?_ rfl
      show (s.holder (calls.path c)).isSome = true
      rw [State.holder, hentry]
      exact hbusy
  | createBusy c => exact .of_effect (Bool.and_eq_true_iff.mp hg).2 rfl
  | flockFails c text =>
      obtain ⟨file, hat⟩ := opened_of_flockFails hg
      simp only [machine, effect, hat]
      exact .stays
  | truncate c done =>
      obtain ⟨file, hat⟩ := locked_of_truncate hg
      simp only [machine, effect, hat]
      exact .stays
  | write c done =>
      obtain ⟨file, cutOk, hat⟩ := cut_of_write hg
      simp only [machine, effect, hat]
      exact .stays
  | closeDenied c =>
      obtain ⟨file, failure, hat⟩ := denied_of_closeDenied hg
      simp only [machine, effect, hat]
      exact .of_eq (hfiles.holder_closeOne (by rw [hat]; rfl)).symm
  | release c => exact .of_effect rfl (holder_close s _).symm
  | remove c =>
      simp only [machine, effect]
      split
      · rename_i hfree
        exact .of_eq (holder_remove (Option.isNone_iff_eq_none.mp hfree)).symm
      · exact .stays
  | crash pid => exact .of_effect rfl (holder_close s _).symm
  | unlink path =>
      refine .of_eq (holder_remove ?_).symm
      cases os with
      | windows => exact Option.isNone_iff_eq_none.mp hg
      | unix =>
          cases hholder : s.holder path with
          | none => rfl
          | some c =>
              obtain ⟨hpath, hholds⟩ := (holder_iff_of_named hfiles hnamed path c).mp hholder
              obtain ⟨file, hholds⟩ := Option.isSome_iff_exists.mp hholds
              have hopen := hok rfl path rfl c hpath
              rw [CallPC.file_of_holds hholds] at hopen
              cases hopen

theorem locks_of_run (hr : RunIf os calls (Undisturbed os calls) τ s) : Locks calls τ s := by
  have hiff := holder_iff_of_named (files_of_run hr) (named_of_run hr)
  refine ⟨?_, hiff, fun c d hpath hc hd => ?_⟩
  · exact hr.refines (N := mutex String Nat) State.holder (Action.act calls)
      fun _ _ _ hr' hok hg => takes_of_step hr' hok hg
  · have hholder := (hiff _ c).mpr ⟨rfl, hc⟩
    have hholder' := (hiff _ d).mpr ⟨rfl, hd⟩
    rw [hpath, hholder'] at hholder
    exact (Option.some.inj hholder).symm

/-- Processes that each lock the same file once. -/
def agents : Calls where
  pid := fun c => 100 + c
  path := fun _ => "agent.lock"

/-- One agent is refused, and the next one gets the lock when the first has released it;
its process dies. -/
def handover : List Action :=
  [.openFile 0, .flock 0, .truncate 0 true, .openFile 1, .flockBusy 1, .write 0 true,
    .closeDenied 1, .release 0, .openFile 2, .flock 2, .crash 102]

theorem locks_handover :
    Locks agents handover ((machine .unix agents).after State.init handover) := by
  have hrun : Run .unix agents handover _ := Lts.Admits.run (by decide)
  exact locks_of_run (hrun.imp fun s a ha _ _ path heq => by simp [heq, handover] at ha)

/-- On Unix two calls hold the lock of one path, if the file of the first was removed:
why `release` leaves the file. -/
theorem race_after_removal :
    ∃ τ s, Run .unix agents τ s ∧ s.pc 0 = .held 0 true ∧ s.pc 1 = .held 1 true :=
  ⟨[.openFile 0, .flock 0, .truncate 0 true, .write 0 true, .unlink "agent.lock",
    .openFile 1, .flock 1, .truncate 1 true, .write 1 true], _,
    Lts.Admits.run (by decide), by decide, by decide⟩

/-! ## A call of Acquire -/

/-- The call whose `Acquire` takes the step. -/
def Action.acquirer : Action → Option Nat
  | .openFile c | .openFails c _ | .flock c | .flockBusy c | .flockFails c _ | .closeDenied c
  | .createFile c | .createBusy c | .createFails c _ | .truncate c _ | .write c _ => some c
  | .release _ | .remove _ | .crash _ | .unlink _ => none

/-- The steps of `Acquire` that are left at a place. -/
def CallPC.left : CallPC → Nat
  | .idle => 4
  | .opened _ => 3
  | .locked _ => 2
  | .denied _ _ | .cut _ _ => 1
  | .held _ _ | .removing | .released | .failed _ | .dead => 0

/-- The operating system fails for another reason than a lock that is held. -/
def Action.fails : Action → Bool
  | .openFails _ _ | .flockFails _ _ | .createFails _ _ => true
  | _ => false

/-- What holds of a call of `Acquire`, whatever the others do. -/
structure Acquires (os : Os) (calls : Calls) (τ : List Action) (s : State) (c : Nat) :
    Prop where
  /-- it takes at most four steps -/
  steps : τ.countP (fun a => a.acquirer == some c) + (s.pc c).left ≤ 4
  /-- and is never blocked -/
  enabled : (s.pc c).left ≠ 0 →
    ∃ a, a.acquirer = some c ∧ a.fails = false ∧ (machine os calls).guard s a = true
  /-- the file that it has locked, truncated and written has its process id -/
  text : ∀ file, s.pc c = .held file true → s.text file = calls.line c

variable {c : Nat}

private theorem left_step {a : Action} (hg : (machine os calls).guard s a = true) :
    (((machine os calls).effect s a).pc c).left + (if a.acquirer == some c then 1 else 0) ≤
      (s.pc c).left := by
  have hgo (d : Nat) (pc : CallPC) (pcs : Nat → CallPC) (hpcs : pcs = s.pc)
      (hle : pc.left + 1 ≤ (s.pc d).left) :
      (Function.update pcs d pc c).left + (if some d == some c then 1 else 0) ≤
        (s.pc c).left := by
    rw [hpcs]
    by_cases hd : d = c
    · rw [hd] at hle ⊢
      rw [Function.update_self, if_pos (beq_self_eq_true _)]
      exact hle
    · rw [Function.update_of_ne (Ne.symm hd), if_neg (by simpa using hd)]
      exact le_rfl
  have hend (d : Nat) (pc : CallPC) (hzero : pc.left = 0) :
      (Function.update s.pc d pc c).left + 0 ≤ (s.pc c).left := by
    by_cases hd : c = d
    · rw [hd, Function.update_self, hzero]
      exact Nat.zero_le _
    · rw [Function.update_of_ne hd]
      exact le_rfl
  cases a with
  | openFile d =>
      have hat := (of_decide_eq_true hg : os = .unix ∧ s.pc d = .idle).2
      exact hgo d _ _ (pc_create s _) (by rw [hat]; simp [CallPC.left])
  | createFile d =>
      obtain ⟨-, hat, -⟩ := idle_of_create hg
      exact hgo d _ _ (pc_create s _) (by rw [hat]; simp [CallPC.left])
  | openFails d text | createFails d text =>
      have hat := (of_decide_eq_true hg : _ ∧ s.pc d = .idle).2
      exact hgo d _ _ rfl (by rw [hat]; simp [CallPC.left])
  | createBusy d =>
      have hat := (of_decide_eq_true (Bool.and_eq_true_iff.mp hg).1 : _ ∧ s.pc d = .idle).2
      exact hgo d _ _ rfl (by rw [hat]; simp [CallPC.left])
  | flock d =>
      obtain ⟨file, hat, -⟩ := opened_of_flock hg
      simp only [machine, effect, hat]
      exact hgo d _ _ rfl (by rw [hat]; simp [CallPC.left])
  | flockBusy d =>
      obtain ⟨file, hat, -⟩ := opened_of_flockBusy hg
      simp only [machine, effect, hat]
      exact hgo d _ _ rfl (by rw [hat]; simp [CallPC.left])
  | flockFails d text =>
      obtain ⟨file, hat⟩ := opened_of_flockFails hg
      simp only [machine, effect, hat]
      exact hgo d _ _ rfl (by rw [hat]; simp [CallPC.left])
  | closeDenied d =>
      obtain ⟨file, failure, hat⟩ := denied_of_closeDenied hg
      simp only [machine, effect, hat]
      exact hgo d _ _ rfl (by rw [hat]; simp [CallPC.left])
  | truncate d done =>
      obtain ⟨file, hat⟩ := locked_of_truncate hg
      simp only [machine, effect, hat]
      exact hgo d _ _ rfl (by rw [hat]; simp [CallPC.left])
  | write d done =>
      obtain ⟨file, cutOk, hat⟩ := cut_of_write hg
      simp only [machine, effect, hat]
      exact hgo d _ _ rfl (by rw [hat]; simp [CallPC.left])
  | release d => exact hend d _ (by split <;> rfl)
  | remove d => exact hend d _ rfl
  | crash pid =>
      show (if calls.pid c = pid then CallPC.dead else s.pc c).left + 0 ≤ (s.pc c).left
      split
      · exact Nat.zero_le _
      · exact le_rfl
  | unlink path => exact le_rfl

/-- A call whose `Acquire` has not returned can take its next step. -/
private theorem enabled_of_left (hadmits : os.admits (s.pc c) = true)
    (hleft : (s.pc c).left ≠ 0) :
    ∃ a, a.acquirer = some c ∧ a.fails = false ∧ (machine os calls).guard s a = true := by
  cases hat : s.pc c with
  | idle =>
      cases os with
      | unix => exact ⟨.openFile c, rfl, rfl, decide_eq_true ⟨rfl, hat⟩⟩
      | windows =>
          cases hholder : s.holder (calls.path c) with
          | none => exact ⟨.createFile c, rfl, rfl, by simp [machine, guard, hat, hholder]⟩
          | some d => exact ⟨.createBusy c, rfl, rfl, by simp [machine, guard, hat, hholder]⟩
  | opened file =>
      cases hlock : s.lock file with
      | none => exact ⟨.flock c, rfl, rfl, by simp [machine, guard, hat, hlock]⟩
      | some d => exact ⟨.flockBusy c, rfl, rfl, by simp [machine, guard, hat, hlock]⟩
  | denied file failure => exact ⟨.closeDenied c, rfl, rfl, by simp [machine, guard, hat]⟩
  | locked file => exact ⟨.truncate c true, rfl, rfl, by simp [machine, guard, hat]⟩
  | cut file done => exact ⟨.write c true, rfl, rfl, by simp [machine, guard, hat]⟩
  | held file done | removing | released | failed text | dead =>
      rw [hat] at hleft
      exact absurd rfl hleft

/-- The file that a call has locked and its text, after it was truncated and after the
line was written to it. -/
def CallPC.written (line : String) : CallPC → Option (Nat × String)
  | .cut file true => some (file, "")
  | .held file true => some (file, line)
  | _ => none

/-- A call knows the text of the file that it has truncated. -/
def Written (calls : Calls) (text : Nat → String) (pc : Nat → CallPC) : Prop :=
  ∀ c file new, (pc c).written (calls.line c) = some (file, new) → text file = new

theorem CallPC.holds_of_written {pc : CallPC} {line new : String} {file : Nat}
    (hwritten : pc.written line = some (file, new)) : pc.holds = some file := by
  cases pc with
  | cut f ok | held f ok =>
      cases ok with
      | false => cases hwritten
      | true =>
          obtain ⟨rfl, -⟩ := Prod.mk.inj (Option.some.inj hwritten)
          rfl
  | _ => cases hwritten

theorem overwrite_empty (new : String) : overwrite new "" = new := by
  simp [overwrite]

/-- A call goes on to a place where it knows no text, or knows this one. -/
private theorem Written.go {text : Nat → String} {pc : Nat → CallPC}
    (hs : Written calls text pc) (c : Nat) {at' : CallPC}
    (hknown : ∀ file new, at'.written (calls.line c) = some (file, new) → text file = new) :
    Written calls text (Function.update pc c at') := by
  intro d file new hwritten
  by_cases hd : d = c
  · rw [hd, Function.update_self] at hwritten
    exact hknown file new hwritten
  · rw [Function.update_of_ne hd] at hwritten
    exact hs d file new hwritten

/-- A call that has locked a file changes its text. -/
private theorem Written.change {c file : Nat} (hfiles : Files s)
    (hs : Written calls s.text s.pc) (hholds : (s.pc c).holds = some file) (new : String)
    {at' : CallPC}
    (hknown : ∀ f t, at'.written (calls.line c) = some (f, t) → f = file ∧ t = new) :
    Written calls (Function.update s.text file new) (Function.update s.pc c at') := by
  intro d f t hwritten
  by_cases hd : d = c
  · rw [hd, Function.update_self] at hwritten
    obtain ⟨rfl, rfl⟩ := hknown f t hwritten
    exact Function.update_self ..
  · rw [Function.update_of_ne hd] at hwritten
    have hne : f ≠ file := by
      intro hf
      have hlock := (hfiles.lock_iff f d).mpr (CallPC.holds_of_written hwritten)
      have hlock' := (hfiles.lock_iff file c).mpr hholds
      rw [hf, hlock'] at hlock
      exact hd (Option.some.inj hlock).symm
    rw [Function.update_of_ne hne]
    exact hs d f t hwritten

private theorem written_of_run (hr : RunIf os calls ok τ s) : Written calls s.text s.pc := by
  refine hr.invariant (fun _ s => Written calls s.text s.pc) nofun ?_
  intro τ s a hr ih _ hg
  have hcreate (path : String) : Written calls (s.create path).text (s.create path).pc := by
    unfold State.create
    split <;> exact ih
  cases a with
  | openFile c => exact (hcreate _).go c nofun
  | createFile c => exact (hcreate _).go c nofun
  | openFails c text | createFails c text | createBusy c | remove c => exact ih.go c nofun
  | flock c =>
      obtain ⟨file, hat, -⟩ := opened_of_flock hg
      simp only [machine, effect, hat]
      exact ih.go c nofun
  | flockBusy c =>
      obtain ⟨file, hat, -⟩ := opened_of_flockBusy hg
      simp only [machine, effect, hat]
      exact ih.go c nofun
  | flockFails c text =>
      obtain ⟨file, hat⟩ := opened_of_flockFails hg
      simp only [machine, effect, hat]
      exact ih.go c nofun
  | closeDenied c =>
      obtain ⟨file, failure, hat⟩ := denied_of_closeDenied hg
      simp only [machine, effect, hat]
      exact ih.go c nofun
  | truncate c done =>
      obtain ⟨file, hat⟩ := locked_of_truncate hg
      simp only [machine, effect, hat]
      cases done with
      | false => exact ih.go c nofun
      | true =>
          refine ih.change (files_of_run hr) (by rw [hat]; rfl) "" fun f t hknown => ?_
          obtain ⟨rfl, rfl⟩ := Prod.mk.inj (Option.some.inj hknown)
          exact ⟨rfl, rfl⟩
  | write c done =>
      obtain ⟨file, cutOk, hat⟩ := cut_of_write hg
      simp only [machine, effect, hat]
      cases done with
      | false =>
          rw [Bool.and_false]
          exact ih.go c nofun
      | true =>
          refine ih.change (files_of_run hr) (by rw [hat]; rfl) _ fun f t hknown => ?_
          cases cutOk with
          | false => cases hknown
          | true =>
              have hempty : s.text file = "" := ih c file "" (by rw [hat]; rfl)
              obtain ⟨rfl, rfl⟩ := Prod.mk.inj (Option.some.inj hknown)
              rw [hempty, overwrite_empty]
              exact ⟨rfl, rfl⟩
  | release c => exact ih.go c (by split <;> nofun)
  | crash pid =>
      intro c file new hwritten
      have hwritten' : (if calls.pid c = pid then CallPC.dead else s.pc c).written
          (calls.line c) = some (file, new) := hwritten
      split at hwritten'
      · cases hwritten'
      · exact ih c file new hwritten'
  | unlink path => exact ih

theorem acquires_of_run (hr : Run os calls τ s) (c : Nat) : Acquires os calls τ s c where
  steps := hr.count_add_rank_le (fun a => a.acquirer == some c) (fun s => (s.pc c).left)
    fun _ _ _ _ _ hg => left_step hg
  enabled := enabled_of_left (admits_of_run hr c)
  text file hheld := written_of_run hr c file _ (by rw [hheld]; rfl)

theorem acquires_handover :
    Acquires .unix agents handover ((machine .unix agents).after State.init handover) 1 :=
  acquires_of_run (Lts.Admits.run (by decide)) 1

end Shost.Ports.Single
