import Shost.Ports.GoSeconds
import Shost.Verified.KeyValue

/-!
# The generated systemd unit

`Unit` writes a configuration as a unit file.  The texts stand in it as they are; the two
durations are written as whole seconds, which cuts their fractions off.

## Main results

* `keeps_iff` — for which configurations the file says what was configured.
-/

namespace Shost.Ports.Systemd

open Verified Bytes KeyValue GoTime

structure UnitConfig where
  description : Bytes
  execStart : Bytes
  user : Bytes
  workingDirectory : Bytes
  environment : List Bytes
  watchdogSec : Int
  timeoutStopSec : Int

/-- What `Fprintf` writes for the format `key=%s` and a line break. -/
def setting (key : String) (value : Bytes) : Bytes := utf8 key ++ utf8 "=" ++ value ++ utf8 "\n"

/-- `Unit`. -/
def unit (cfg : UnitConfig) : Bytes :=
  utf8 "[Unit]\n" ++
  (if cfg.description ≠ [] then setting "Description" cfg.description else []) ++
  utf8 "After=network.target\n\n" ++
  utf8 "[Service]\n" ++
  utf8 "Type=notify\n" ++
  setting "ExecStart" cfg.execStart ++
  (if cfg.user ≠ [] then setting "User" cfg.user else []) ++
  (if cfg.workingDirectory ≠ [] then setting "WorkingDirectory" cfg.workingDirectory else []) ++
  cfg.environment.flatMap (setting "Environment") ++
  (if cfg.watchdogSec > 0 then
    setting "WatchdogSec" (signed (int (seconds cfg.watchdogSec)))
  else []) ++
  (if cfg.timeoutStopSec > 0 then
    setting "TimeoutStopSec" (signed (int (seconds cfg.timeoutStopSec)))
  else []) ++
  utf8 "Restart=on-failure\n\n" ++
  utf8 "[Install]\nWantedBy=multi-user.target\n"

/-! ## Reading the file back -/

/-- The texts have no line break, and the durations fit their type. -/
structure UnitConfig.Valid (cfg : UnitConfig) : Prop where
  description : newline ∉ cfg.description
  execStart : newline ∉ cfg.execStart
  user : newline ∉ cfg.user
  workingDirectory : newline ∉ cfg.workingDirectory
  environment : ∀ env ∈ cfg.environment, newline ∉ env
  watchdogSec : cfg.watchdogSec < 2 ^ 63
  timeoutStopSec : cfg.timeoutStopSec < 2 ^ 63

/-- The numbers of seconds a key is set to. -/
def numbers (file : Bytes) (key : String) : List Int := (values file (utf8 key)).map ofSigned

/-- An optional text that was left out. -/
def optional (value : Bytes) : List Bytes := if value = [] then [] else [value]

/-- The file says what was configured. -/
structure Keeps (cfg : UnitConfig) (file : Bytes) : Prop where
  description : values file (utf8 "Description") = optional cfg.description
  execStart : values file (utf8 "ExecStart") = [cfg.execStart]
  user : values file (utf8 "User") = optional cfg.user
  workingDirectory : values file (utf8 "WorkingDirectory") = optional cfg.workingDirectory
  environment : values file (utf8 "Environment") = cfg.environment
  watchdogSec : 0 < cfg.watchdogSec → ∃ n, numbers file "WatchdogSec" = [n] ∧ 0 < n
  timeoutStopSec : 0 < cfg.timeoutStopSec →
    ∃ n, numbers file "TimeoutStopSec" = [n] ∧ 0 < n ∧ cfg.timeoutStopSec ≤ n * second

/-- A duration as it is written. -/
def written (d : Int) : List Bytes := if d > 0 then [signed (int (seconds d))] else []

/-- The lines of the file. -/
def unitLines (cfg : UnitConfig) : List Bytes :=
  [utf8 "[Unit]"] ++
  (optional cfg.description).map (line (utf8 "Description")) ++
  [utf8 "network.target"].map (line (utf8 "After")) ++
  [[], utf8 "[Service]"] ++
  [utf8 "notify"].map (line (utf8 "Type")) ++
  [cfg.execStart].map (line (utf8 "ExecStart")) ++
  (optional cfg.user).map (line (utf8 "User")) ++
  (optional cfg.workingDirectory).map (line (utf8 "WorkingDirectory")) ++
  cfg.environment.map (line (utf8 "Environment")) ++
  (written cfg.watchdogSec).map (line (utf8 "WatchdogSec")) ++
  (written cfg.timeoutStopSec).map (line (utf8 "TimeoutStopSec")) ++
  [utf8 "on-failure"].map (line (utf8 "Restart")) ++
  [[], utf8 "[Install]"] ++
  [utf8 "multi-user.target"].map (line (utf8 "WantedBy"))

variable {cfg : UnitConfig}

theorem text_map_line (key : String) (vals : List Bytes) :
    text (vals.map (line (utf8 key))) = vals.flatMap (setting key) := by
  induction vals with
  | nil => rfl
  | cons value vals ih =>
      have hline : text [line (utf8 key) value] = setting key value := by
        simp [setting, text, line, show utf8 "=" = [equals] from rfl,
          show utf8 "\n" = [newline] from rfl]
      rw [List.map_cons, List.flatMap_cons, ← List.singleton_append, text_append, ih, hline]

theorem flatMap_optional (key : String) (value : Bytes) :
    (optional value).flatMap (setting key) = if value ≠ [] then setting key value else [] := by
  by_cases hvalue : value = []
  · simp [optional, hvalue]
  · simp [optional, hvalue]

theorem flatMap_written (key : String) (d : Int) :
    (written d).flatMap (setting key) =
      if d > 0 then setting key (signed (int (seconds d))) else [] := by
  rw [written]
  split
  · simp
  · rfl

/-- What is written is lines. -/
theorem unit_eq_text (cfg : UnitConfig) : unit cfg = text (unitLines cfg) := by
  have hblank (l : Bytes) : text [[], l] = text [[]] ++ text [l] := text_append [[]] [l]
  have hunit : utf8 "[Unit]\n" = text [utf8 "[Unit]"] := rfl
  have hafter : utf8 "After=network.target\n\n" =
      setting "After" (utf8 "network.target") ++ text [[]] := rfl
  have hservice : utf8 "[Service]\n" = text [utf8 "[Service]"] := rfl
  have htype : utf8 "Type=notify\n" = setting "Type" (utf8 "notify") := rfl
  have hrestart : utf8 "Restart=on-failure\n\n" =
      setting "Restart" (utf8 "on-failure") ++ text [[]] := rfl
  have hinstall : utf8 "[Install]\nWantedBy=multi-user.target\n" =
      text [utf8 "[Install]"] ++ setting "WantedBy" (utf8 "multi-user.target") := rfl
  rw [unit, hunit, hafter, hservice, htype, hrestart, hinstall]
  simp only [unitLines, text_append, text_map_line, flatMap_optional, flatMap_written, hblank,
    List.flatMap_singleton, List.append_assoc]

theorem newline_not_mem_line {key value : Bytes} (hkey : newline ∉ key) (hvalue : newline ∉ value) :
    newline ∉ line key value := by
  rw [line, List.mem_append, List.mem_cons, not_or, not_or]
  exact ⟨hkey, by decide, hvalue⟩

theorem newline_not_mem_signed (n : Int) : newline ∉ signed n := by
  intro hmem
  have hle := le_toNat_of_mem_signed hmem
  exact absurd hle (by decide)

private theorem newline_not_mem_map {key : Bytes} {vals : List Bytes} (hkey : newline ∉ key)
    (hvals : ∀ value ∈ vals, newline ∉ value) : ∀ l ∈ vals.map (line key), newline ∉ l := by
  intro l hl
  obtain ⟨value, hvalue, rfl⟩ := List.mem_map.mp hl
  exact newline_not_mem_line hkey (hvals value hvalue)

theorem newline_not_mem_optional {value : Bytes} (hvalue : newline ∉ value) :
    ∀ v ∈ optional value, newline ∉ v := by
  intro v hv
  rw [optional] at hv
  split at hv
  · cases hv
  · rw [List.mem_singleton.mp hv]
    exact hvalue

theorem newline_not_mem_written (d : Int) : ∀ v ∈ written d, newline ∉ v := by
  intro v hv
  rw [written] at hv
  split at hv
  · rw [List.mem_singleton.mp hv]
    exact newline_not_mem_signed _
  · cases hv

/-- The lines have no line break in them. -/
theorem newline_not_mem_unitLines (hcfg : cfg.Valid) : ∀ l ∈ unitLines cfg, newline ∉ l := by
  simp only [unitLines, List.forall_mem_append]
  refine ⟨⟨⟨⟨⟨⟨⟨⟨⟨⟨⟨⟨⟨by decide, ?_⟩, by decide⟩, by decide⟩, by decide⟩, ?_⟩, ?_⟩, ?_⟩, ?_⟩, ?_⟩, ?_⟩,
    by decide⟩, by decide⟩, by decide⟩
  · exact newline_not_mem_map (by decide) (newline_not_mem_optional hcfg.description)
  · exact newline_not_mem_map (by decide) (by simpa using hcfg.execStart)
  · exact newline_not_mem_map (by decide) (newline_not_mem_optional hcfg.user)
  · exact newline_not_mem_map (by decide) (newline_not_mem_optional hcfg.workingDirectory)
  · exact newline_not_mem_map (by decide) hcfg.environment
  · exact newline_not_mem_map (by decide) (newline_not_mem_written _)
  · exact newline_not_mem_map (by decide) (newline_not_mem_written _)

/-- What the file sets, key by key. -/
def settings (cfg : UnitConfig) : List (Bytes × List Bytes) :=
  [(utf8 "Description", optional cfg.description), (utf8 "After", [utf8 "network.target"]),
    (utf8 "Type", [utf8 "notify"]), (utf8 "ExecStart", [cfg.execStart]),
    (utf8 "User", optional cfg.user), (utf8 "WorkingDirectory", optional cfg.workingDirectory),
    (utf8 "Environment", cfg.environment), (utf8 "WatchdogSec", written cfg.watchdogSec),
    (utf8 "TimeoutStopSec", written cfg.timeoutStopSec), (utf8 "Restart", [utf8 "on-failure"]),
    (utf8 "WantedBy", [utf8 "multi-user.target"])]

theorem settings_nodup (cfg : UnitConfig) : ((settings cfg).map Prod.fst).Nodup := by
  simp only [settings, List.map_cons, List.map_nil]
  decide

theorem values_unit (hcfg : cfg.Valid) {key : Bytes} (hkey : equals ∉ key) {vals : List Bytes}
    (hmem : (key, vals) ∈ settings cfg) : values (unit cfg) key = vals := by
  rw [unit_eq_text, values_text (newline_not_mem_unitLines hcfg),
    ← flatMap_of_nodup (settings_nodup cfg) hmem]
  simp (disch := decide) only [unitLines, settings, List.filterMap_append, filterMap_of_not_mem,
    filterMap_valueOf_line hkey, List.flatMap_cons, List.flatMap_nil, List.nil_append,
    List.append_nil, List.append_assoc]

theorem numbers_unit (hcfg : cfg.Valid) {key : String} (hkey : equals ∉ utf8 key) {d : Int}
    (hd : 0 < d) (hmem : (utf8 key, written d) ∈ settings cfg) :
    numbers (unit cfg) key = [int (seconds d)] := by
  rw [numbers, values_unit hcfg hkey hmem, written, if_pos hd, List.map_singleton, ofSigned_signed]

theorem numbers_watchdogSec (hcfg : cfg.Valid) (hpos : 0 < cfg.watchdogSec) :
    numbers (unit cfg) "WatchdogSec" = [int (seconds cfg.watchdogSec)] :=
  numbers_unit hcfg (by decide) hpos (by simp [settings])

theorem numbers_timeoutStopSec (hcfg : cfg.Valid) (hpos : 0 < cfg.timeoutStopSec) :
    numbers (unit cfg) "TimeoutStopSec" = [int (seconds cfg.timeoutStopSec)] :=
  numbers_unit hcfg (by decide) hpos (by simp [settings])

/-! ## Which durations are kept -/

/-- Less than a second is written as zero. -/
theorem int_seconds_pos_iff {d : Int} (hpos : 0 < d) (hlt : d < 2 ^ 63) :
    0 < int (seconds d) ↔ second ≤ d := by
  rw [int_seconds hpos hlt]
  rcases lt_or_ge d second with hshort | hlong
  · have hno : ¬RoundsUp d := fun hup => absurd hup.1 (not_le.mpr hshort)
    rw [if_neg hno, Int.ediv_eq_zero_of_lt hpos.le hshort]
    simpa using hshort
  · have hsec : 0 < d / second := by
      rw [second] at hlong ⊢
      omega
    refine iff_of_true ?_ hlong
    split <;> omega

/-- A fraction is lost unless the sum is rounded up. -/
theorem le_int_seconds_iff {d : Int} (hpos : 0 < d) (hlt : d < 2 ^ 63) :
    0 < int (seconds d) ∧ d ≤ int (seconds d) * second ↔ d % second = 0 ∨ RoundsUp d := by
  rw [int_seconds_pos_iff hpos hlt, int_seconds hpos hlt]
  constructor
  · rintro ⟨-, hle⟩
    by_contra hno
    rw [not_or] at hno
    rw [if_neg hno.2, second] at hle
    have hfraction := hno.1
    rw [second] at hfraction
    omega
  · rintro (hwhole | hup)
    · rw [second] at hwhole ⊢
      refine ⟨by omega, ?_⟩
      split <;> omega
    · rw [if_pos hup]
      have hlong := hup.1
      rw [second] at hlong ⊢
      omega

/--
**The generated unit**: the texts are read back from the file as they were, a watchdog of
less than a second is switched off, and a stop timeout is shortened unless it is a number
of whole seconds or too long for its fraction to matter.
-/
theorem keeps_iff (hcfg : cfg.Valid) :
    Keeps cfg (unit cfg) ↔
      (0 < cfg.watchdogSec → second ≤ cfg.watchdogSec) ∧
        (0 < cfg.timeoutStopSec →
          cfg.timeoutStopSec % second = 0 ∨ RoundsUp cfg.timeoutStopSec) := by
  constructor
  · intro hkeeps
    refine ⟨fun hpos => ?_, fun hpos => ?_⟩
    · obtain ⟨n, hn, hnpos⟩ := hkeeps.watchdogSec hpos
      rw [numbers_watchdogSec hcfg hpos] at hn
      obtain rfl := List.singleton_injective hn
      exact (int_seconds_pos_iff hpos hcfg.watchdogSec).mp hnpos
    · obtain ⟨n, hn, hnpos⟩ := hkeeps.timeoutStopSec hpos
      rw [numbers_timeoutStopSec hcfg hpos] at hn
      obtain rfl := List.singleton_injective hn
      exact (le_int_seconds_iff hpos hcfg.timeoutStopSec).mp hnpos
  · rintro ⟨hlong, hwhole⟩
    refine
      { description := values_unit hcfg (by decide) (by simp [settings])
        execStart := values_unit hcfg (by decide) (by simp [settings])
        user := values_unit hcfg (by decide) (by simp [settings])
        workingDirectory := values_unit hcfg (by decide) (by simp [settings])
        environment := values_unit hcfg (by decide) (by simp [settings])
        watchdogSec := fun hpos => ⟨_, numbers_watchdogSec hcfg hpos, ?_⟩
        timeoutStopSec := fun hpos => ⟨_, numbers_timeoutStopSec hcfg hpos, ?_⟩ }
    · exact (int_seconds_pos_iff hpos hcfg.watchdogSec).mpr (hlong hpos)
    · exact (le_int_seconds_iff hpos hcfg.timeoutStopSec).mpr (hwhole hpos)

/-- An agent with a watchdog and a stop timeout. -/
def agent (watchdogSec timeoutStopSec : Int) : UnitConfig where
  description := utf8 "My agent"
  execStart := utf8 "/usr/local/bin/agent --config /etc/agent.yaml"
  user := utf8 "agent"
  workingDirectory := []
  environment := [utf8 "APP_ENVIRONMENT=Production"]
  watchdogSec := watchdogSec
  timeoutStopSec := timeoutStopSec

/-- Half a second of watchdog is none, and a second and a half of draining is one. -/
theorem agent_not_keeps : (agent 500000000 1500000000).Valid ∧
    ¬Keeps (agent 500000000 1500000000) (unit (agent 500000000 1500000000)) := by
  have hvalid : (agent 500000000 1500000000).Valid := by
    constructor <;> decide
  refine ⟨hvalid, fun hkeeps => ?_⟩
  obtain ⟨n, hn, hpos⟩ := hkeeps.watchdogSec (by decide)
  rw [numbers_watchdogSec hvalid (by decide)] at hn
  obtain rfl := List.singleton_injective hn
  exact absurd ((int_seconds_pos_iff (by decide) (by decide)).mp hpos) (by decide)

theorem agent_keeps : (agent 30000000000 40000000000).Valid ∧
    Keeps (agent 30000000000 40000000000) (unit (agent 30000000000 40000000000)) := by
  have hvalid : (agent 30000000000 40000000000).Valid := by
    constructor <;> decide
  exact ⟨hvalid, (keeps_iff hvalid).mpr (by decide)⟩

end Shost.Ports.Systemd
