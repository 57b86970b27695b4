import Firmware.Build.Configuration
import Firmware.Build.Features

/-! Validation: a configuration has to be complete and to agree with the enabled features. -/

namespace Firmware

/-- A step that is missing to complete a configuration. -/
inductive RequiredStep where
  /-- The heap has no bytes. -/
  | heapSize
  /-- The heap takes all of the board's memory. -/
  | heapFitsInRam
deriving DecidableEq, Repr

namespace RequiredStep

def name : RequiredStep → String
  | heapSize => "HeapSize"
  | heapFitsInRam => "HeapFitsInRam"

/-- The instruction to do a step. -/
def message : RequiredStep → String
  | heapSize => "[Heap] Specify a non-zero heap size"
  | heapFitsInRam => "[Heap] Heap size must leave room for stack and statics in RAM"

end RequiredStep

/-- Why a configuration is not accepted. -/
inductive ValidationError where
  | incomplete (step : RequiredStep)
  /-- A board is enabled that is not the configured target. -/
  | otherBoard (board target : Target)
  /-- The configured target is a board, but no board is enabled. -/
  | noBoard (target : Target)
  /-- Colour is enabled, but not configured. -/
  | colorDisabled
  | errnoDisagrees
  | tableDisagrees
deriving DecidableEq, Repr

/-- The text of a validation error. -/
def ValidationError.message : ValidationError → String
  | .incomplete step => "Incomplete configuration: " ++ step.message
  | .otherBoard board target =>
    "Mismatching board in configuration file. Features require " ++ board.featureName
      ++ ", configuration requires " ++ target.featureName
  | .noBoard target =>
    "Configuration targets " ++ target.featureName
      ++ ", but no board feature is enabled. Enable feature `" ++ target.featureName ++ "`"
  | .colorDisabled =>
    "Configuration mismatch. Feature flags require `log-color`, but it is disabled in the "
      ++ "configuration file"
  | .errnoDisagrees =>
    "Configuration mismatch. Feature `errno` and the configuration file disagree on the errno "
      ++ "channel"
  | .tableDisagrees =>
    "Configuration mismatch. Feature `crc-static-table` and the configuration file disagree on "
      ++ "the checksum table"

namespace Configuration

/-- Whether the heap leaves nothing of the board's memory. The host has no limit. -/
def HeapFillsRam (configuration : Configuration) : Prop :=
  ∃ map ∈ configuration.target.memoryMap, map.ram.size ≤ configuration.heapSize

instance (configuration : Configuration) : Decidable configuration.HeapFillsRam :=
  match known : configuration.target.memoryMap with
  | none => .isFalse (by simp [HeapFillsRam, known])
  | some map =>
    if fills : map.ram.size ≤ configuration.heapSize then
      .isTrue ⟨map, by simp [known], fills⟩
    else .isFalse (by simpa [HeapFillsRam, known] using fills)

/-- The steps that are missing, in the order in which they are reported. -/
def requiredSteps (configuration : Configuration) : List RequiredStep :=
  (if configuration.heapSize = 0 then [.heapSize] else [])
    ++ (if configuration.HeapFillsRam then [.heapFitsInRam] else [])

/-- A configuration is complete when no step is missing. -/
def Complete (configuration : Configuration) : Prop := configuration.requiredSteps = []

instance (configuration : Configuration) : Decidable configuration.Complete :=
  inferInstanceAs (Decidable (configuration.requiredSteps = []))

/-- Checks that an enabled board is the configured target, and that a configured board is
enabled. -/
def checkBoard (configuration : Configuration) (features : FeatureSet)
    : Except ValidationError Unit :=
  match features.board with
  | some board =>
    if board ≠ configuration.target then .error (.otherBoard board configuration.target)
    else .ok ()
  | none =>
    if configuration.target ≠ .host then .error (.noBoard configuration.target) else .ok ()

/-- Checks a configuration against the enabled features; the first fault found is reported. -/
def validate (configuration : Configuration) (features : FeatureSet)
    : Except ValidationError Unit := do
  match configuration.requiredSteps with
  | step :: _ => .error (.incomplete step)
  | [] => .ok ()
  configuration.checkBoard features
  if features.logColor ∧ ¬ configuration.logging.color then .error .colorDisabled
  else if features.errno ≠ configuration.errno then .error .errnoDisagrees
  else if features.staticTable ≠ decide (configuration.table = .static) then
    .error .tableDisagrees
  else .ok ()

end Configuration

end Firmware
