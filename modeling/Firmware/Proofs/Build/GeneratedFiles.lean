import Firmware.Proofs.Build.Agreement

/-! The configuration behind generated files.
The constants of an image settle everything but its target, and boards that share a peripheral are
told apart by their linker scripts. So one reader recovers every configuration from its two files,
and no two configurations generate the same ones (`Configuration.generated_files_settle`).
-/

namespace Firmware

/-- The level with a severity; fatal records have none. -/
def Level.ofSeverity? (severity : Severity) : Option Level :=
  Level.all.find? (·.severity = severity)

theorem Level.ofSeverity?_severity (level : Level)
    : ofSeverity? level.severity = some level := by
  cases level <;> rfl

--------------------------------------------------------------------------------
-- Targets
--------------------------------------------------------------------------------

namespace Target

/-- The target has this peripheral, and the memory map if it has one at all. -/
def Declares (target : Target) (uart : Option DebugUart) (map : Option MemoryMap) : Prop :=
  target.debugUart = uart ∧ (target.memoryMap.isSome → target.memoryMap = map)

instance (target : Target) (uart : Option DebugUart) (map : Option MemoryMap)
    : Decidable (target.Declares uart map) :=
  inferInstanceAs (Decidable (_ ∧ _))

/-- Only the host has no peripheral, and boards with the same one differ in their memory. -/
theorem eq_of_declares {left right : Target} {uart : Option DebugUart} {map : Option MemoryMap}
    (leftDeclares : left.Declares uart map) (rightDeclares : right.Declares uart map)
    : left = right := by
  have sameUart := leftDeclares.1.trans rightDeclares.1.symm
  have sameMap (leftBoard : left ≠ .host) (rightBoard : right ≠ .host)
      : left.memoryMap = right.memoryMap :=
    (leftDeclares.2 (isSome_memoryMap_iff.mpr leftBoard)).trans
      (rightDeclares.2 (isSome_memoryMap_iff.mpr rightBoard)).symm
  by_cases leftHost : left = .host
  · subst leftHost
    cases right with
    | host => rfl
    | stm32f412 | stm32f446 | wgm160p => cases sameUart
  · by_cases rightHost : right = .host
    · subst rightHost
      cases left with
      | host => rfl
      | stm32f412 | stm32f446 | wgm160p => cases sameUart
    · have same := sameMap leftHost rightHost
      cases left <;> cases right <;> first | rfl | exact absurd same (by decide)

/-- The target that declares a peripheral and a memory map. -/
def ofDeclared? (uart : Option DebugUart) (map : Option MemoryMap) : Option Target :=
  Target.all.find? (·.Declares uart map)

theorem ofDeclared?_eq_some {target : Target} {uart : Option DebugUart} {map : Option MemoryMap}
    (declares : target.Declares uart map)
    : ofDeclared? uart map = some target := by
  have member : target ∈ Target.all := by cases target <;> decide
  rw [ofDeclared?]
  cases found : Target.all.find? (·.Declares uart map) with
  | none => exact absurd (decide_eq_true declares) (List.find?_eq_none.mp found target member)
  | some other =>
      have otherDeclares := List.find?_some found
      rw [decide_eq_true_iff] at otherDeclares
      rw [eq_of_declares otherDeclares declares]

end Target

--------------------------------------------------------------------------------
-- Configurations
--------------------------------------------------------------------------------

/-- The constants are those that a configuration asks for. -/
structure Constants.AskedFor (constants : Constants) (configuration : Configuration) : Prop where
  heapSize : constants.heapSize = configuration.heapSize
  maxLogLevel : constants.maxLogLevel.name = configuration.logging.level.name
  logColor : constants.logColor = configuration.logging.color
  errnoChannel : constants.errnoChannel = configuration.errno
  staticTable : constants.staticTable = true ↔ configuration.table = .static
  debugUart : constants.debugUart = configuration.target.debugUart

theorem Configuration.constants_askedFor (configuration : Configuration)
    : configuration.constants.AskedFor configuration where
  heapSize := rfl
  maxLogLevel := rfl
  logColor := rfl
  errnoChannel := rfl
  staticTable := decide_eq_true_iff
  debugUart := rfl

namespace Configuration

/-- The text of the linker script that a configuration generates, if it generates one. -/
def script (configuration : Configuration) : Option String :=
  configuration.linkerFile.map GeneratedFile.contents

/-- The configuration that a text of constants declares, together with a linker script if there is
one. A script is not looked at unless the constants are those of a board.
-/
def read? (constants : String) (script : Option String) : Option Configuration := do
  let declared ← Source.read? constants
  let level ← Level.ofSeverity? declared.maxLogLevel
  let target ← Target.ofDeclared? declared.debugUart (script.bind LinkerScript.read?)
  return {
    target
    heapSize := declared.heapSize
    logging := { level, color := declared.logColor }
    errno := declared.errnoChannel
    table := if declared.staticTable then .static else .dynamic
  }

/-- The script of a board declares its memory to the byte. -/
theorem read?_script (configuration : Configuration)
    : configuration.script.bind LinkerScript.read? = configuration.target.memoryMap := by
  rw [script, linkerFile]
  cases known : configuration.target.memoryMap with
  | none => rfl
  | some map =>
      rw [Option.map_some, Option.map_some, Option.bind_some]
      exact LinkerScript.read?_text known

/-- A configuration is recovered from its constants and from any script that declares the memory of
its board.
-/
theorem read?_eq_some (configuration : Configuration) {script : Option String}
    (declared
      : configuration.target.memoryMap.isSome →
          script.bind LinkerScript.read? = configuration.target.memoryMap)
    : read? configuration.constantsFile.contents script = some configuration := by
  have constants : Source.read? configuration.constantsFile.contents
      = some configuration.constants :=
    Source.read?_constants configuration
  have level : Level.ofSeverity? configuration.constants.maxLogLevel
      = some configuration.logging.level :=
    Level.ofSeverity?_severity _
  have target : Target.ofDeclared? configuration.constants.debugUart
      (script.bind LinkerScript.read?)
      = some configuration.target :=
    Target.ofDeclared?_eq_some ⟨rfl, fun isBoard => (declared isBoard).symm⟩
  have table : (if configuration.constants.staticTable then .static else .dynamic)
      = configuration.table := by
    rw [Configuration.constants]
    cases configuration.table <;> rfl
  simp only [read?, constants, level, target, table, Option.bind_eq_bind, Option.bind_some]
  rfl

/-- The files of a configuration can be read back: from the constants alone exactly what the
configuration asks for, from the linker script the exact sizes of the memory, and from both the whole
configuration. So different configurations generate different files, also when they are written
among the files of another build.
-/
theorem generated_files_settle
    : (Function.Injective fun configuration : Configuration =>
        (configuration.constantsFile.contents, configuration.script))
      ∧ ∀ (configuration : Configuration) (files : List GeneratedFile),
          (∃ constants,
            Source.read? configuration.constantsFile.contents = some constants
            ∧ constants.AskedFor configuration)
          ∧ configuration.script.bind LinkerScript.read? = configuration.target.memoryMap
          ∧ read? configuration.constantsFile.contents configuration.script = some configuration
          ∧ ∃ after contents,
              configuration.writeModules (.present files) = .ok after
              ∧ after.contents? "config.rs" = some contents
              ∧ read? contents (after.contents? "memory.x") = some configuration := by
  have recovered (configuration : Configuration)
      : read? configuration.constantsFile.contents configuration.script = some configuration :=
    read?_eq_some configuration fun _ => read?_script configuration
  refine ⟨?injective, fun configuration files => ⟨?constants, ?memory, ?whole, ?written⟩⟩
  case injective =>
    intro left right same
    have sameTexts := Prod.mk.inj same
    have leftRecovered := recovered left
    rw [sameTexts.1, sameTexts.2, recovered right] at leftRecovered
    exact (Option.some.inj leftRecovered).symm
  case constants =>
    exact ⟨_, Source.read?_constants configuration, configuration.constants_askedFor⟩
  case memory => exact read?_script configuration
  case whole => exact recovered configuration
  case written =>
    obtain ⟨after, modules, written⟩ := configuration.writeModules_present files
    refine ⟨_, _, modules, written.constants, read?_eq_some configuration fun isBoard => ?_⟩
    obtain ⟨map, known⟩ := Option.isSome_iff_exists.mp isBoard
    rw [written.linker, known, Option.map_some, Option.some_or, Option.bind_some]
    exact LinkerScript.read?_text known

end Configuration

end Firmware
