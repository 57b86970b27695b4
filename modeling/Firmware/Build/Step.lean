import Firmware.Build.Modules
import Firmware.Build.Validation
import Firmware.Notation.Reader

/-! The build step: it reads the configuration that the environment chooses, checks it against the
enabled features, and writes the generated files.
What the step prints tells the builder when to run it again, and where the linker script is. What
it has printed and written stays when it fails.
-/

namespace Firmware.Build

/-- Why a build step fails. -/
inductive BuildError where
  /-- The environment does not name the output directory. -/
  | output (error : VariableError)
  | file (error : FileError)
  /-- The chosen file is no configuration. -/
  | unreadable (error : Notation.ReadError)
  | invalid (error : ValidationError)
deriving DecidableEq, Repr

/-- The text of a build error. Malformed configurations have none; that of an output directory that
is not text quotes its bytes, and is not told. -/
def BuildError.message? : BuildError → Option String
  | .output .absent => some "environment variable not found"
  | .output (.notText _) => none
  | .file error => some error.message
  | .unreadable error => error.message?
  | .invalid error => some error.message

/-- What a build step finds. -/
structure Workspace where
  environment : Environment
  /-- The contents of a file. -/
  contents? : String → Option (List UInt8)

/-- What a build step has done so far. -/
structure Progress where
  /-- The lines that were printed. -/
  printed : List String := []
  directory : OutputDirectory

/-- What a build step leaves behind. -/
structure BuildOutcome extends Progress where
  result : Except BuildError Unit

/-- The file that is read when the environment chooses none. -/
def defaultFile : String := "./config/host.ron"

/-- The variable that chooses a file. -/
def fileVariable : String := "MORTAR_CONFIG"

/-- The variable that names the output directory. -/
def outputVariable : String := "OUT_DIR"

/-- The variables of the environment that matter to the step. -/
def inspectedVariables : List String :=
  [fileVariable, outputVariable] ++ FeatureSet.features.map FeatureSet.variableName

/-- The file that an environment chooses. A choice that is not text is taken for none. -/
def chosenFile (environment : Environment) : String :=
  match environment.text fileVariable with
  | .error _ => defaultFile
  | .ok file => file

/-- The lines that name what the step depends on. -/
def dependencyLines (environment : Environment) : List String :=
  ["cargo:rerun-if-env-changed=" ++ fileVariable, "cargo:rerun-if-changed=" ++ defaultFile]
    ++ match environment.text fileVariable with
      | .error _ => []
      | .ok file => ["cargo:rerun-if-changed=" ++ file]

/-- The lines that say where the linker script of a board is. -/
def linkerLines (configuration : Configuration) (output : String) : List String :=
  if configuration.target.memoryMap.isSome then ["cargo:rustc-link-search=" ++ output] else []

/-- Reads the configuration in the chosen file. -/
def Workspace.load (workspace : Workspace) : Except BuildError Configuration :=
  match workspace.contents? (chosenFile workspace.environment) with
  | none => .error (.file .notFound)
  | some bytes =>
    match Utf8.decode? bytes with
    | none => .error (.file .notText)
    | some text => (Notation.parse text).mapError .unreadable

--------------------------------------------------------------------------------
-- The step
--------------------------------------------------------------------------------

/-- A part of a build step. What it has done stays done when it fails. -/
abbrev Script := ExceptT BuildError (StateM Progress)

namespace Script

/-- Prints lines. -/
def print (lines : List String) : Script Unit :=
  modify fun progress => { progress with printed := progress.printed ++ lines }

/-- Writes files into the output directory. -/
def write (writing : Writing Unit) : Script Unit := fun progress =>
  let (result, directory) := writing.run.run progress.directory
  (result.mapError .file, { progress with directory })

end Script

/-- Checks a configuration, and writes its files. -/
def Workspace.generate (workspace : Workspace) (configuration : Configuration) : Script Unit := do
  (configuration.validate (.ofEnvironment workspace.environment)).mapError BuildError.invalid
  .write configuration.generateModules

/-- Reads the chosen configuration, and generates what it asks for. -/
def script (workspace : Workspace) : Script Unit := do
  let output ← (workspace.environment.text outputVariable).mapError BuildError.output
  .print (dependencyLines workspace.environment)
  let configuration ← workspace.load
  workspace.generate configuration
  .print (linkerLines configuration output)

/-- Runs the build step with the output directory as it is found. -/
def run (workspace : Workspace) (directory : OutputDirectory) : BuildOutcome :=
  let (result, progress) := (script workspace).run.run { directory }
  { progress with result }

end Firmware.Build
