import Firmware.Build.Target
import Firmware.Text.Utf8

/-! The environment of a build: its variables, and the features that they enable. -/

namespace Firmware

--------------------------------------------------------------------------------
-- Variables
--------------------------------------------------------------------------------

/-- The value of a variable: bytes that may or may not be text. -/
structure VariableValue where
  bytes : List UInt8
deriving DecidableEq, Repr

namespace VariableValue

/-- The value that is a text. -/
def ofText (text : String) : VariableValue := ⟨Utf8.ofString text⟩

instance : Coe String VariableValue := ⟨ofText⟩

/-- The text that a value is, if it is UTF-8. -/
def text? (value : VariableValue) : Option String :=
  (Utf8.decode? value.bytes).map String.ofList

end VariableValue

/-- The variables of an environment with their values, the latest first. -/
abbrev Environment := List (String × VariableValue)

/-- Why the text of a variable is not known. -/
inductive VariableError where
  | absent
  /-- The variable is set, but to bytes that are not UTF-8. -/
  | notText (bytes : List UInt8)
deriving DecidableEq, Repr

namespace Environment

/-- The environment in which variables are set to texts. -/
def ofTexts (texts : List (String × String)) : Environment :=
  texts.map fun (name, text) => (name, .ofText text)

instance : Coe (List (String × String)) Environment := ⟨ofTexts⟩

/-- The text that a variable is set to. -/
def text (environment : Environment) (name : String) : Except VariableError String :=
  match environment.lookup name with
  | none => .error .absent
  | some value =>
    match value.text? with
    | none => .error (.notText value.bytes)
    | some text => .ok text

end Environment

--------------------------------------------------------------------------------
-- Features
--------------------------------------------------------------------------------

/-- The features that matter to a configuration. -/
structure FeatureSet where
  /-- The board whose feature is enabled, the first of them if there are several. -/
  board : Option Target := none
  logColor : Bool := false
  errno : Bool := false
  staticTable : Bool := false
deriving DecidableEq, Repr

namespace FeatureSet

/-- The name of the variable that is set while a feature is enabled: upper case, with
underscores. -/
def variableName (feature : String) : String :=
  "CARGO_FEATURE_" ++ feature.map fun c => if c = '-' then '_' else c.toUpper

/-- Whether a feature is enabled. The value of its variable does not matter. -/
def Enabled (environment : Environment) (feature : String) : Prop :=
  (environment.lookup (variableName feature)).isSome

instance (environment : Environment) (feature : String)
    : Decidable (Enabled environment feature) :=
  inferInstanceAs (Decidable ((environment.lookup (variableName feature)).isSome))

/-- The targets that are boards. -/
def boards : List Target := Target.all.filter (· ≠ .host)

/-- The feature that colours the log. -/
def logColorFeature : String := "log-color"

/-- The feature that stands for an errno channel in the linked C library. -/
def errnoFeature : String := "errno"

/-- The feature that puts the checksum table into flash. -/
def staticTableFeature : String := "crc-static-table"

/-- All features that matter to a configuration. -/
def features : List String :=
  boards.map Target.featureName ++ [logColorFeature, errnoFeature, staticTableFeature]

/-- The features that an environment enables. -/
def ofEnvironment (environment : Environment) : FeatureSet where
  board := boards.find? fun board => Enabled environment board.featureName
  logColor := Enabled environment logColorFeature
  errno := Enabled environment errnoFeature
  staticTable := Enabled environment staticTableFeature

end FeatureSet

end Firmware
