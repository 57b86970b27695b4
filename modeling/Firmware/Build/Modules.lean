import Firmware.Build.LinkerScript
import Firmware.Build.Source

/-! The files that a configuration generates: the constants of the image, and for a board its
linker script. -/

namespace Firmware

/-- A file that a build has written. -/
structure GeneratedFile where
  name : String
  contents : String
deriving DecidableEq, Repr

/-- Why a file is not read or written. -/
inductive FileError where
  | notFound
  /-- The contents are not UTF-8. -/
  | notText
deriving DecidableEq, Repr

/-- The text of a file error. -/
def FileError.message : FileError → String
  | .notFound => "No such file or directory (os error 2)"
  | .notText => "stream did not contain valid UTF-8"

/-- The directory that a build writes into. -/
inductive OutputDirectory where
  | missing
  /-- The files in the directory, in the order in which they were written. -/
  | present (files : List GeneratedFile)
deriving DecidableEq, Repr

namespace OutputDirectory

/-- The files in a directory. -/
def files : OutputDirectory → List GeneratedFile
  | missing => []
  | present files => files

/-- The directory with a file in place of one with the same name, if it is there. -/
def insert? (file : GeneratedFile) : OutputDirectory → Option OutputDirectory
  | missing => none
  | present files => some (present (files.filter (·.name ≠ file.name) ++ [file]))

end OutputDirectory

/-- Something that writes files. What it has written stays written when it fails. -/
abbrev Writing := ExceptT FileError (StateM OutputDirectory)

namespace Writing

/-- Writes a file, in place of one with the same name. -/
def write (file : GeneratedFile) : Writing Unit := do
  match OutputDirectory.insert? file (← get) with
  | none => throw .notFound
  | some directory => set directory

/-- The directory that is left, if everything is written. -/
def into (directory : OutputDirectory) (writing : Writing Unit)
    : Except FileError OutputDirectory :=
  match writing.run.run directory with
  | (.error error, _) => .error error
  | (.ok _, directory) => .ok directory

end Writing

namespace Configuration

/-- The file with the constants of the image. -/
def constantsFile (configuration : Configuration) : GeneratedFile where
  name := "config.rs"
  contents := Source.text configuration.constants

/-- The file with the linker script of a board; the host has none. -/
def linkerFile (configuration : Configuration) : Option GeneratedFile :=
  configuration.target.memoryMap.map fun map =>
    { name := "memory.x", contents := LinkerScript.text map }

/-- Writes the linker script. Nothing is written for the host. -/
def generateLinkerScript (configuration : Configuration) : Writing Unit :=
  match configuration.linkerFile with
  | none => return
  | some file => .write file

/-- Writes all files of a configuration. -/
def generateModules (configuration : Configuration) : Writing Unit := do
  .write configuration.constantsFile
  configuration.generateLinkerScript

/-- A directory into which the linker script was written. -/
def writeLinkerScript (configuration : Configuration) (directory : OutputDirectory)
    : Except FileError OutputDirectory :=
  configuration.generateLinkerScript.into directory

/-- A directory into which all files of a configuration were written. -/
def writeModules (configuration : Configuration) (directory : OutputDirectory)
    : Except FileError OutputDirectory :=
  configuration.generateModules.into directory

end Configuration

end Firmware
