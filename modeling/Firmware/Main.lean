import Firmware.Build.Step

/-! The command line of the build step. It hands the environment and the chosen file to the step,
writes the files that the step answers with, and reports the outcome.
-/

namespace Firmware.CommandLine

/-- The variables that matter to the build step, with their values as far as they are text. -/
def readEnvironment : IO Environment := do
  let found ← Build.inspectedVariables.mapM fun name => do
    return (← IO.getEnv name).map fun value => (name, value)
  return .ofTexts (found.filterMap id)

/-- The bytes of a file, if there is one. -/
def readContents (path : String) : IO (Option (List UInt8)) := do
  try
    return some (← IO.FS.readBinFile path).toList
  catch _ =>
    return none

/-- Writes files into a directory; whether the directory was there to write into. -/
def writeFiles (directory : String) (files : List GeneratedFile) : IO Bool := do
  try
    for file in files do
      IO.FS.writeFile (directory ++ "/" ++ file.name) file.contents
    return true
  catch _ =>
    return false

end Firmware.CommandLine

open Firmware in
/-- Runs the build step, and answers with an exit code. -/
def main : IO UInt32 := do
  let environment ← CommandLine.readEnvironment
  let path := Build.chosenFile environment
  let contents ← CommandLine.readContents path
  let workspace : Build.Workspace :=
    { environment, contents? := fun asked => if asked = path then contents else none }
  let attempt := Build.run workspace (.present [])
  let output := (environment.text Build.outputVariable).toOption.getD ""
  let written ← CommandLine.writeFiles output attempt.directory.files
  let outcome := if written then attempt else Build.run workspace .missing
  for line in outcome.printed do
    IO.println line
  match outcome.result with
  | .ok _ => return 0
  | .error error =>
    IO.eprintln ("Error: " ++ error.message?.getD "malformed configuration")
    return 1
