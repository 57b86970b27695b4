import Firmware.Memory
import Firmware.Notation.Writer
import Firmware.Proofs.Notation.Tokens

/-! Layouts of configurations: the fields that a text gives, in the order in which it gives them, as
often as it gives them, and with or without a comma after the last one. A layout declares a
configuration if it gives every field of it once (`Layout.Declares`). The layout in which a
configuration is written is one that declares it (`declares_written`).
-/

namespace Firmware.Notation

--------------------------------------------------------------------------------
-- Lists of fields
--------------------------------------------------------------------------------

/-- Fields in parentheses, and whether a comma follows the last of them. -/
structure FieldList (F : Type) where
  fields : List F
  trailing : Bool := false
deriving DecidableEq

section FieldLists

variable {F : Type} (word : F → Word) (value : F → List Token)

/-- The tokens of fields with commas between them, up to the closing parenthesis. -/
def listed (trailing : Bool) : List F → List Token
  | [] => [.mark .closing]
  | field :: rest =>
    .word (word field) :: .mark .colon :: value field
      ++ if rest.isEmpty && !trailing then [.mark .closing]
        else .mark .comma :: listed trailing rest

/-- A field is followed by the parenthesis, if it is the last one, or by a comma and the others. -/
theorem listed_cons (trailing : Bool) (field : F) (rest : List F)
    : (rest = []
        ∧ listed word value trailing (field :: rest)
          = .word (word field) :: .mark .colon :: (value field ++ [.mark .closing]))
      ∨ listed word value trailing (field :: rest)
        = .word (word field) :: .mark .colon
            :: (value field ++ .mark .comma :: listed word value trailing rest) := by
  rw [listed]
  split
  next last => exact .inl ⟨List.isEmpty_iff.mp (Bool.and_eq_true_iff.mp last).1, rfl⟩
  next => exact .inr rfl

theorem length_le_listed (trailing : Bool) (fields : List F)
    : fields.length ≤ (listed word value trailing fields).length := by
  induction fields with
  | nil => exact Nat.zero_le _
  | cons field rest ih =>
      obtain ⟨rfl, last⟩ | others := listed_cons word value trailing field rest
      · simp [last]
      · simp only [others, List.length_cons, List.length_append]
        omega

/-- The tokens of fields in parentheses. -/
def FieldList.tokens (list : FieldList F) : List Token :=
  .mark .opening :: listed word value list.trailing list.fields

end FieldLists

--------------------------------------------------------------------------------
-- Fields
--------------------------------------------------------------------------------

namespace Word

def port : Word := ⟨"port", by decide⟩

def heap : Word := ⟨"heap", by decide⟩

def size : Word := ⟨"size", by decide⟩

def logging : Word := ⟨"logging", by decide⟩

def level : Word := ⟨"level", by decide⟩

def color : Word := ⟨"color", by decide⟩

def errno : Word := ⟨"errno", by decide⟩

def table : Word := ⟨"checksum_table", by decide⟩

def ofBool (flag : Bool) : Word := ⟨writeBool flag, by cases flag <;> decide⟩

def ofTarget (target : Target) : Word := ⟨target.name, by cases target <;> decide⟩

def ofLevel (level : Level) : Word := ⟨level.name, by cases level <;> decide⟩

def ofTable (table : ChecksumTable) : Word := ⟨table.name, by cases table <;> decide⟩

end Word

/-- A field of a logging record. -/
inductive LoggingField where
  | level (level : Level)
  | color (color : Bool)
deriving DecidableEq, Repr

namespace LoggingField

def word : LoggingField → Word
  | .level _ => .level
  | .color _ => .color

def value : LoggingField → List Token
  | .level least => [.word (.ofLevel least)]
  | .color flag => [.word (.ofBool flag)]

end LoggingField

/-- A field of a configuration. -/
inductive Field where
  | port (target : Target)
  | heap (sizes : FieldList Numeral)
  | logging (fields : FieldList LoggingField)
  | errno (errno : Bool)
  | table (table : ChecksumTable)
deriving DecidableEq

namespace Field

def word : Field → Word
  | .port _ => .port
  | .heap _ => .heap
  | .logging _ => .logging
  | .errno _ => .errno
  | .table _ => .table

def value : Field → List Token
  | .port target => [.word (.ofTarget target)]
  | .heap sizes => sizes.tokens (fun _ => .size) fun size => [.numeral size]
  | .logging fields => fields.tokens LoggingField.word LoggingField.value
  | .errno flag => [.word (.ofBool flag)]
  | .table kind => [.word (.ofTable kind)]

/-- The name of a field, and those of the fields in its value. -/
def names (field : Field) : List String :=
  field.word.name ::
    match field with
    | .heap sizes => sizes.fields.map fun _ => Word.size.name
    | .logging list => list.fields.map fun inner => inner.word.name
    | .port _ | .errno _ | .table _ => []

/-- The sizes in the value of a field. -/
def sizes : Field → List Numeral
  | .heap sizes => sizes.fields
  | .port _ | .logging _ | .errno _ | .table _ => []

end Field

/-- The names of the fields that a configuration has, those of inner records included. -/
def fieldNames : List String :=
  ["port", "heap", "size", "logging", "level", "color", "errno", "checksum_table"]

theorem count_fieldNames : ∀ name ∈ fieldNames, fieldNames.count name = 1 := by decide

/-- The fields of a configuration, in the order in which a text gives them. -/
structure Layout extends FieldList Field

namespace Layout

def tokens (layout : Layout) : List Token := layout.toFieldList.tokens Field.word Field.value

/-- The names of all fields, those of inner records included. -/
def names (layout : Layout) : List String := layout.fields.flatMap Field.names

/-- The sizes that are given. -/
def sizes (layout : Layout) : List Numeral := layout.fields.flatMap Field.sizes

end Layout

--------------------------------------------------------------------------------
-- What a layout declares
--------------------------------------------------------------------------------

/-- A heap record gives a size, once. -/
def FieldList.DeclaresSize (list : FieldList Numeral) (size : Nat) : Prop :=
  ∃ numeral, list.fields = [numeral] ∧ numeral.value = size ∧ size < addressSpace

/-- A logging record gives a level and a colour, each once. -/
def FieldList.DeclaresLogging (list : FieldList LoggingField) (logging : LoggingConfiguration)
    : Prop :=
  list.fields.Perm [.level logging.level, .color logging.color]

/-- A layout gives every field of a configuration once, in any order. -/
def Layout.Declares (layout : Layout) (configuration : Configuration) : Prop :=
  ∃ heap logging,
    layout.fields.Perm
      [
        .port configuration.target,
        .heap heap,
        .logging logging,
        .errno configuration.errno,
        .table configuration.table
      ]
    ∧ heap.DeclaresSize configuration.heapSize
    ∧ logging.DeclaresLogging configuration.logging

/-- A layout that declares a configuration names every field once. -/
theorem Layout.Declares.names {layout : Layout} {configuration : Configuration}
    (declares : layout.Declares configuration)
    : layout.names.Perm fieldNames := by
  obtain ⟨heap, logging, perm, ⟨numeral, only, _⟩, inner⟩ := declares
  have innerNames
      : (logging.fields.map fun field => field.word.name).Perm ["level", "color"] :=
    inner.map _
  refine (perm.flatMap_right Field.names).trans ?_
  simp only [List.flatMap_cons, List.flatMap_nil, Field.names, only, List.map_cons, List.map_nil,
    List.cons_append, List.nil_append]
  exact (innerNames.append_right _).cons _ |>.cons _ |>.cons _ |>.cons _

/-- The sizes in a layout that declares a configuration are in range. -/
theorem Layout.Declares.sizes {layout : Layout} {configuration : Configuration}
    (declares : layout.Declares configuration)
    : ∀ size ∈ layout.sizes, size.value < addressSpace := by
  obtain ⟨heap, logging, perm, ⟨numeral, only, value, small⟩, _⟩ := declares
  intro size member
  have given := (perm.flatMap_right Field.sizes).mem_iff.mp member
  simp only [List.flatMap_cons, List.flatMap_nil, Field.sizes, only, List.nil_append,
    List.append_nil, List.mem_singleton] at given
  rw [given, value]
  exact small

/-- The layout in which configurations are written. -/
def Layout.written (configuration : Configuration) : Layout where
  fields :=
    [
      .port configuration.target,
      .heap { fields := [.ofNat configuration.heapSize] },
      .logging
        { fields := [.level configuration.logging.level, .color configuration.logging.color] },
      .errno configuration.errno,
      .table configuration.table
    ]

theorem Layout.declares_written {configuration : Configuration}
    (inRange : configuration.heapSize < addressSpace)
    : (Layout.written configuration).Declares configuration :=
  ⟨_, _, .refl _, ⟨_, rfl, Numeral.value_ofNat _, inRange⟩, .refl _⟩

/-- A configuration is written as the tokens of its layout, with nothing between them. -/
theorem toList_write (configuration : Configuration)
    : (write configuration).toList = (Layout.written configuration).tokens.flatMap Token.text := by
  unfold write
  simp only [String.toList_append, String.toList_ofList, List.append_assoc,
    ← Numeral.text_ofNat configuration.heapSize]
  simp [Layout.written, Layout.tokens, FieldList.tokens, listed, Field.word, Field.value,
    LoggingField.word, LoggingField.value, Token.text, Mark.char, Word.port, Word.heap, Word.size,
    Word.logging, Word.level, Word.color, Word.errno, Word.table, Word.ofBool, Word.ofTarget,
    Word.ofLevel, Word.ofTable]

end Firmware.Notation
