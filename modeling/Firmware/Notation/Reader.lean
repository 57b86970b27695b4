import Firmware.Build.Configuration
import Firmware.Memory
import Firmware.Notation.Skipped

/-! Reading a configuration.
A text is a preamble and one record; after it only blanks may follow. A record may be preceded by
its type's name. Fields come in any order and unknown ones are skipped. A field that is repeated
is reported where its name is repeated, and missing fields are reported as soon as the list of
fields ends, before the closing parenthesis is looked for.
-/

namespace Firmware.Notation

/-- Why a text is no configuration. -/
inductive ReadError where
  /-- The text does not follow the notation. -/
  | malformed
  | missingField (name : String)
  | duplicateField (name : String)
  /-- A name is none of those expected. -/
  | unknownVariant (name : String) (expected : List String)
deriving DecidableEq, Repr

namespace ReadError

/-- A name between backquotes. -/
def quoted (name : String) : String := "`" ++ name ++ "`"

/-- The names that were expected, in words. -/
def alternatives : List String → String
  | [first, second] => quoted first ++ " or " ++ quoted second
  | names => "one of " ++ ", ".intercalate (names.map quoted)

/-- The text of an error; malformed text has none. -/
def message? : ReadError → Option String
  | malformed => none
  | missingField name => some ("missing field " ++ quoted name)
  | duplicateField name => some ("duplicate field " ++ quoted name)
  | unknownVariant name expected =>
    some ("unknown variant " ++ quoted name ++ ", expected " ++ alternatives expected)

end ReadError

/-- A step that fails on malformed text only. -/
def demand {α : Type} : Option α → Except ReadError α
  | some value => .ok value
  | none => .error .malformed

--------------------------------------------------------------------------------
-- Values
--------------------------------------------------------------------------------

/-- Reads a truth value. What follows it is not looked at. -/
def readBool (text : List Char) : Except ReadError (Bool × List Char) :=
  match readText? "true" text, readText? "false" text with
  | some rest, _ => .ok (true, rest)
  | none, some rest => .ok (false, rest)
  | none, none => .error .malformed

/-- Reads a size, less than the address space. -/
def readSize (text : List Char) : Except ReadError (Nat × List Char) :=
  demand (readUnsigned? addressSpace text)

/-- Reads the name of one of several values. -/
def readVariant {α : Type} (name : α → String) (all : List α) (text : List Char)
    : Except ReadError (α × List Char) := do
  let (read, rest) ← demand (readName? text)
  match all.find? fun value => name value = String.ofList read with
  | some value => .ok (value, rest)
  | none => .error (.unknownVariant (String.ofList read) (all.map name))

--------------------------------------------------------------------------------
-- Records
--------------------------------------------------------------------------------

/-- Reads what follows the name of a field that was not seen before: a colon and a value. -/
def readField {α : Type} (name : String) (seen : Option α)
    (value : List Char → Except ReadError (α × List Char)) (text : List Char)
    : Except ReadError (Option α × List Char) := do
  if seen.isSome then .error (.duplicateField name)
  else
    let (read, rest) ← value (← demand (readColon? text))
    return (some read, rest)

/-- Skips what follows the name of an unknown field. -/
def skipField {α : Type} (fields : α) (text : List Char)
    : Except ReadError (α × List Char) := do
  return (fields, ← demand (do skipAnyValue? (← readColon? text)))

/-- Reads the fields of a record up to its closing parenthesis, or to a field without a comma
after it. `field` reads what follows the name of a field into the part of the record read so far.
Every field takes characters, so there are fewer fields than characters. -/
def readFields {α : Type}
    (field : String → α → List Char → Except ReadError (α × List Char))
    : (fuel : Nat) → α → List Char → Except ReadError (α × List Char)
  | 0, _, _ => .error .malformed
  | fuel + 1, fields, text => do
    match ← demand (skipBlanks text) with
    | [] => .error .malformed
    | ')' :: rest => .ok (fields, ')' :: rest)
    | text =>
      let (name, rest) ← demand (readName? text)
      let (fields, rest) ← field (String.ofList name) fields rest
      match ← demand (readComma? rest) with
      | (true, rest) => readFields field fuel fields rest
      | (false, rest) => .ok (fields, rest)

/-- Reads a record: perhaps the name of its type, and its fields in parentheses. `finish` makes
the record of the fields, unless one is missing. -/
def readRecord {α β : Type} (typeName : String) (empty : α)
    (field : String → α → List Char → Except ReadError (α × List Char))
    (finish : α → Except ReadError β) (text : List Char)
    : Except ReadError (β × List Char) := do
  let text := (readWord? typeName text).getD text
  match ← demand (skipBlanks text) with
  | '(' :: rest =>
    let (fields, rest) ← readFields field (rest.length + 1) empty rest
    let record ← finish fields
    return (record, ← demand (readText? ")" rest))
  | _ => .error .malformed

/-- The value of a field that has to be there. -/
def require {α : Type} (name : String) : Option α → Except ReadError α
  | some value => .ok value
  | none => .error (.missingField name)

--------------------------------------------------------------------------------
-- The records of a configuration
--------------------------------------------------------------------------------

/-- Reads the record with the heap's size. -/
def readHeap : List Char → Except ReadError (Nat × List Char) :=
  readRecord "HeapConfiguration" none
    (fun name size text =>
      match name with
      | "size" => readField "size" size readSize text
      | _ => skipField size text)
    (require "size")

/-- The fields of a logging record that were read. -/
structure PartialLogging where
  level : Option Level := none
  color : Option Bool := none

/-- The logging record with all its fields. -/
def PartialLogging.finish (fields : PartialLogging) : Except ReadError LoggingConfiguration := do
  let level ← require "level" fields.level
  let color ← require "color" fields.color
  return { level, color }

/-- Reads the value of a field and puts it into its place. -/
def readInto {α β : Type} (name : String) (seen : Option β)
    (value : List Char → Except ReadError (β × List Char))
    (place : Option β → α) (text : List Char)
    : Except ReadError (α × List Char) :=
  (readField name seen value text).map fun (read, rest) => (place read, rest)

/-- Reads a logging record. -/
def readLogging : List Char → Except ReadError (LoggingConfiguration × List Char) :=
  readRecord "LoggingConfiguration" {}
    (fun name fields text =>
      match name with
      | "level" =>
        readInto "level" fields.level (readVariant Level.name Level.all)
          (fun level => { fields with level }) text
      | "color" =>
        readInto "color" fields.color readBool (fun color => { fields with color }) text
      | _ => skipField fields text)
    PartialLogging.finish

/-- The fields of a configuration that were read. -/
structure PartialConfiguration where
  target : Option Target := none
  heapSize : Option Nat := none
  logging : Option LoggingConfiguration := none
  errno : Option Bool := none
  table : Option ChecksumTable := none

/-- The configuration with all its fields. -/
def PartialConfiguration.finish (fields : PartialConfiguration)
    : Except ReadError Configuration := do
  let target ← require "port" fields.target
  let heapSize ← require "heap" fields.heapSize
  let logging ← require "logging" fields.logging
  let errno ← require "errno" fields.errno
  let table ← require "checksum_table" fields.table
  return { target, heapSize, logging, errno, table }

/-- Reads the record of a configuration. -/
def readConfiguration : List Char → Except ReadError (Configuration × List Char) :=
  readRecord "Configuration" {}
    (fun name fields text =>
      match name with
      | "port" =>
        readInto "port" fields.target (readVariant Target.name Target.all)
          (fun target => { fields with target }) text
      | "heap" =>
        readInto "heap" fields.heapSize readHeap (fun heapSize => { fields with heapSize }) text
      | "logging" =>
        readInto "logging" fields.logging readLogging
          (fun logging => { fields with logging }) text
      | "errno" =>
        readInto "errno" fields.errno readBool (fun errno => { fields with errno }) text
      | "checksum_table" =>
        readInto "checksum_table" fields.table (readVariant ChecksumTable.name ChecksumTable.all)
          (fun table => { fields with table }) text
      | _ => skipField fields text)
    PartialConfiguration.finish

--------------------------------------------------------------------------------
-- Texts
--------------------------------------------------------------------------------

/-- The text after fixed pieces, with blanks allowed after each. -/
def readSpaced? : List String → List Char → Option (List Char)
  | [], text => some text
  | piece :: rest, text => do readSpaced? rest (← skipBlanks (← readText? piece text))

/-- Reads the names of extensions, of which there is at least one, with commas between them.
None of the extensions has an effect on a configuration. -/
def readExtensions? : (fuel : Nat) → List Char → Option (List Char)
  | 0, _ => none
  | fuel + 1, text => do
    let (name, rest) ← readName? text
    if ["unwrap_newtypes", "implicit_some"].contains (String.ofList name) then
      let (comma, rest) ← readComma? rest
      if rest.head?.any isNameRest then
        if comma then readExtensions? fuel rest else none
      else some rest
    else none

/-- The text after any number of attributes that enable extensions. -/
def skipAttributes? : (fuel : Nat) → List Char → Option (List Char)
  | 0, _ => none
  | fuel + 1, text => do
    match ← skipBlanks text with
    | '#' :: rest =>
      let rest ← readSpaced? ["#", "!", "[", "enable", "("] ('#' :: rest)
      let rest ← readExtensions? (rest.length + 1) rest
      skipAttributes? fuel (← readSpaced? [")", "]"] (← skipBlanks rest))
    | rest => some rest

/-- Reads a whole text as a configuration. -/
def parse (text : List Char) : Except ReadError Configuration := do
  let text ← demand (skipAttributes? (text.length + 1) text)
  let (configuration, rest) ← readConfiguration text
  match ← demand (skipBlanks rest) with
  | [] => return configuration
  | _ :: _ => .error .malformed

end Firmware.Notation
