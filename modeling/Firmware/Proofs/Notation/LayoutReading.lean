import Firmware.Notation.Reader
import Firmware.Proofs.Notation.Layouts

/-! How layouts are read.
A text is parsed as its layout, whatever blanks it has (`parse_of_spaced`): the fields are put into
their places one after another, and the first of them that cannot be put is the error. Every reader
is described by what it means and by what it leaves (`Reads`).
-/

namespace Firmware.Notation

--------------------------------------------------------------------------------
-- What fields stand for
--------------------------------------------------------------------------------

/-- The value of a field, if it is the first of its name. -/
def fill {α : Type} (word : Word) (seen : Option α) (value : Except ReadError α)
    : Except ReadError (Option α) :=
  if seen.isSome then .error (.duplicateField word.name) else value.map some

/-- The size that a numeral stands for. -/
def Numeral.size (numeral : Numeral) : Except ReadError Nat :=
  if numeral.value < addressSpace then .ok numeral.value else .error .malformed

/-- What a heap record stands for. -/
def heapSize (sizes : FieldList Numeral) : Except ReadError Nat :=
  sizes.fields.foldlM (fun seen size => fill .size seen size.size) none >>= require "size"

def LoggingField.put (soFar : PartialLogging) : LoggingField → Except ReadError PartialLogging
  | .level least =>
    (fill .level soFar.level (.ok least)).map fun level => { soFar with level }
  | .color flag =>
    (fill .color soFar.color (.ok flag)).map fun color => { soFar with color }

/-- What a logging record stands for. -/
def loggingConfiguration (list : FieldList LoggingField)
    : Except ReadError LoggingConfiguration :=
  list.fields.foldlM LoggingField.put {} >>= PartialLogging.finish

def Field.put (soFar : PartialConfiguration) : Field → Except ReadError PartialConfiguration
  | .port target =>
    (fill .port soFar.target (.ok target)).map fun target => { soFar with target }
  | .heap sizes =>
    (fill .heap soFar.heapSize (heapSize sizes)).map fun heapSize => { soFar with heapSize }
  | .logging fields =>
    (fill .logging soFar.logging (loggingConfiguration fields)).map
      fun logging => { soFar with logging }
  | .errno flag =>
    (fill .errno soFar.errno (.ok flag)).map fun errno => { soFar with errno }
  | .table kind =>
    (fill .table soFar.table (.ok kind)).map fun table => { soFar with table }

/-- What a layout stands for. -/
def Layout.configuration (layout : Layout) : Except ReadError Configuration :=
  layout.fields.foldlM Field.put {} >>= PartialConfiguration.finish

--------------------------------------------------------------------------------
-- What a reader does
--------------------------------------------------------------------------------

/-- A reader answers with the value that is meant and leaves the text that it should, or it
reports the error that is meant.
-/
inductive Reads {α : Type} (left : List Char → Prop)
    : Except ReadError α → Except ReadError (α × List Char) → Prop where
  | value {value : α} {rest : List Char} (leaves : left rest)
      : Reads left (.ok value) (.ok (value, rest))
  | error {error : ReadError} : Reads left (.error error) (.error error)

namespace Reads

variable {α β : Type} {left later : List Char → Prop} {meaning : Except ReadError α}
  {answer : Except ReadError (α × List Char)}

theorem bind {next : α → Except ReadError β}
    {proceed : α × List Char → Except ReadError (β × List Char)}
    (reads : Reads left meaning answer)
    (continues : ∀ value rest, left rest → Reads later (next value) (proceed (value, rest)))
    : Reads later (meaning >>= next) (answer >>= proceed) := by
  cases reads with
  | value leaves => exact continues _ _ leaves
  | error => exact .error

theorem map {place : α → β} (reads : Reads left meaning answer)
    : Reads left (meaning.map place) (answer.map fun read => (place read.1, read.2)) := by
  cases reads with
  | value leaves => exact .value leaves
  | error => exact .error

end Reads

--------------------------------------------------------------------------------
-- Separators and values
--------------------------------------------------------------------------------

variable {tokens after : List Token} {text : List Char} {mark : Mark}

theorem readName?_of_ready {word : Word} (ready : Ready (.word word :: .mark mark :: after) text)
    : ∃ rest,
        readName? text = some (word.name.toList, rest) ∧ Spaced (.mark mark :: after) rest := by
  obtain ⟨rest, rfl, more⟩ := ready
  exact ⟨rest, readName?_word word more.ends, more⟩

theorem readColon?_of_spaced (spaced : Spaced (.mark .colon :: tokens) text)
    : ∃ rest, readColon? text = some rest ∧ Ready tokens rest := by
  obtain ⟨_, skipped, rest, rfl, more⟩ := spaced.skipBlanks
  obtain ⟨later, skippedLater, ready⟩ := more.skipBlanks
  refine ⟨later, ?_, ready⟩
  rw [readColon?, skipped]
  exact skippedLater

theorem readComma?_of_comma (spaced : Spaced (.mark .comma :: tokens) text)
    : ∃ rest, readComma? text = some (true, rest) ∧ Spaced tokens rest := by
  obtain ⟨_, skipped, rest, rfl, more⟩ := spaced.skipBlanks
  obtain ⟨later, skippedLater, ready⟩ := more.skipBlanks
  refine ⟨later, ?_, ready.spaced⟩
  rw [readComma?, skipped]
  exact congrArg (Option.bind · fun rest => some (true, rest)) skippedLater

theorem readComma?_of_closing (spaced : Spaced (.mark .closing :: tokens) text)
    : ∃ rest, readComma? text = some (false, rest) ∧ Ready (.mark .closing :: tokens) rest := by
  obtain ⟨_, skipped, rest, rfl, more⟩ := spaced.skipBlanks
  refine ⟨_, ?_, rest, rfl, more⟩
  rw [readComma?, skipped]
  rfl

theorem reads_bool {flag : Bool} (ready : Ready (.word (.ofBool flag) :: after) text)
    : Reads (Spaced after) (.ok flag) (readBool text) := by
  obtain ⟨rest, rfl, more⟩ := ready
  cases flag <;> exact .value more

theorem reads_variant {α : Type} {name : α → String} {all : List α} {value : α} {word : Word}
    (found : (all.find? fun other => name other = word.name) = some value)
    (ready : Ready (.word word :: .mark mark :: after) text)
    : Reads (Spaced (.mark mark :: after)) (.ok value) (readVariant name all text) := by
  obtain ⟨rest, read, more⟩ := readName?_of_ready ready
  have answer : readVariant name all text = .ok (value, rest) := by
    simp only [readVariant, read, demand, bind, Except.bind, String.ofList_toList, found]
  rw [answer]
  exact .value more

theorem reads_size {numeral : Numeral} (ready : Ready (.numeral numeral :: .mark mark :: after) text)
    : Reads (Spaced (.mark mark :: after)) numeral.size (readSize text) := by
  obtain ⟨rest, rfl, more⟩ := ready
  rw [readSize, Token.text, numeral.readUnsigned?_text more.ends, Numeral.size]
  split
  · exact .value more
  · exact .error

--------------------------------------------------------------------------------
-- Records
--------------------------------------------------------------------------------

/-- The value of a field follows a colon, if the field is the first of its name. -/
theorem reads_field {α : Type} {word : Word} {seen : Option α} {meaning : Except ReadError α}
    {value : List Char → Except ReadError (α × List Char)}
    (spaced : Spaced (.mark .colon :: tokens) text)
    (reads : ∀ rest, Ready tokens rest → Reads (Spaced after) meaning (value rest))
    : Reads (Spaced after) (fill word seen meaning) (readField word.name seen value text) := by
  rw [fill, readField]
  split
  · exact .error
  · obtain ⟨rest, skipped, ready⟩ := readColon?_of_spaced spaced
    rw [skipped]
    exact (reads rest ready).map

theorem reads_into {α β : Type} {word : Word} {seen : Option β} {meaning : Except ReadError β}
    {value : List Char → Except ReadError (β × List Char)} {place : Option β → α}
    (spaced : Spaced (.mark .colon :: tokens) text)
    (reads : ∀ rest, Ready tokens rest → Reads (Spaced after) meaning (value rest))
    : Reads (Spaced after) ((fill word seen meaning).map place)
        (readInto word.name seen value place text) :=
  (reads_field spaced reads).map

section Records

variable {F P β : Type} {word : F → Word} {value : F → List Token}
  {put : P → F → Except ReadError P}
  {field : String → P → List Char → Except ReadError (P × List Char)}

/-- A function reads every field as it is written, whatever mark follows it. -/
def ReadsFields (word : F → Word) (value : F → List Token) (put : P → F → Except ReadError P)
    (field : String → P → List Char → Except ReadError (P × List Char))
    : Prop :=
  ∀ (one : F) (soFar : P) (mark : Mark) (after : List Token) (text : List Char),
    Spaced (.mark .colon :: (value one ++ .mark mark :: after)) text →
    Reads (Spaced (.mark mark :: after)) (put soFar one) (field (word one).name soFar text)

/-- The step of the loop at a field: its name, what follows the name, and perhaps a comma. -/
theorem readFields_word {first : Word} {rest : List Char}
    (skipped : skipBlanks text = some (first.name.toList ++ rest)) (ends : Ends rest) (fuel : Nat)
    (soFar : P)
    : readFields field (fuel + 1) soFar text
      = field first.name soFar rest >>= fun read => demand (readComma? read.2) >>= fun next =>
          if next.1 then readFields field fuel read.1 next.2 else .ok (read.1, next.2) := by
  obtain ⟨c, others, letters, starts, _⟩ := first.exists_cons
  have notClosing : c ≠ ')' := by
    rintro rfl
    cases starts
  have read := readName?_word first ends
  rw [letters, List.cons_append] at skipped read
  rw [readFields, skipped]
  simp only [demand, bind, Except.bind]
  split
  next closes => cases closes
  next closes => exact absurd (List.cons.inj closes).1 notClosing
  next =>
    simp only [read, ← letters, String.ofList_toList]
    cases field first.name soFar rest with
    | error => rfl
    | ok now =>
        obtain ⟨soFar, behind⟩ := now
        cases comma : readComma? behind with
        | none => simp only [comma]
        | some next =>
            obtain ⟨found, later⟩ := next
            cases found <;> simp [comma]

/-- The loop takes the fields one by one, by induction on them, and stops at the closing
parenthesis.
-/
theorem reads_fields (readsFields : ReadsFields word value put field) (trailing : Bool)
    (fields : List F) {fuel : Nat} (enough : fields.length < fuel) (soFar : P)
    (spaced : Spaced (listed word value trailing fields ++ after) text)
    : Reads (Ready (.mark .closing :: after)) (fields.foldlM put soFar)
        (readFields field fuel soFar text) := by
  induction fields generalizing fuel soFar text with
  | nil =>
      obtain ⟨fuel, rfl⟩ := Nat.exists_eq_add_one_of_ne_zero (Nat.ne_of_gt enough)
      obtain ⟨_, skipped, rest, rfl, more⟩ := spaced.skipBlanks
      rw [readFields, skipped]
      exact .value ⟨rest, rfl, more⟩
  | cons one fields ih =>
      obtain ⟨fuel, rfl⟩ := Nat.exists_eq_add_one_of_ne_zero (Nat.ne_zero_of_lt enough)
      obtain ⟨rfl, last⟩ | others := listed_cons word value trailing one fields
      · rw [last, List.cons_append, List.cons_append, List.append_assoc] at spaced
        obtain ⟨_, skipped, rest, rfl, more⟩ := spaced.skipBlanks
        rw [readFields_word skipped more.ends, List.foldlM_cons]
        refine (readsFields one soFar _ _ _ more).bind fun now behind ready => ?_
        obtain ⟨later, comma, atClosing⟩ := readComma?_of_closing ready
        rw [comma]
        exact .value atClosing
      · rw [others, List.cons_append, List.cons_append, List.append_assoc] at spaced
        obtain ⟨_, skipped, rest, rfl, more⟩ := spaced.skipBlanks
        rw [readFields_word skipped more.ends, List.foldlM_cons]
        refine (readsFields one soFar _ _ _ more).bind fun now behind ready => ?_
        obtain ⟨later, comma, spacedOthers⟩ := readComma?_of_comma ready
        rw [comma]
        exact ih (Nat.lt_of_succ_lt_succ enough) now spacedOthers

/-- A record is read as its fields, in the order in which they are written. -/
theorem reads_record {typeName : String} {empty : P} {finish : P → Except ReadError β}
    (unnamed : ∀ rest, readWord? typeName ('(' :: rest) = none)
    (readsFields : ReadsFields word value put field) {list : FieldList F}
    (ready : Ready (list.tokens word value ++ after) text)
    : Reads (Spaced after) (list.fields.foldlM put empty >>= finish)
        (readRecord typeName empty field finish text) := by
  obtain ⟨rest, rfl, more⟩ := ready
  have solid : skipBlanks ('(' :: rest) = some ('(' :: rest) := skipBlanks_of_solid (by decide) rest
  have enough : list.fields.length < rest.length + 1 := by
    have bound
        : (listed word value list.trailing list.fields ++ after).length ≤ rest.length :=
      more.length_le
    have listedBound := length_le_listed word value list.trailing list.fields
    rw [List.length_append] at bound
    omega
  have looped := reads_fields readsFields list.trailing list.fields enough empty more
  change Reads _ _ (readRecord typeName empty field finish ('(' :: rest))
  rw [readRecord, unnamed, Option.getD_none, solid]
  refine looped.bind fun soFar behind atClosing => ?_
  obtain ⟨rest, rfl, more⟩ := atClosing
  change Reads _ (finish soFar) (finish soFar >>= fun record => .ok (record, rest))
  cases finish soFar with
  | ok record => exact .value more
  | error => exact .error

end Records

--------------------------------------------------------------------------------
-- Configurations
--------------------------------------------------------------------------------

theorem reads_heap {sizes : FieldList Numeral}
    (ready : Ready ((Field.heap sizes).value ++ after) text)
    : Reads (Spaced after) (heapSize sizes) (readHeap text) := by
  refine reads_record (fun _ => rfl) ?_ ready
  intro size seen mark after text spaced
  exact reads_field spaced fun rest ready => reads_size ready

theorem reads_logging {fields : FieldList LoggingField}
    (ready : Ready ((Field.logging fields).value ++ after) text)
    : Reads (Spaced after) (loggingConfiguration fields) (readLogging text) := by
  refine reads_record (fun _ => rfl) ?_ ready
  intro field soFar mark after text spaced
  cases field with
  | level least =>
      exact reads_into spaced fun rest ready =>
        reads_variant (by cases least <;> rfl) ready
  | color flag => exact reads_into spaced fun rest ready => reads_bool ready

theorem reads_configuration {layout : Layout} (ready : Ready (layout.tokens ++ after) text)
    : Reads (Spaced after) layout.configuration (readConfiguration text) := by
  refine reads_record (fun _ => rfl) ?_ ready
  intro field soFar mark after text spaced
  cases field with
  | port target =>
      exact reads_into spaced fun rest ready => reads_variant (by cases target <;> rfl) ready
  | heap sizes => exact reads_into spaced fun rest ready => reads_heap ready
  | logging fields => exact reads_into spaced fun rest ready => reads_logging ready
  | errno flag => exact reads_into spaced fun rest ready => reads_bool ready
  | table kind =>
      exact reads_into spaced fun rest ready => reads_variant (by cases kind <;> rfl) ready

/-- A text is parsed as its layout, wherever it has blanks. -/
theorem parse_of_spaced {layout : Layout} (spaced : Spaced layout.tokens text)
    : parse text = layout.configuration := by
  obtain ⟨_, skipped, rest, rfl, more⟩ := spaced.skipBlanks
  have ready : Ready (layout.tokens ++ []) ('(' :: rest) := by
    rw [List.append_nil]
    exact ⟨rest, rfl, more⟩
  have atRecord : skipAttributes? (text.length + 1) text = some ('(' :: rest) := by
    rw [skipAttributes?, skipped]
    rfl
  have reads := reads_configuration ready
  rw [parse, atRecord]
  change (readConfiguration ('(' :: rest) >>= _) = _
  revert reads
  generalize layout.configuration = meaning, readConfiguration ('(' :: rest) = answer
  rintro (⟨⟨atEnd⟩⟩ | _)
  · change (demand (skipBlanks _) >>= _) = _
    rw [atEnd.skipBlanks]
    rfl
  · rfl

end Firmware.Notation
