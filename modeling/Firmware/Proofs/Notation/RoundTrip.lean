import Firmware.Proofs.Build.Acceptance
import Firmware.Proofs.Notation.LayoutReading

/-! Configurations survive being written and read.
A layout stands for a configuration exactly if it declares it (`Layout.configuration_eq_ok_iff`).
From left to right, every place of a record that was read holds the one field that belongs to it
(`IsSlot`). From right to left, fields may be put in any order (`foldlM_perm`), so they may be put
in the order in which they are written.
-/

namespace Firmware.Notation

--------------------------------------------------------------------------------
-- Places of a record
--------------------------------------------------------------------------------

section Slots

variable {F P G α : Type} {put : P → F → Except ReadError P} {get : P → Option α}
  {raw : F → Option G} {resolve : G → Except ReadError α}

theorem fill_eq_ok_iff {word : Word} {seen now : Option α} {value : Except ReadError α}
    : fill word seen value = .ok now
      ↔ seen = none ∧ ∃ read, value = .ok read ∧ some read = now := by
  cases seen <;> cases value <;> simp [fill, Except.map]

/-- A field is put into its place exactly if its place is empty and its value can be read. -/
theorem map_fill_eq_ok_iff {word : Word} {seen : Option α} {value : Except ReadError α}
    {place : Option α → P} {after : P}
    : (fill word seen value).map place = .ok after
      ↔ seen = none ∧ ∃ read, value = .ok read ∧ place (some read) = after := by
  cases seen <;> cases value <;> simp [fill, Except.map]

/-- Putting a field fills its slot, which was empty, or leaves the slot to which it does not
belong.
-/
def IsSlot (put : P → F → Except ReadError P) (get : P → Option α) (raw : F → Option G)
    (resolve : G → Except ReadError α)
    : Prop :=
  ∀ ⦃before : P⦄ ⦃field : F⦄ ⦃after : P⦄, put before field = .ok after →
    (get before).toList.map .ok ++ (raw field).toList.map resolve = (get after).toList.map .ok

/-- A slot holds the fields that belong to it, by induction on the fields. -/
theorem IsSlot.fields (slot : IsSlot put get raw resolve) {fields : List F} {before after : P}
    (read : fields.foldlM put before = .ok after)
    : (get before).toList.map .ok ++ (fields.filterMap raw).map resolve
      = (get after).toList.map .ok := by
  induction fields generalizing before with
  | nil =>
      cases read
      exact List.append_nil _
  | cons field fields ih =>
      rw [List.foldlM_cons, bind_eq_ok_iff] at read
      obtain ⟨now, first, others⟩ := read
      rw [← ih others, ← slot first, List.append_assoc, ← List.map_append]
      congr 2
      cases found : raw field with
      | none => rw [List.filterMap_cons_none found]; rfl
      | some value => rw [List.filterMap_cons_some found]; rfl

/-- A slot that was filled was given one field. -/
theorem IsSlot.unique (slot : IsSlot put get raw resolve) {fields : List F} {before after : P}
    {value : α} (read : fields.foldlM put before = .ok after) (empty : get before = none)
    (filled : get after = some value)
    : ∃ field, fields.filterMap raw = [field] ∧ resolve field = .ok value := by
  have held := slot.fields read
  rw [empty, filled] at held
  simpa [List.map_eq_singleton_iff] using held

/-- Two fields may be put in either order. -/
def Commutes (put : P → F → Except ReadError P) : Prop :=
  ∀ ⦃before now after : P⦄ ⦃first second : F⦄,
    put before first = .ok now → put now second = .ok after →
    ∃ other, put before second = .ok other ∧ put other first = .ok after

/-- The order of the fields does not matter, by induction on the permutation. -/
theorem foldlM_perm (commutes : Commutes put) {fields others : List F} (perm : fields.Perm others)
    {before after : P} (read : fields.foldlM put before = .ok after)
    : others.foldlM put before = .ok after := by
  induction perm generalizing before with
  | nil => exact read
  | cons field _ ih =>
      rw [List.foldlM_cons, bind_eq_ok_iff] at read ⊢
      obtain ⟨now, first, later⟩ := read
      exact ⟨now, first, ih later⟩
  | swap first second fields =>
      simp only [List.foldlM_cons, bind_eq_ok_iff] at read ⊢
      obtain ⟨now, one, next, two, later⟩ := read
      obtain ⟨other, twoFirst, oneNext⟩ := commutes one two
      exact ⟨other, twoFirst, next, oneNext, later⟩
  | trans _ _ ihFirst ihSecond => exact ihSecond (ihFirst read)

end Slots

--------------------------------------------------------------------------------
-- What a layout declares
--------------------------------------------------------------------------------

theorem require_eq_ok_iff {α : Type} {name : String} {seen : Option α} {value : α}
    : require name seen = .ok value ↔ seen = some value := by
  cases seen <;> simp [require]

theorem Numeral.size_eq_ok_iff {numeral : Numeral} {size : Nat}
    : numeral.size = .ok size ↔ numeral.value = size ∧ size < addressSpace := by
  unfold Numeral.size
  split
  next small =>
    rw [Except.ok.injEq]
    exact ⟨fun same => ⟨same, same ▸ small⟩, fun declared => declared.1⟩
  next large =>
    refine iff_of_false nofun ?_
    rintro ⟨rfl, small⟩
    exact large small

theorem Numeral.isSlot_size
    : IsSlot (fun seen (numeral : Numeral) => fill .size seen numeral.size) id some Numeral.size := by
  intro before numeral after put
  obtain ⟨empty, read, found, rfl⟩ := fill_eq_ok_iff.mp put
  subst empty
  simp [found]

/-- A heap record stands for the size that it gives. -/
theorem heapSize_eq_ok_iff {list : FieldList Numeral} {size : Nat}
    : heapSize list = .ok size ↔ list.DeclaresSize size := by
  rw [heapSize, bind_eq_ok_iff]
  constructor
  · rintro ⟨seen, read, found⟩
    obtain ⟨numeral, only, value⟩ :=
      Numeral.isSlot_size.unique read rfl (require_eq_ok_iff.mp found)
    exact ⟨numeral, by simpa using only, Numeral.size_eq_ok_iff.mp value⟩
  · rintro ⟨numeral, only, declared⟩
    refine ⟨some size, ?_, rfl⟩
    rw [only, List.foldlM_cons, Numeral.size_eq_ok_iff.mpr declared]
    rfl

namespace LoggingField

def level? : LoggingField → Option Level
  | .level least => some least
  | .color _ => none

def color? : LoggingField → Option Bool
  | .level _ => none
  | .color flag => some flag

-- each place takes the fields of one kind, and keeps what it has when another kind is put
theorem isSlot_level : IsSlot LoggingField.put (·.level) level? .ok := by
  intro before field after put
  cases field <;> obtain ⟨empty, read, found, rfl⟩ := map_fill_eq_ok_iff.mp put <;>
    simp_all [level?]

theorem isSlot_color : IsSlot LoggingField.put (·.color) color? .ok := by
  intro before field after put
  cases field <;> obtain ⟨empty, read, found, rfl⟩ := map_fill_eq_ok_iff.mp put <;>
    simp_all [color?]

/-- Fields of two kinds have two places, and of one kind the second is refused. -/
theorem commutes : Commutes LoggingField.put := by
  intro before now after first second putFirst putSecond
  cases first <;> cases second <;> simp only [put, map_fill_eq_ok_iff] at putFirst putSecond ⊢ <;>
    grind

theorem perm_slots (fields : List LoggingField)
    : fields.Perm ((fields.filterMap level?).map .level ++ (fields.filterMap color?).map .color) := by
  induction fields with
  | nil => exact .nil
  | cons field fields ih =>
      cases field with
      | level least => exact ih.cons _
      | color flag => exact (ih.cons _).trans List.perm_middle.symm

end LoggingField

theorem PartialLogging.finish_eq_ok_iff {fields : PartialLogging} {logging : LoggingConfiguration}
    : fields.finish = .ok logging
      ↔ fields.level = some logging.level ∧ fields.color = some logging.color := by
  simp only [PartialLogging.finish, bind_eq_ok_iff, require_eq_ok_iff]
  constructor
  · rintro ⟨level, levelSeen, color, colorSeen, ⟨⟩⟩
    exact ⟨levelSeen, colorSeen⟩
  · rintro ⟨levelSeen, colorSeen⟩
    exact ⟨_, levelSeen, _, colorSeen, rfl⟩

/-- A logging record stands for the level and the colour that it gives. -/
theorem loggingConfiguration_eq_ok_iff {list : FieldList LoggingField}
    {logging : LoggingConfiguration}
    : loggingConfiguration list = .ok logging ↔ list.DeclaresLogging logging := by
  rw [loggingConfiguration, bind_eq_ok_iff]
  constructor
  · rintro ⟨fields, read, finished⟩
    obtain ⟨levelSeen, colorSeen⟩ := PartialLogging.finish_eq_ok_iff.mp finished
    obtain ⟨level, levels, ⟨⟩⟩ := LoggingField.isSlot_level.unique read rfl levelSeen
    obtain ⟨color, colors, ⟨⟩⟩ := LoggingField.isSlot_color.unique read rfl colorSeen
    have slots := LoggingField.perm_slots list.fields
    rwa [levels, colors] at slots
  · intro declared
    let fields : PartialLogging := { level := some logging.level, color := some logging.color }
    exact ⟨fields, foldlM_perm LoggingField.commutes declared.symm rfl, rfl⟩

namespace Field

def port? : Field → Option Target
  | .port target => some target
  | .heap _ | .logging _ | .errno _ | .table _ => none

def heap? : Field → Option (FieldList Numeral)
  | .heap sizes => some sizes
  | .port _ | .logging _ | .errno _ | .table _ => none

def logging? : Field → Option (FieldList LoggingField)
  | .logging fields => some fields
  | .port _ | .heap _ | .errno _ | .table _ => none

def errno? : Field → Option Bool
  | .errno flag => some flag
  | .port _ | .heap _ | .logging _ | .table _ => none

def table? : Field → Option ChecksumTable
  | .table kind => some kind
  | .port _ | .heap _ | .logging _ | .errno _ => none

-- each place takes the fields of one kind, and keeps what it has when another kind is put
theorem isSlot_port : IsSlot Field.put (·.target) port? .ok := by
  intro before field after put
  cases field <;> obtain ⟨empty, read, found, rfl⟩ := map_fill_eq_ok_iff.mp put <;>
    simp_all [port?]

theorem isSlot_heap : IsSlot Field.put (·.heapSize) heap? heapSize := by
  intro before field after put
  cases field <;> obtain ⟨empty, read, found, rfl⟩ := map_fill_eq_ok_iff.mp put <;>
    simp_all [heap?]

theorem isSlot_logging : IsSlot Field.put (·.logging) logging? loggingConfiguration := by
  intro before field after put
  cases field <;> obtain ⟨empty, read, found, rfl⟩ := map_fill_eq_ok_iff.mp put <;>
    simp_all [logging?]

theorem isSlot_errno : IsSlot Field.put (·.errno) errno? .ok := by
  intro before field after put
  cases field <;> obtain ⟨empty, read, found, rfl⟩ := map_fill_eq_ok_iff.mp put <;>
    simp_all [errno?]

theorem isSlot_table : IsSlot Field.put (·.table) table? .ok := by
  intro before field after put
  cases field <;> obtain ⟨empty, read, found, rfl⟩ := map_fill_eq_ok_iff.mp put <;>
    simp_all [table?]

/-- Fields of two kinds have two places, and of one kind the second is refused. -/
theorem commutes : Commutes Field.put := by
  intro before now after first second putFirst putSecond
  cases first <;> cases second <;> simp only [put, map_fill_eq_ok_iff] at putFirst putSecond ⊢ <;>
    grind

theorem perm_slots (fields : List Field)
    : fields.Perm
        ((fields.filterMap port?).map .port
          ++ ((fields.filterMap heap?).map .heap
            ++ ((fields.filterMap logging?).map .logging
              ++ ((fields.filterMap errno?).map .errno
                ++ (fields.filterMap table?).map .table)))) := by
  induction fields with
  | nil => exact .nil
  | cons field fields ih =>
      refine (ih.cons field).trans ?_
      cases field with
      | port target => exact .refl _
      | heap sizes => exact List.perm_middle.symm
      | logging list =>
          refine List.perm_middle.symm.trans (.append_left _ ?_)
          exact List.perm_middle.symm
      | errno flag =>
          refine List.perm_middle.symm.trans (.append_left _ ?_)
          refine List.perm_middle.symm.trans (.append_left _ ?_)
          exact List.perm_middle.symm
      | table kind =>
          refine List.perm_middle.symm.trans (.append_left _ ?_)
          refine List.perm_middle.symm.trans (.append_left _ ?_)
          refine List.perm_middle.symm.trans (.append_left _ ?_)
          exact List.perm_middle.symm

end Field

theorem PartialConfiguration.finish_eq_ok_iff {fields : PartialConfiguration}
    {configuration : Configuration}
    : fields.finish = .ok configuration
      ↔ fields.target = some configuration.target
        ∧ fields.heapSize = some configuration.heapSize
        ∧ fields.logging = some configuration.logging
        ∧ fields.errno = some configuration.errno
        ∧ fields.table = some configuration.table := by
  simp only [PartialConfiguration.finish, bind_eq_ok_iff, require_eq_ok_iff]
  constructor
  · rintro ⟨target, targetSeen, size, sizeSeen, logging, loggingSeen, errno, errnoSeen, table,
      tableSeen, ⟨⟩⟩
    exact ⟨targetSeen, sizeSeen, loggingSeen, errnoSeen, tableSeen⟩
  · rintro ⟨targetSeen, sizeSeen, loggingSeen, errnoSeen, tableSeen⟩
    exact ⟨_, targetSeen, _, sizeSeen, _, loggingSeen, _, errnoSeen, _, tableSeen, rfl⟩

/-- A layout stands for the configuration that it declares. -/
theorem Layout.configuration_eq_ok_iff {layout : Layout} {configuration : Configuration}
    : layout.configuration = .ok configuration ↔ layout.Declares configuration := by
  rw [Layout.configuration, bind_eq_ok_iff]
  constructor
  · rintro ⟨fields, read, finished⟩
    obtain ⟨targetSeen, sizeSeen, loggingSeen, errnoSeen, tableSeen⟩ :=
      PartialConfiguration.finish_eq_ok_iff.mp finished
    obtain ⟨target, targets, ⟨⟩⟩ := Field.isSlot_port.unique read rfl targetSeen
    obtain ⟨heap, heaps, size⟩ := Field.isSlot_heap.unique read rfl sizeSeen
    obtain ⟨list, lists, logging⟩ := Field.isSlot_logging.unique read rfl loggingSeen
    obtain ⟨errno, errnos, ⟨⟩⟩ := Field.isSlot_errno.unique read rfl errnoSeen
    obtain ⟨table, tables, ⟨⟩⟩ := Field.isSlot_table.unique read rfl tableSeen
    have slots := Field.perm_slots layout.fields
    rw [targets, heaps, lists, errnos, tables] at slots
    exact ⟨heap, list, slots, heapSize_eq_ok_iff.mp size, loggingConfiguration_eq_ok_iff.mp logging⟩
  · rintro ⟨heap, list, perm, size, logging⟩
    let fields : PartialConfiguration :=
      { target := some configuration.target
        heapSize := some configuration.heapSize
        logging := some configuration.logging
        errno := some configuration.errno
        table := some configuration.table }
    refine ⟨fields, foldlM_perm Field.commutes perm.symm ?_, rfl⟩
    simp only [List.foldlM_cons, Field.put, heapSize_eq_ok_iff.mpr size,
      loggingConfiguration_eq_ok_iff.mpr logging]
    rfl

--------------------------------------------------------------------------------
-- Texts
--------------------------------------------------------------------------------

theorem exists_error_of_undeclared {layout : Layout}
    (undeclared : ∀ configuration, ¬ layout.Declares configuration)
    : ∃ error, layout.configuration = .error error := by
  cases meaning : layout.configuration with
  | error error => exact ⟨error, rfl⟩
  | ok configuration =>
      exact absurd (Layout.configuration_eq_ok_iff.mp meaning) (undeclared configuration)

/-- Configurations survive being written and read. A configuration is written as a layout that
declares it, and a text of any layout, with blanks and comments wherever it likes, is read as what
the layout declares. In particular the order of the fields, blanks and trailing commas do not
matter. A text in which a field is missing or repeated, or in which a size is out of range, is
refused.
-/
theorem configurations_round_trip
    : (∀ configuration : Configuration, configuration.heapSize < addressSpace →
        let layout := Layout.written configuration
        layout.Declares configuration
        ∧ (write configuration).toList = layout.tokens.flatMap Token.text
        ∧ parse (write configuration).toList = .ok configuration)
      ∧ ∀ (layout : Layout) (text : List Char), Spaced layout.tokens text →
          (∀ configuration, parse text = .ok configuration ↔ layout.Declares configuration)
          ∧ (∀ name ∈ fieldNames, layout.names.count name ≠ 1 → ∃ error, parse text = .error error)
          ∧ ∀ size ∈ layout.sizes, addressSpace ≤ size.value →
              ∃ error, parse text = .error error := by
  refine ⟨?written, ?layouts⟩
  case written =>
    intro configuration inRange layout
    have declares : layout.Declares configuration := Layout.declares_written inRange
    have text := toList_write configuration
    refine ⟨declares, text, ?_⟩
    rw [text, parse_of_spaced (.render layout.tokens)]
    exact Layout.configuration_eq_ok_iff.mpr declares
  case layouts =>
    intro layout text spaced
    rw [parse_of_spaced spaced]
    refine ⟨fun configuration => Layout.configuration_eq_ok_iff, ?count, ?range⟩
    case count =>
      intro name known notOnce
      refine exists_error_of_undeclared fun configuration declares => notOnce ?_
      rw [declares.names.count_eq, count_fieldNames name known]
    case range =>
      intro size given large
      refine exists_error_of_undeclared fun configuration declares => ?_
      exact Nat.not_lt.mpr large (declares.sizes size given)

/-- A text with other fields first, with comments, and with an integer in another base; one that
gives no colour; and one whose size is just out of range.
-/
theorem configurations_round_trip_of_comments
    : let separated : Numeral :=
        { base := .hexadecimal
          first := '1'
          rest := ['_', 'f']
          first_isDigit := rfl
          rest_isDigit :=
            List.forall_mem_cons.mpr ⟨.inl rfl, List.forall_mem_singleton.mpr (.inr rfl)⟩ }
      let heap : FieldList Numeral := { fields := [separated], trailing := true }
      let layout : Layout :=
        { fields :=
            [
              .errno true,
              .table .static,
              .logging { fields := [.color false, .level .debug], trailing := true },
              .heap heap,
              .port .stm32f446
            ],
          trailing := true }
      let text :=
        "/*/**/*/(errno:true,// set\n\tchecksum_table:Static,".toList
          ++ "logging:(color:false,level:Debug,),heap:(size:0x1_f,),port:Stm32F446,)//".toList
      let configuration : Configuration :=
        { target := .stm32f446
          heapSize := 31
          logging := { level := .debug, color := false }
          errno := true
          table := .static }
      let largest := { configuration with heapSize := addressSpace - 1 }
      let colourless : Layout :=
        { fields :=
            [
              .port .host,
              .heap heap,
              .logging { fields := [.level .info] },
              .errno false,
              .table .dynamic
            ] }
      let large : Layout :=
        { fields :=
            [
              .port .host,
              .heap { fields := [.ofNat addressSpace] },
              .logging { fields := [.level .info, .color true] },
              .errno false,
              .table .dynamic
            ] }
      Spaced layout.tokens text
      ∧ parse text = .ok configuration
      ∧ parse (write largest).toList = .ok largest
      ∧ (∃ error, parse (colourless.tokens.flatMap Token.text) = .error error)
      ∧ ∃ error, parse (large.tokens.flatMap Token.text) = .error error := by
  intro separated heap layout text configuration largest colourless large
  have before : Blanks "/*/**/*/".toList := .block (.nested .close .close) .nil
  have between : Blanks "// set\n\t".toList :=
    @Blanks.line " set".toList ['\t'] (by decide) (.blank rfl .nil)
  have atEnd : EndBlanks "//".toList := @EndBlanks.line [] [] .nil (by decide)
  have spaced : Spaced layout.tokens text := by
    have pieces := (Spaced.atEnd atEnd).render_append (layout.tokens.drop 5)
      |>.append_left between |>.render_append (layout.tokens.take 5) |>.append_left before
    have whole
        : text
          = "/*/**/*/".toList
            ++ ((layout.tokens.take 5).flatMap Token.text
              ++ ("// set\n\t".toList
                ++ ((layout.tokens.drop 5).flatMap Token.text ++ "//".toList))) := by
      decide
    rwa [List.append_nil, List.take_append_drop, ← whole] at pieces
  have declares : layout.Declares configuration :=
    ⟨heap, { fields := [.color false, .level .debug], trailing := true }, by decide,
      ⟨_, rfl, rfl, by decide⟩, .swap _ _ _⟩
  obtain ⟨written, layouts⟩ := configurations_round_trip
  have inRange : largest.heapSize < addressSpace := by decide
  have once : colourless.names.count "color" ≠ 1 := by decide
  have outOfRange : addressSpace ≤ (Numeral.ofNat addressSpace).value :=
    Nat.le_of_eq (Numeral.value_ofNat addressSpace).symm
  refine ⟨spaced, ((layouts layout text spaced).1 configuration).mpr declares,
    (written largest inRange).2.2, ?_, ?_⟩
  · exact (layouts colourless _ (.render colourless.tokens)).2.1 "color" (by decide) once
  · exact (layouts large _ (.render large.tokens)).2.2 _ (List.mem_singleton.mpr rfl) outOfRange

end Firmware.Notation
