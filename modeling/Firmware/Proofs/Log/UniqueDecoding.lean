import Firmware.Log.Serial
import Firmware.Proofs.Log.LineReader
import Firmware.Proofs.Log.SinkWrites

/-! The serial log as a record that can be read back.
On a sink that never fills up, a sequence of records adds the lines of those that are not filtered
(`SerialLog.foldl_log`). One reader recovers these records from the bytes
(`LogLine.read?_flatMap_lineBytes`), so different sequences of them never give the same log
(`SerialLog.uniquely_decodable`).
-/

namespace Firmware

/-- The texts of the record end where their line says that they end. -/
def LogRecord.Readable (record : LogRecord) : Prop :=
  '\n' ∉ record.format.toList
  ∧ '\n' ∉ record.module.toList
  ∧ ¬ [' ', '('] <:+: record.format.toList

instance (record : LogRecord) : Decidable record.Readable :=
  inferInstanceAs
    (Decidable ('\n' ∉ _ ∧ '\n' ∉ _ ∧ ¬ [' ', '('] <:+: record.format.toList))

namespace LogLine

--------------------------------------------------------------------------------
-- Many lines
--------------------------------------------------------------------------------

/-- The line of a record as it is written, with its newline. -/
def lineBytes (colored : Bool) (record : LogRecord) : List UInt8 :=
  Utf8.encode (text colored record ++ ['\n'])

/-- The records of which the bytes are the lines. -/
def read? (colored : Bool) (bytes : List UInt8) : Option (List LogRecord) :=
  (Utf8.decode? bytes).bind fun text => (text.splitOn '\n').dropLast.mapM (readLine colored)

theorem newline_notMem_tagText (colored : Bool) (severity : Severity)
    : '\n' ∉ tagText colored severity := by
  cases colored <;> cases severity <;> decide

theorem newline_notMem_text (colored : Bool) {record : LogRecord} (readable : record.Readable)
    : '\n' ∉ text colored record := by
  obtain ⟨formatLine, moduleLine, _⟩ := readable
  have numberLine : '\n' ∉ Decimal.signed record.location := by
    intro member
    rcases Decimal.isDigit_of_mem_signed member with minus | digit
    · cases minus
    · cases digit
  simp [text, newline_notMem_tagText, formatLine, moduleLine, numberLine]

theorem newline_notMem_encode {text : List Char} (oneLine : '\n' ∉ text)
    : 0x0A ∉ Utf8.encode text :=
  mt (Utf8.mem_encode_iff (show '\n'.toNat < 0x80 by decide)).mp oneLine

theorem flatMap_lineBytes (colored : Bool) (records : List LogRecord)
    : records.flatMap (lineBytes colored)
      = Utf8.encode (records.flatMap fun record => text colored record ++ ['\n']) := by
  rw [List.flatMap_def, List.flatMap_def, Utf8.encode_flatten, List.map_map]
  rfl

/-- The newlines cut the text into its lines, by induction on the records. -/
theorem splitOn_lines (colored : Bool) {records : List LogRecord}
    (readable : ∀ record ∈ records, record.Readable)
    : (records.flatMap fun record => text colored record ++ ['\n']).splitOn '\n'
      = records.map (text colored) ++ [[]] := by
  induction records with
  | nil => rfl
  | cons record rest ih =>
      have inLine : ∀ c ∈ text colored record, (c == '\n') = false := by
        intro c member
        apply beq_false_of_ne
        rintro rfl
        exact newline_notMem_text colored (readable record List.mem_cons_self) member
      have restLines := ih fun later member => readable later (List.mem_cons_of_mem record member)
      rw [List.flatMap_cons, List.append_assoc, List.singleton_append, List.splitOn,
        List.splitOnP_append_cons_of_forall_mem inLine '\n' (beq_self_eq_true _), List.map_cons,
        List.cons_append]
      exact congrArg (text colored record :: ·) restLines

theorem mapM_readLine (colored : Bool) {records : List LogRecord}
    (readable : ∀ record ∈ records, record.Readable)
    : (records.map (text colored)).mapM (readLine colored) = some records := by
  induction records with
  | nil => rfl
  | cons record rest ih =>
      have first := readLine_text colored (readable record List.mem_cons_self).2.2
      have others := ih fun later member => readable later (List.mem_cons_of_mem record member)
      rw [List.map_cons, List.mapM_cons, first, others]
      rfl

theorem read?_flatMap_lineBytes (colored : Bool) {records : List LogRecord}
    (readable : ∀ record ∈ records, record.Readable)
    : read? colored (records.flatMap (lineBytes colored)) = some records := by
  rw [read?, flatMap_lineBytes, Utf8.decode?_encode, Option.bind_some,
    splitOn_lines colored readable, List.dropLast_concat, mapM_readLine colored readable]

end LogLine

namespace SerialLog

--------------------------------------------------------------------------------
-- Logging
--------------------------------------------------------------------------------

/-- The records that reach the serial line. -/
def passed (settings : LogSettings) (records : List LogRecord) : List LogRecord :=
  records.filter fun record => settings.Passes record.severity

/-- The bytes that records add to the serial line. -/
def added (serial : SerialLog) (records : List LogRecord) : List UInt8 :=
  (records.foldl log serial).sink.record.drop serial.sink.record.length

theorem log_endless {serial : SerialLog} (endless : serial.sink.limit = none) (record : LogRecord)
    : (serial.log record).settings = serial.settings
      ∧ (serial.log record).sink.limit = none
      ∧ (serial.log record).sink.record
        = serial.sink.record
          ++ (passed serial.settings [record]).flatMap
              (LogLine.lineBytes serial.settings.colored) := by
  by_cases passes : serial.settings.Passes record.severity
  · obtain ⟨later, written, stillEndless, recorded⟩ := Sink.writePieces_endless endless
      (LogLine.ofRecord serial.settings.colored record)
    rw [LogLine.flatten_ofRecord] at recorded
    have logged : serial.log record = { serial with sink := later } := by
      rw [log, if_pos passes, written]
    rw [logged]
    refine ⟨rfl, stillEndless, ?_⟩
    simpa [passed, passes, LogLine.lineBytes] using recorded
  · have ignored : serial.log record = serial := if_neg passes
    rw [ignored]
    refine ⟨rfl, endless, ?_⟩
    simp [passed, passes]

/-- Records add their lines in order, by induction on the records. -/
theorem foldl_log {serial : SerialLog} (endless : serial.sink.limit = none)
    (records : List LogRecord)
    : (records.foldl log serial).sink.record
      = serial.sink.record
        ++ (passed serial.settings records).flatMap
            (LogLine.lineBytes serial.settings.colored) := by
  induction records generalizing serial with
  | nil => exact (List.append_nil _).symm
  | cons record rest ih =>
      obtain ⟨settings, stillEndless, recorded⟩ := log_endless endless record
      have both : passed serial.settings (record :: rest)
          = passed serial.settings [record] ++ passed serial.settings rest := by
        rw [passed, ← List.singleton_append, List.filter_append]
        rfl
      rw [List.foldl_cons, ih stillEndless, settings, recorded, both, List.flatMap_append,
        List.append_assoc]

theorem added_eq {serial : SerialLog} (endless : serial.sink.limit = none)
    (records : List LogRecord)
    : serial.added records
      = (passed serial.settings records).flatMap (LogLine.lineBytes serial.settings.colored) := by
  rw [added, foldl_log endless, List.drop_left]

theorem read?_added {serial : SerialLog} (endless : serial.sink.limit = none)
    {records : List LogRecord} (readable : ∀ record ∈ records, record.Readable)
    : LogLine.read? serial.settings.colored (serial.added records)
      = some (passed serial.settings records) := by
  rw [added_eq endless]
  apply LogLine.read?_flatMap_lineBytes
  exact fun record member => readable record (List.mem_of_mem_filter member)

--------------------------------------------------------------------------------
-- Main statement
--------------------------------------------------------------------------------

/-- Whatever the sink answers before it accepts a byte, the log adds the lines of the records that
are not filtered, and nothing else. One newline ends each line, the reader recovers exactly these
records, and any other log with the same bytes and the same colours recorded the same.
-/
theorem uniquely_decodable {serial : SerialLog} (endless : serial.sink.limit = none)
    {records : List LogRecord} (readable : ∀ record ∈ records, record.Readable)
    : let colored := serial.settings.colored
      let kept := records.filter fun record =>
        ¬ record.severity < serial.settings.level ∨ record.severity = .fatal
      (records.foldl log serial).sink.record = serial.sink.record ++ serial.added records
      ∧ serial.added records
        = (kept.flatMap fun record => Utf8.encode (LogLine.text colored record) ++ [0x0A])
      ∧ (∀ record ∈ kept, 0x0A ∉ Utf8.encode (LogLine.text colored record))
      ∧ LogLine.read? colored (serial.added records) = some kept
      ∧ ∀ (other : SerialLog) (otherRecords : List LogRecord),
          other.settings.colored = colored →
          other.sink.limit = none →
          (∀ record ∈ otherRecords, record.Readable) →
          serial.added records = other.added otherRecords →
          kept = passed other.settings otherRecords := by
  intro colored kept
  have added := added_eq endless records
  have reads := read?_added endless readable
  refine ⟨?appends, ?lines, ?oneLine, reads, ?unique⟩
  case appends => rw [added, foldl_log endless]
  case lines =>
    rw [added]
    apply List.flatMap_congr
    intro record _
    exact Utf8.encode_append _ _
  case oneLine =>
    intro record member
    have oneLine := LogLine.newline_notMem_text colored
      (readable record (List.mem_of_mem_filter member))
    exact LogLine.newline_notMem_encode oneLine
  case unique =>
    intro other otherRecords sameColours otherEndless otherReadable same
    have otherReads := read?_added otherEndless otherReadable
    rw [sameColours, ← same] at otherReads
    exact Option.some.inj (reads.symm.trans otherReads)

/-- Lines with a tag, a colon and parentheses in the module, an opening parenthesis in the format
and the least location, on a sink that is busy twice before each byte.
-/
theorem uniquely_decodable_of_tricky_texts
    : let serial : SerialLog :=
        { settings := ⟨.error, true⟩, sink := { record := [0x2E], delay := fun _ => 2 } }
      let tricky : LogRecord := ⟨.fatal, "at(0):", "é:(x:1)\u001b[0m [INFO] y (z:2)", -2147483648⟩
      let dropped : LogRecord := ⟨.warn, "late", "m", 1⟩
      let empty : LogRecord := ⟨.error, "", "", 0⟩
      let records := [tricky, dropped, empty, tricky]
      (∀ record ∈ records, record.Readable)
      ∧ LogLine.read? true (serial.added records) = some [tricky, empty, tricky] := by
  intro serial tricky dropped empty records
  have readable : ∀ record ∈ records, record.Readable := by decide
  have endless : serial.sink.limit = none := rfl
  exact ⟨readable, (uniquely_decodable endless readable).2.2.2.1⟩

end SerialLog

end Firmware
