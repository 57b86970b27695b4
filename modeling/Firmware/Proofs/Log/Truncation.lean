import Firmware.Log.Serial
import Firmware.Proofs.Log.SinkWrites
import Mathlib.Data.List.TakeDrop

/-! Sinks that fill up or are busy cut a log short, and do nothing else to it.
An operation on the log is one write of the bytes it stands for (`SerialLog.perform_eq`), so a sink
with a limit keeps a prefix of what an endless one records, whatever follows the first failure
(`SerialLog.Truncates.perform`, `SerialLog.faults_truncate`).
-/

namespace Firmware.SerialLog

--------------------------------------------------------------------------------
-- The bytes of an operation
--------------------------------------------------------------------------------

/-- The bytes of the line that names a peripheral; none if it is filtered. -/
def announcement (settings : LogSettings) (uart : DebugUart) : List UInt8 :=
  if Severity.info < settings.level then []
  else (LogLine.ofUart settings.colored uart).flatten

/-- The bytes that an operation has to write. `board` is the peripheral of the board. -/
def Operation.bytes (settings : LogSettings) (board : Option DebugUart)
    : Operation → List UInt8
  | .log record =>
      if settings.Passes record.severity then
        (LogLine.ofRecord settings.colored record).flatten
      else []
  | .announce => board.toList.flatMap (announcement settings)
  | .announceUart uart => announcement settings uart
  | .text string => Utf8.ofString string
  | .byte value => [value]
  | .formatted string severity pin number => (formattedPieces string severity pin number).flatten
  | .composed texts => texts.flatMap Utf8.ofString

/-- Whether an operation reports what became of its bytes. The operations of the log do not. -/
def Operation.reports : Operation → Bool
  | .log _ | .announce | .announceUart _ => false
  | .text _ | .byte _ | .formatted .. | .composed _ => true

theorem announceUart_eq (serial : SerialLog) (uart : DebugUart)
    : serial.announceUart uart
      = { serial with sink := (serial.sink.write (announcement serial.settings uart)).2 } := by
  unfold announceUart announcement
  split
  · rfl
  · rw [Sink.writePieces_eq_write]

/-- An operation is one write of its bytes, by cases on the operation. -/
theorem perform_eq (board : Option DebugUart) (serial : SerialLog) (operation : Operation)
    : serial.perform board operation
      = let written := serial.sink.write (operation.bytes serial.settings board)
        (if operation.reports then some written.1 else none,
          { serial with sink := written.2 }) := by
  cases operation with
  | log record =>
      simp only [perform, log, Operation.bytes, Operation.reports]
      split
      · rw [Sink.writePieces_eq_write]
        rfl
      · rfl
  | announce =>
      cases board with
      | none => rfl
      | some uart =>
          simp only [perform, announce, announceUart_eq, Operation.bytes, Operation.reports,
            Option.toList_some, List.flatMap_cons, List.flatMap_nil, List.append_nil]
          rfl
  | announceUart uart =>
      simp only [perform, announceUart_eq]
      rfl
  | text text => rfl
  | byte byte =>
      simp only [perform, perform.write, Operation.bytes, Operation.reports, Sink.write]
      cases serial.sink.writeByte byte with
      | mk result later => cases result <;> rfl
  | formatted text severity pin number =>
      simp only [perform, Sink.writePieces_eq_write]
      rfl
  | composed texts =>
      simp only [perform, Sink.writePieces_eq_write, Operation.bytes, List.flatMap_def]
      rfl

--------------------------------------------------------------------------------
-- Runs
--------------------------------------------------------------------------------

/-- The log after operations. -/
def after (board : Option DebugUart) (serial : SerialLog) (operations : List Operation)
    : SerialLog :=
  operations.foldl (fun serial operation => (serial.perform board operation).2) serial

/-- An operation at the end of a run acts on the log that the others leave. -/
theorem run_append_singleton (board : Option DebugUart) (serial : SerialLog)
    (operations : List Operation) (operation : Operation)
    : serial.run board (operations ++ [operation])
      = serial.run board operations ++ [(serial.after board operations).perform board operation]
    := by
  induction operations generalizing serial with
  | nil => rfl
  | cons first rest ih =>
      simp only [List.cons_append, run, ih]
      rfl

/-- A log without a limit records the bytes of all operations, by induction on them. -/
theorem record_after_endless {serial : SerialLog} (endless : serial.sink.limit = none)
    (board : Option DebugUart) (operations : List Operation)
    : (serial.after board operations).sink.record
      = serial.sink.record ++ operations.flatMap (Operation.bytes serial.settings board) := by
  induction operations generalizing serial with
  | nil => exact (List.append_nil _).symm
  | cons operation rest ih =>
      have written := serial.sink.written_write (operation.bytes serial.settings board)
      have record := written.record
      rw [Sink.taken_endless endless] at record
      have next := @ih (serial.perform board operation).2 <| by
        rw [perform_eq]
        exact written.limit.trans endless
      rw [perform_eq] at next
      rw [after, List.foldl_cons, perform_eq, List.flatMap_cons, ← List.append_assoc, ← record]
      exact next

/-- One log records what the other does, as far as its limit goes. -/
structure Truncates (settings : LogSettings) (limit : Nat) (faulty endless : SerialLog)
    : Prop where
  faultySettings : faulty.settings = settings
  endlessSettings : endless.settings = settings
  limited : faulty.sink.limit = some limit
  unlimited : endless.sink.limit = none
  record : faulty.sink.record = endless.sink.record.take limit

namespace Truncates

variable {settings : LogSettings} {limit : Nat} {faulty endless : SerialLog}

/-- What is left of the limit after the bytes recorded so far is what an operation can add. -/
theorem perform (truncates : Truncates settings limit faulty endless) (board : Option DebugUart)
    (operation : Operation)
    : Truncates settings limit (faulty.perform board operation).2
        (endless.perform board operation).2 := by
  obtain ⟨faultySettings, endlessSettings, limited, unlimited, record⟩ := truncates
  simp only [perform_eq, faultySettings, endlessSettings]
  have cut := faulty.sink.written_write (operation.bytes settings board)
  have whole := endless.sink.written_write (operation.bytes settings board)
  refine ⟨rfl, rfl, cut.limit.trans limited, whole.limit.trans unlimited, ?_⟩
  have left : limit - faulty.sink.record.length = limit - endless.sink.record.length := by
    rw [record, List.length_take]
    omega
  rw [cut.record, whole.record, Sink.taken_limited limited, Sink.taken_endless unlimited, left,
    record, List.take_append]

theorem after (truncates : Truncates settings limit faulty endless) (board : Option DebugUart)
    (operations : List Operation)
    : Truncates settings limit (faulty.after board operations) (endless.after board operations)
    := by
  induction operations generalizing faulty endless with
  | nil => exact truncates
  | cons operation rest ih => exact ih (truncates.perform board operation)

/-- The records after each operation of a run, by induction on the run. -/
theorem run (truncates : Truncates settings limit faulty endless) (board : Option DebugUart)
    (operations : List Operation)
    : (faulty.run board operations).map (·.2.sink.record)
      = (endless.run board operations).map (·.2.sink.record.take limit) := by
  induction operations generalizing faulty endless with
  | nil => rfl
  | cons operation rest ih =>
      have next := truncates.perform board operation
      simp only [SerialLog.run, List.map_cons]
      rw [next.record, ih next]

/-- A write is reported as failed if and only if it is longer than what is left of the limit. -/
theorem result (truncates : Truncates settings limit faulty endless) (bytes : List UInt8)
    : (faulty.sink.write bytes).1
      = if bytes.length ≤ limit - faulty.sink.record.length then .ok () else .error .sinkFull := by
  rw [(faulty.sink.written_write bytes).result, Sink.taken_limited truncates.limited]
  simp only [List.take_eq_self_iff]

end Truncates

--------------------------------------------------------------------------------
-- Main statement
--------------------------------------------------------------------------------

/-- A sink that takes `limit` bytes, and answers busy any number of times before each, is compared
with one that takes every byte at once. After each operation of a run it holds the first `limit`
bytes of what the other one holds, and that is the bytes of the operations in order. Any further
operation is over after finitely many attempts. A write past the log fails if and only if its bytes
are more than what is left of the limit; the operations of the log have no result.
-/
theorem faults_truncate (board : Option DebugUart) (settings : LogSettings) (limit : Nat)
    (delay : Nat → Nat) (operations : List Operation) (operation : Operation)
    : let endless : SerialLog := { settings, sink := {} }
      let faulty : SerialLog := { settings, sink := { limit := some limit, delay } }
      let before := faulty.after board operations
      let bytes := operation.bytes settings board
      (faulty.run board operations).map (·.2.sink.record)
        = (endless.run board operations).map (·.2.sink.record.take limit)
      ∧ (endless.after board operations).sink.record
        = operations.flatMap (Operation.bytes settings board)
      ∧ before.sink.record = (endless.after board operations).sink.record.take limit
      ∧ ∃ attempts written,
          before.sink.writeWithin attempts bytes = some written
          ∧ faulty.run board (operations ++ [operation])
            = faulty.run board operations
              ++ [(if operation.reports then
                    some
                      (if bytes.length ≤ limit - before.sink.record.length then .ok ()
                      else .error .sinkFull)
                  else none,
                  { before with sink := written.2 })] := by
  intro endless faulty before bytes
  have start : Truncates settings limit faulty endless := ⟨rfl, rfl, rfl, rfl, List.take_nil.symm⟩
  have reached := start.after board operations
  obtain ⟨attempts, finished⟩ := before.sink.exists_writeWithin bytes
  refine ⟨start.run board operations, record_after_endless rfl board operations, reached.record,
    attempts, _, finished, ?_⟩
  rw [run_append_singleton, perform_eq, ← reached.result, reached.faultySettings]

end Firmware.SerialLog
