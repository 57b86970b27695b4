import Firmware.Log.Line
import Firmware.Serial

/-! The serial log: one line per record, filtered by severity.
Records below the level are dropped, but fatal records never are. What the sink answers to a line
is ignored: there is nowhere left to report it.
-/

namespace Firmware

/-- What reaches the log, and whether its tags are coloured. -/
structure LogSettings where
  level : Severity
  colored : Bool
deriving DecidableEq, Repr

/-- Whether a record of the given severity is written. -/
def LogSettings.Passes (settings : LogSettings) (severity : Severity) : Prop :=
  ¬ severity < settings.level ∨ severity = .fatal

instance (settings : LogSettings) (severity : Severity)
    : Decidable (settings.Passes severity) :=
  inferInstanceAs (Decidable (¬ severity < settings.level ∨ severity = .fatal))

/-- A log that is written to a serial line. -/
structure SerialLog where
  settings : LogSettings
  sink : Sink

namespace SerialLog

/-- Writes the line of a record, unless it is filtered. -/
def log (serial : SerialLog) (record : LogRecord) : SerialLog :=
  if serial.settings.Passes record.severity then
    { serial with
      sink := (serial.sink.writePieces (LogLine.ofRecord serial.settings.colored record)).2 }
  else serial

/-- Writes the line that names a peripheral, unless lines of severity info are filtered. -/
def announceUart (serial : SerialLog) (uart : DebugUart) : SerialLog :=
  if Severity.info < serial.settings.level then serial
  else
    { serial with
      sink := (serial.sink.writePieces (LogLine.ofUart serial.settings.colored uart)).2 }

/-- Opens the log with the line of the board's peripheral, if the board has one. -/
def announce (serial : SerialLog) (uart : Option DebugUart) : SerialLog :=
  match uart with
  | none => serial
  | some uart => serial.announceUart uart

--------------------------------------------------------------------------------
-- Programs
--------------------------------------------------------------------------------

/-- An operation on the log or on the serial line under it. -/
inductive Operation where
  | log (record : LogRecord)
  | announce
  | announceUart (uart : DebugUart)
  /-- Writes a string. -/
  | text (text : String)
  /-- Writes a byte. -/
  | byte (byte : UInt8)
  /-- Writes four values, separated by bars. -/
  | formatted (text : String) (severity : Severity) (pin : Pin) (number : Int)
  /-- Writes the texts that a format is composed of, one after the other. -/
  | composed (texts : List String)
deriving DecidableEq, Repr

/-- The pieces of four values with bars between them. -/
def formattedPieces (text : String) (severity : Severity) (pin : Pin) (number : Int)
    : List (List UInt8) :=
  [Utf8.ofString text, Utf8.ofString "|", Utf8.ofString severity.tag, Utf8.ofString "|"]
    ++ pin.pieces
    ++ [Utf8.ofString "|", Utf8.encode (Decimal.signed number)]

/-- Performs an operation. Writes past the log report failures of the sink, the log does not:
its operations have no result. `board` is the peripheral of the board. -/
def perform (board : Option DebugUart) (serial : SerialLog)
    : Operation → Option (Except SerialError Unit) × SerialLog
  | .log record => (none, serial.log record)
  | .announce => (none, serial.announce board)
  | .announceUart uart => (none, serial.announceUart uart)
  | .text text => write (serial.sink.write (Utf8.ofString text))
  | .byte byte => write (serial.sink.writeByte byte)
  | .formatted text severity pin number =>
    write (serial.sink.writePieces (formattedPieces text severity pin number))
  | .composed texts => write (serial.sink.writePieces (texts.map Utf8.ofString))
where
  /-- The result of a write past the log. -/
  write (written : Except SerialError Unit × Sink)
      : Option (Except SerialError Unit) × SerialLog :=
    (some written.1, { serial with sink := written.2 })

/-- Performs operations in order, and collects their results with the log after each. -/
def run (board : Option DebugUart) (serial : SerialLog)
    : List Operation → List (Option (Except SerialError Unit) × SerialLog)
  | [] => []
  | operation :: rest =>
    let (result, serial) := serial.perform board operation
    (result, serial) :: run board serial rest

end SerialLog

end Firmware
