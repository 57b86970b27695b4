import Firmware.Pin
import Firmware.Severity

/-! The lines of the serial log, as the pieces in which they are written. -/

namespace Firmware

/-- A record for the log: a fixed message, and the place in the code it comes from. -/
structure LogRecord where
  severity : Severity
  format : String
  module : String
  location : Int
deriving DecidableEq, Repr

namespace LogLine

/-- The escape sequence that ends a colour. -/
def reset : String := "\x1b[0m"

/-- The escape sequence that starts the colour of a severity. -/
def color : Severity → String
  | .trace => "\x1b[2m"
  | .debug => "\x1b[36m"
  | .info => "\x1b[32m"
  | .warn => "\x1b[33m"
  | .error => "\x1b[31m"
  | .fatal => "\x1b[1;31m"

/-- The tag in front of a line, coloured or not. -/
def tag (colored : Bool) (severity : Severity) : List (List UInt8) :=
  if colored then
    [color severity, "[", severity.tag, "]", reset, " "].map Utf8.ofString
  else
    ["[", severity.tag, "] "].map Utf8.ofString

/-- The line of a record. -/
def ofRecord (colored : Bool) (record : LogRecord) : List (List UInt8) :=
  tag colored record.severity
    ++ [Utf8.ofString record.format, Utf8.ofString " (", Utf8.ofString record.module,
      Utf8.ofString ":", Utf8.encode (Decimal.signed record.location), Utf8.ofString ")\n"]

/-- The line that names the peripheral on which the log is written. -/
def ofUart (colored : Bool) (uart : DebugUart) : List (List UInt8) :=
  tag colored .info
    ++ [Utf8.ofString "debug log on ", Utf8.ofString uart.peripheral, Utf8.ofString " (tx "]
    ++ uart.tx.pieces
    ++ [Utf8.ofString ", rx "]
    ++ uart.rx.pieces
    ++ [Utf8.ofString ", ", Utf8.encode (Decimal.digits uart.baudRate),
      Utf8.ofString " baud)\n"]

end LogLine

end Firmware
