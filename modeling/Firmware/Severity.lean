/-! Severities of log records, from the least to the most severe. -/

namespace Firmware

/-- How severe a log record is. -/
inductive Severity where
  | trace
  | debug
  | info
  | warn
  | error
  /-- The system is about to stop for good. -/
  | fatal
deriving DecidableEq, Repr

namespace Severity

/-- The position of a severity, counted from the least severe. -/
def rank : Severity → Nat
  | trace => 0
  | debug => 1
  | info => 2
  | warn => 3
  | error => 4
  | fatal => 5

instance : LT Severity := ⟨fun a b => a.rank < b.rank⟩

instance (a b : Severity) : Decidable (a < b) := inferInstanceAs (Decidable (a.rank < b.rank))

/-- The order of two severities. -/
def order (a b : Severity) : Ordering := compare a.rank b.rank

/-- The more severe of two severities. -/
def max (a b : Severity) : Severity := if b < a then a else b

/-- The name under which a severity is declared. -/
def name : Severity → String
  | trace => "Trace"
  | debug => "Debug"
  | info => "Info"
  | warn => "Warn"
  | error => "Error"
  | fatal => "Fatal"

/-- The name under which a severity is logged. -/
def tag : Severity → String
  | trace => "TRACE"
  | debug => "DEBUG"
  | info => "INFO"
  | warn => "WARN"
  | error => "ERROR"
  | fatal => "FATAL"

end Severity

end Firmware
