import Firmware.Build.Target
import Firmware.Severity

/-! The configuration of a build, and the constants that an image takes from it. -/

namespace Firmware

/-- The lowest severity that is logged. Fatal records are always logged, so no level silences
them. -/
inductive Level where
  | trace
  | debug
  | info
  | warn
  | error
deriving DecidableEq, Repr

namespace Level

def all : List Level := [trace, debug, info, warn, error]

/-- The severity of a level. -/
def severity : Level → Severity
  | trace => .trace
  | debug => .debug
  | info => .info
  | warn => .warn
  | error => .error

/-- The name of a level in configuration files. -/
def name (level : Level) : String := level.severity.name

end Level

/-- How the checksum table of an image is produced. -/
inductive ChecksumTable where
  /-- As constants in flash. -/
  | static
  /-- Generated in memory. -/
  | dynamic
deriving DecidableEq, Repr

namespace ChecksumTable

def all : List ChecksumTable := [static, dynamic]

/-- The name of a kind of table in configuration files. -/
def name : ChecksumTable → String
  | static => "Static"
  | dynamic => "Dynamic"

end ChecksumTable

/-- What reaches the log of an image, and whether it is coloured. -/
structure LoggingConfiguration where
  level : Level := .info
  color : Bool := false
deriving DecidableEq, Repr

/-- The configuration of a build. -/
structure Configuration where
  target : Target := .host
  /-- The number of bytes of the heap region. -/
  heapSize : Nat := 8192
  logging : LoggingConfiguration := {}
  /-- Whether the linked C library has an errno channel. -/
  errno : Bool := false
  table : ChecksumTable := .dynamic
deriving DecidableEq, Repr

/-- The constants that an image is compiled with. -/
structure Constants where
  heapSize : Nat
  maxLogLevel : Severity
  logColor : Bool
  errnoChannel : Bool
  staticTable : Bool
  debugUart : Option DebugUart
deriving DecidableEq, Repr

/-- The constants that a configuration asks for. -/
def Configuration.constants (configuration : Configuration) : Constants where
  heapSize := configuration.heapSize
  maxLogLevel := configuration.logging.level.severity
  logColor := configuration.logging.color
  errnoChannel := configuration.errno
  staticTable := configuration.table = .static
  debugUart := configuration.target.debugUart

end Firmware
