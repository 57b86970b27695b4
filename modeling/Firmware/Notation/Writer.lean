import Firmware.Build.Configuration

/-! Writing a configuration in the shortest form of its notation. -/

namespace Firmware.Notation

/-- The text of a truth value. -/
def writeBool (value : Bool) : String := if value then "true" else "false"

/-- The text of a configuration, without blanks. -/
def write (configuration : Configuration) : String :=
  "(port:" ++ configuration.target.name
    ++ ",heap:(size:" ++ String.ofList (Decimal.digits configuration.heapSize)
    ++ "),logging:(level:" ++ configuration.logging.level.name
    ++ ",color:" ++ writeBool configuration.logging.color
    ++ "),errno:" ++ writeBool configuration.errno
    ++ ",checksum_table:" ++ configuration.table.name
    ++ ")"

end Firmware.Notation
