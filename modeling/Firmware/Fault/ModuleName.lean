import Firmware.Fault.Handler

/-! Module names handed over by C code: bytes up to the first zero byte, or no string at all. -/

namespace Firmware.ModuleName

/-- The name that is used where nothing readable was handed over. -/
def unknown : String := "?"

/-- The bytes of a zero-terminated string. -/
def contents (bytes : List UInt8) : List UInt8 := bytes.takeWhile (· != 0)

/-- The name in a zero-terminated string; `none` is the null pointer. -/
def read (bytes : Option (List UInt8)) : String :=
  match bytes.bind fun bytes => Utf8.decode? (contents bytes) with
  | some name => String.ofList name
  | none => unknown

/-- The handler that C code reaches, newly made for every fault. -/
def entryHandler : FaultHandler := { latch := 0 }

/-- Reacts to an assertion that failed in C code. -/
def onAssert (core : Core) (module : Option (List UInt8)) (location : Int)
    : FaultHandler.Aftermath :=
  entryHandler.onAssert core (read module) location

/-- Reacts to failed assertions in order, and collects the cores after each. -/
def onAsserts : Core → List (Option (List UInt8) × Int) → List Core
  | _, [] => []
  | core, (module, location) :: rest =>
    let core := (onAssert core module location).core
    core :: onAsserts core rest

end Firmware.ModuleName
