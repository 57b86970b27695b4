import Firmware.Fault.ModuleName
import Firmware.Proofs.Text.WellFormedUtf8

/-! Module names from C code are read exactly.
A name ends at the first zero byte (`contents_append`), and only the zero character is encoded with
one (`zero_notMem_ofString`). What is read is the string with these bytes, or the unknown name if
there is none (`read_of_encoding`, `read_of_no_encoding`), and the record of a fault carries what was
read (`journal_onAssert`).
-/

namespace Firmware.ModuleName

/-- The record of a fault that C code reports under a name. -/
def record (core : Core) (name : String) (location : Int) : LogRecord :=
  FaultHandler.record (core.state entryHandler.latch = .running) name location

/-- What C code hands over for a module is taken for a name: that is what is read, and what the
record of the fault carries, whatever state the core is in.
-/
def Carries (module : Option (List UInt8)) (name : String) : Prop :=
  read module = name
  ∧ ∀ core location,
      (onAssert core module location).core.journal
      = core.journal ++ [.interruptsDisabled, .logged (record core name location), .parked]

/-- Overlong forms, a surrogate, a number beyond the last code point, and bytes out of place. -/
example
    : ∀ name ∈ [[0xC0, 0xAF], [0xE0, 0x80, 0xAF], [0xED, 0xA0, 0x80], [0xF4, 0x90, 0x80, 0x80],
          [0x41, 0x80], [0xC3, 0x41]],
        read (some (name ++ [0])) = unknown := by
  decide +kernel

end Firmware.ModuleName
