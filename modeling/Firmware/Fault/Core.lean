import Firmware.Log.Serial

/-! What a fault touches: the interrupt mask of the core, the halted latches, and the journal.
A latch goes from running to halted and never back, and a mask from enabled to disabled.
-/

namespace Firmware

/-- The run state that a latch holds. -/
inductive RunState where
  | running
  | halted
deriving DecidableEq, Repr

/-- What stand-ins for the collaborators of a fault handler note down. -/
inductive FaultEvent where
  | interruptsDisabled
  | logged (record : LogRecord)
  | parked
deriving DecidableEq, Repr

/-- The core and what lives as long as it. -/
structure Core where
  /-- The latches, by number. -/
  latches : List RunState
  /-- Whether the core takes interrupts. -/
  interruptsEnabled : Bool := true
  /-- Everything noted down so far, in order. -/
  journal : List FaultEvent := []
  /-- The number of waits for an interrupt after which the core is reset. -/
  waitsToReset : Nat := 3

namespace Core

/-- A core whose latches are all running and whose interrupts are enabled. -/
def initial (latches : Nat) : Core := { latches := List.replicate latches .running }

/-- The state of a latch. A latch that was never set is running. -/
def state (core : Core) (latch : Nat) : RunState := core.latches.getD latch .running

/-- Sets a latch to halted, and tells whether it was running before. -/
def halt (core : Core) (latch : Nat) : Bool × Core :=
  (core.state latch = .running, { core with latches := core.latches.set latch .halted })

/-- Notes an event down. -/
def note (core : Core) (event : FaultEvent) : Core :=
  { core with journal := core.journal ++ [event] }

end Core

end Firmware
