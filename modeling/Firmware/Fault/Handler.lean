import Firmware.Fault.Core

/-! The fault handler: the terminal reaction to a failed assertion.
It masks interrupts, halts the latch, logs a fatal record and parks the core, in this order, and
never returns to its caller. A fault while the latch is halted already takes the same path and
is logged with another message. Each collaborator is the real one or a stand-in that notes what
it is asked to do.
-/

namespace Firmware

/-- The interrupt mask that a handler reaches. -/
inductive MaskControl where
  /-- The mask of the core. -/
  | core
  /-- A stand-in with a mask of its own. -/
  | standIn (enabled : Bool)
deriving DecidableEq, Repr

/-- The log that a handler reaches. -/
inductive Reporter where
  | serial (log : SerialLog)
  /-- A stand-in that notes records down. -/
  | standIn

/-- How a handler stops the core. -/
inductive Parking where
  /-- Waits for interrupts until the core is reset. -/
  | waitForInterrupt
  /-- A stand-in that unwinds at once. -/
  | standIn
deriving DecidableEq, Repr

/-- How control was taken back from a handler that had parked the core. -/
inductive Ending where
  | parked
  /-- The core was reset after some waits. -/
  | reset (waits : Nat)
deriving DecidableEq, Repr

/-- The text that goes with an ending. -/
def Ending.message : Ending → String
  | .parked => "core parked"
  | .reset _ => "core reset"

/-- The number of waits for an interrupt before the ending. -/
def Ending.waits : Ending → Nat
  | .parked => 0
  | .reset waits => waits

/-- A fault handler and its collaborators. -/
structure FaultHandler where
  /-- The number of the latch it halts. -/
  latch : Nat
  mask : MaskControl := .standIn true
  reporter : Reporter := .standIn
  parking : Parking := .standIn

namespace FaultHandler

/-- The message of the first fatal record. -/
def assertionFailed : String := "assertion failed"

/-- The message of a record for a fault while halted. -/
def repeatedAssertion : String := "assertion failed while halted"

/-- Whether the interrupts that the handler masks are enabled. -/
def interruptsEnabled (handler : FaultHandler) (core : Core) : Bool :=
  match handler.mask with
  | .core => core.interruptsEnabled
  | .standIn enabled => enabled

/-- Masks interrupts. -/
def maskInterrupts (handler : FaultHandler) (core : Core) : FaultHandler × Core :=
  match handler.mask with
  | .core => (handler, { core with interruptsEnabled := false })
  | .standIn _ => ({ handler with mask := .standIn false }, core.note .interruptsDisabled)

/-- The record for a fault: the message depends on whether this fault halted the latch. -/
def record (first : Bool) (module : String) (location : Int) : LogRecord where
  severity := .fatal
  format := if first then assertionFailed else repeatedAssertion
  module := module
  location := location

/-- Hands a record to the log. -/
def report (handler : FaultHandler) (core : Core) (record : LogRecord) : FaultHandler × Core :=
  match handler.reporter with
  | .serial log => ({ handler with reporter := .serial (log.log record) }, core)
  | .standIn => (handler, core.note (.logged record))

/-- Parks the core for good. -/
def park (handler : FaultHandler) (core : Core) : Ending × Core :=
  match handler.parking with
  | .waitForInterrupt => (.reset core.waitsToReset, core)
  | .standIn => (.parked, core.note .parked)

/-- What is left once control was taken back from a handler. -/
structure Aftermath where
  ending : Ending
  handler : FaultHandler
  core : Core

/-- Reacts to a failed assertion at a place in the code. -/
def onAssert (handler : FaultHandler) (core : Core) (module : String) (location : Int)
    : Aftermath :=
  let (handler, core) := handler.maskInterrupts core
  let (first, core) := core.halt handler.latch
  let (handler, core) := handler.report core (record first module location)
  let (ending, core) := handler.park core
  { ending, handler, core }

/-- The bytes the handler's own serial line recorded. -/
def serialRecord (handler : FaultHandler) : List UInt8 :=
  match handler.reporter with
  | .serial log => log.sink.record
  | .standIn => []

end FaultHandler

--------------------------------------------------------------------------------
-- Many faults
--------------------------------------------------------------------------------

/-- A failed assertion that reaches one of several handlers. -/
structure Fault where
  handler : Nat
  module : String
  location : Int
deriving DecidableEq, Repr

/-- What a fault added to the journal and to the serial line of its handler. -/
structure FaultReport where
  ending : Ending
  latches : List RunState
  interruptsEnabled : Bool
  events : List FaultEvent
  serial : List UInt8

/-- Faults reaching handlers on one core, in order. A fault for a handler that does not exist is
left out. -/
def reportFaults : List FaultHandler → Core → List Fault → List FaultReport
  | _, _, [] => []
  | handlers, core, fault :: rest =>
    match handlers[fault.handler]? with
    | none => reportFaults handlers core rest
    | some handler =>
      let after := handler.onAssert core fault.module fault.location
      { ending := after.ending
        latches := after.core.latches
        interruptsEnabled := after.handler.interruptsEnabled after.core
        events := after.core.journal.drop core.journal.length
        serial := after.handler.serialRecord.drop handler.serialRecord.length }
        :: reportFaults (handlers.set fault.handler after.handler) after.core rest

end Firmware
