import Firmware.Fault.Handler

/-! Faults that overlap.
Several faults are under way on one core, each as far as some stage, and any of them may take the
next action. Their handlers share a latch and the interrupt mask of the core, and each has a log and
a way to park of its own. A history keeps which fault took which action. What one step does is one
of three effects (`FaultSystem.effect_step`). A fault that nothing disturbs does what the handler
does (`FaultSystem.run_alone`).
-/

namespace Firmware

/-- What a handler does, one action at a time. -/
inductive FaultAction where
  | mask
  /-- The latch is swapped; `first` tells whether it was running. -/
  | swap (first : Bool)
  | log (record : LogRecord)
  | park
deriving DecidableEq, Repr

/-- How far a fault has come. It remembers what the swap of the latch told. -/
inductive FaultStage where
  | entered
  | masked
  | halted (first : Bool)
  | logged (first : Bool)
  | parked (first : Bool)
deriving DecidableEq, Repr

/-- A fault under way. -/
structure FaultCall where
  fault : Fault
  stage : FaultStage := .entered

/-- An action with the number of the fault that took it, and of its handler. -/
structure Deed where
  call : Nat
  handler : Nat
  action : FaultAction

/-- A core with handlers, the faults that reached them so far, and all that these did. -/
structure FaultSystem where
  core : Core
  /-- The handlers as they were built. -/
  built : List FaultHandler := []
  handlers : List FaultHandler := []
  calls : List FaultCall := []
  history : List Deed := []

--------------------------------------------------------------------------------
-- Actions
--------------------------------------------------------------------------------

/-- An action and what it leads to. -/
structure FaultStep where
  action : FaultAction
  stage : FaultStage
  handler : FaultHandler
  core : Core

/-- The next action of a fault. A core that is parked takes none. -/
def FaultCall.next? (call : FaultCall) (handler : FaultHandler) (core : Core) : Option FaultStep :=
  match call.stage with
  | .entered =>
      let (handler, core) := handler.maskInterrupts core
      some ⟨.mask, .masked, handler, core⟩
  | .masked =>
      let (first, core) := core.halt handler.latch
      some ⟨.swap first, .halted first, handler, core⟩
  | .halted first =>
      let record := FaultHandler.record first call.fault.module call.fault.location
      let (handler, core) := handler.report core record
      some ⟨.log record, .logged first, handler, core⟩
  | .logged first =>
      let (_, core) := handler.park core
      some ⟨.park, .parked first, handler, core⟩
  | .parked _ => none

/-- The actions up to a stage. -/
def FaultStage.actions (fault : Fault) : FaultStage → List FaultAction
  | .entered => []
  | .masked => [.mask]
  | .halted first => [.mask, .swap first]
  | .logged first =>
      [.mask, .swap first, .log (FaultHandler.record first fault.module fault.location)]
  | .parked first =>
      [.mask, .swap first, .log (FaultHandler.record first fault.module fault.location), .park]

theorem FaultCall.actions_next? {call : FaultCall} {handler : FaultHandler} {core : Core}
    {step : FaultStep} (next : call.next? handler core = some step)
    : step.stage.actions call.fault = call.stage.actions call.fault ++ [step.action] := by
  rcases call with ⟨fault, _ | _ | first | first | first⟩
  all_goals cases next
  all_goals rfl

--------------------------------------------------------------------------------
-- Moves
--------------------------------------------------------------------------------

/-- What can happen next. -/
inductive FaultMove where
  /-- A handler is built, with its own log and its own way to park. -/
  | build (reporter : Reporter) (parking : Parking)
  /-- A fault reaches a handler. -/
  | raise (fault : Fault)
  /-- A fault takes its next action. -/
  | advance (call : Nat)

namespace FaultSystem

/-- A system in which nothing has happened yet. -/
def initial (latches : Nat) : FaultSystem := { core := Core.initial latches }

/-- A fault takes its next action through its handler. -/
def act (system : FaultSystem) (number : Nat) (call : FaultCall) (step : FaultStep)
    : FaultSystem :=
  { system with
    core := step.core
    handlers := system.handlers.set call.fault.handler step.handler
    calls := system.calls.set number { call with stage := step.stage }
    history := system.history ++ [⟨number, call.fault.handler, step.action⟩] }

/-- Makes a move. A fault for a handler that does not exist is left out, and so is an action of a
fault that does not exist.
-/
def step (latch : Nat) (system : FaultSystem) : FaultMove → FaultSystem
  | .build reporter parking =>
      let handler : FaultHandler := { latch, mask := .core, reporter, parking }
      { system with
        built := system.built ++ [handler]
        handlers := system.handlers ++ [handler] }
  | .raise fault =>
      if fault.handler < system.handlers.length then
        { system with calls := system.calls ++ [{ fault }] }
      else system
  | .advance number =>
      match system.calls[number]? with
      | none => system
      | some call =>
          match (system.handlers[call.fault.handler]?).bind (call.next? · system.core) with
          | none => system
          | some step => system.act number call step

/-- Makes moves in order. -/
def run (latch : Nat) (system : FaultSystem) (moves : List FaultMove) : FaultSystem :=
  moves.foldl (step latch) system

/-- What a move can do. -/
inductive Effect (latch : Nat) (system : FaultSystem) : FaultSystem → Prop where
  | nothing : Effect latch system system
  | built (reporter : Reporter) (parking : Parking)
    : Effect latch system {
        system with
        built := system.built ++ [{ latch, mask := .core, reporter, parking }]
        handlers := system.handlers ++ [{ latch, mask := .core, reporter, parking }]
      }
  | raised {fault : Fault} (known : fault.handler < system.handlers.length)
    : Effect latch system { system with calls := system.calls ++ [{ fault }] }
  | acted {number call handler step} (underWay : system.calls[number]? = some call)
    (reached : system.handlers[call.fault.handler]? = some handler)
    (next : call.next? handler system.core = some step)
    : Effect latch system (system.act number call step)

theorem effect_step (latch : Nat) (system : FaultSystem) (move : FaultMove)
    : Effect latch system (system.step latch move) := by
  cases move with
  | build reporter parking => exact .built reporter parking
  | raise fault =>
      rw [step]
      split
      · rename_i known
        exact .raised known
      · exact .nothing
  | advance number =>
      rw [step]
      split
      · exact .nothing
      · rename_i call underWay
        split
        · exact .nothing
        · rename_i step taken
          obtain ⟨handler, reached, next⟩ := Option.bind_eq_some_iff.mp taken
          exact .acted underWay reached next

/-- What every step preserves holds after any run, by induction on the moves. -/
theorem run_induction {latch : Nat} {Holds : FaultSystem → Prop}
    (preserved : ∀ system later, Effect latch system later → Holds system → Holds later)
    {system : FaultSystem} (holds : Holds system) (moves : List FaultMove)
    : Holds (system.run latch moves) := by
  induction moves generalizing system with
  | nil => exact holds
  | cons move rest ih => exact ih (preserved _ _ (effect_step latch system move) holds)

--------------------------------------------------------------------------------
-- Undisturbed faults
--------------------------------------------------------------------------------

/-- A fault is under way, and its handler is this one. -/
structure Standing (system : FaultSystem) (number : Nat) (call : FaultCall)
    (handler : FaultHandler) : Prop where
  underWay : system.calls[number]? = some call
  reached : system.handlers[call.fault.handler]? = some handler

theorem Standing.advance (latch : Nat) {system : FaultSystem} {number : Nat} {call : FaultCall}
    {handler : FaultHandler} {step : FaultStep} (standing : system.Standing number call handler)
    (next : call.next? handler system.core = some step)
    : let later := system.step latch (.advance number)
      later.Standing number { call with stage := step.stage } step.handler
      ∧ later.core = step.core
      ∧ later.handlers = system.handlers.set call.fault.handler step.handler := by
  intro later
  have acted : later = system.act number call step := by
    simp only [later, FaultSystem.step, standing.underWay, standing.reached, Option.bind_some, next]
  have numbered : number < system.calls.length :=
    (List.getElem?_eq_some_iff.mp standing.underWay).1
  have known : call.fault.handler < system.handlers.length :=
    (List.getElem?_eq_some_iff.mp standing.reached).1
  rw [acted]
  exact ⟨⟨List.getElem?_set_self numbered, List.getElem?_set_self known⟩, rfl, rfl⟩

/-- A fault whose actions nothing interrupts does what its handler does in one go. -/
theorem run_alone (latch : Nat) {system : FaultSystem} {fault : Fault} {handler : FaultHandler}
    (reached : system.handlers[fault.handler]? = some handler)
    : let number := system.calls.length
      let after := system.run latch
        [.raise fault, .advance number, .advance number, .advance number, .advance number]
      let aftermath := handler.onAssert system.core fault.module fault.location
      after.core = aftermath.core
      ∧ after.handlers = system.handlers.set fault.handler aftermath.handler := by
  intro number after aftermath
  have known : fault.handler < system.handlers.length := (List.getElem?_eq_some_iff.mp reached).1
  let raised : FaultSystem := { system with calls := system.calls ++ [{ fault }] }
  have entered : raised.Standing number { fault } handler :=
    ⟨List.getElem?_concat_length, reached⟩
  have raises : system.step latch (.raise fault) = raised := if_pos known
  obtain ⟨masked, maskedCore, maskedHandlers⟩ := entered.advance latch rfl
  obtain ⟨halted, haltedCore, haltedHandlers⟩ := masked.advance latch rfl
  obtain ⟨logged, loggedCore, loggedHandlers⟩ := halted.advance latch rfl
  obtain ⟨_, parkedCore, parkedHandlers⟩ := logged.advance latch rfl
  simp only [after, run, List.foldl_cons, List.foldl_nil, raises]
  refine ⟨?core, ?handlers⟩
  case core =>
    rw [parkedCore, loggedCore, haltedCore, maskedCore]
    rfl
  case handlers =>
    rw [parkedHandlers, loggedHandlers, haltedHandlers, maskedHandlers, List.set_set, List.set_set,
      List.set_set, loggedCore, haltedCore, maskedCore]
    rfl

end FaultSystem

end Firmware
