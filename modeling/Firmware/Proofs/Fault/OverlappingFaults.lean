import Firmware.Proofs.Fault.Overlap
import Mathlib.Data.List.Nodup

/-! The fault path while any number of faults overlap.
Which action each fault takes next is free, so what holds of the latch, the mask and the logs is
kept as one invariant over the history and the stage of every fault (`FaultSystem.Tracked`). It
follows that the system is masked before it is halted and halted before anything is logged, and that
exactly one fault logs that it was the first (`FaultSystem.overlapping_faults`).
-/

namespace Firmware

--------------------------------------------------------------------------------
-- What an action does
--------------------------------------------------------------------------------

def FaultAction.record? : FaultAction → Option LogRecord
  | .log record => some record
  | .mask | .swap _ | .park => none

def FaultAction.swap? : FaultAction → Option Bool
  | .swap first => some first
  | .mask | .log _ | .park => none

/-- A log after more records. A stand-in has no state of its own. -/
def Reporter.after : Reporter → List LogRecord → Reporter
  | .serial log, records => .serial (records.foldl SerialLog.log log)
  | .standIn, _ => .standIn

namespace FaultHandler

/-- A handler after more records. -/
def after (handler : FaultHandler) (records : List LogRecord) : FaultHandler :=
  { handler with reporter := handler.reporter.after records }

/-- What the stand-ins of a handler on the shared mask note down about an action. -/
def notes (handler : FaultHandler) : FaultAction → Option FaultEvent
  | .log record =>
      match handler.reporter with
      | .serial _ => none
      | .standIn => some (.logged record)
  | .park =>
      match handler.parking with
      | .waitForInterrupt => none
      | .standIn => some .parked
  | .mask | .swap _ => none

theorem after_nil (handler : FaultHandler) : handler.after [] = handler := by
  rcases handler with ⟨latch, mask, _ | _, parking⟩ <;> rfl

theorem after_append (handler : FaultHandler) (records more : List LogRecord)
    : handler.after (records ++ more) = (handler.after records).after more := by
  rcases handler with ⟨latch, mask, log | _, parking⟩
  · simp only [after, Reporter.after, List.foldl_append]
  · rfl

theorem notes_after (handler : FaultHandler) (records : List LogRecord) (action : FaultAction)
    : (handler.after records).notes action = handler.notes action := by
  rcases handler with ⟨latch, mask, log | _, parking⟩ <;> cases action <;> rfl

end FaultHandler

/-- What an action does, through a handler on the shared latch and mask. -/
structure FaultStep.Took (step : FaultStep) (handler : FaultHandler) (core : Core) : Prop where
  reported : step.handler = handler.after step.action.record?.toList
  journal : step.core.journal = core.journal ++ (handler.notes step.action).toList
  latches : step.core.latches.length = core.latches.length
  masks : step.action = .mask → step.core.interruptsEnabled = false
  masked : core.interruptsEnabled = false → step.core.interruptsEnabled = false
  swapped
    : ∀ first,
        step.action = .swap first →
        first = decide (core.state handler.latch = .running)
        ∧ step.core.latches = core.latches.set handler.latch .halted
  unswapped : step.action.swap? = none → step.core.latches = core.latches

theorem FaultCall.took_next? {call : FaultCall} {handler : FaultHandler} {core : Core}
    {step : FaultStep} (shared : handler.mask = .core)
    (next : call.next? handler core = some step)
    : step.Took handler core := by
  rcases call with ⟨fault, stage⟩
  rcases handler with ⟨latch, mask, reporter, parking⟩
  cases shared
  cases stage with
  | entered =>
      cases next
      refine ⟨(FaultHandler.after_nil _).symm, (List.append_nil _).symm, rfl, fun _ => rfl,
        fun _ => rfl, ?_, fun _ => rfl⟩
      rintro first ⟨⟩
  | masked =>
      cases next
      refine ⟨(FaultHandler.after_nil _).symm, (List.append_nil _).symm, List.length_set, ?_, id,
        ?_, ?_⟩
      · rintro ⟨⟩
      · rintro first ⟨⟩
        exact ⟨rfl, rfl⟩
      · rintro ⟨⟩
  | halted first =>
      cases reporter with
      | serial log =>
          cases next
          refine ⟨rfl, (List.append_nil _).symm, rfl, ?_, id, ?_, fun _ => rfl⟩
          · rintro ⟨⟩
          · rintro first ⟨⟩
      | standIn =>
          cases next
          refine ⟨rfl, rfl, rfl, ?_, id, ?_, fun _ => rfl⟩
          · rintro ⟨⟩
          · rintro first ⟨⟩
  | logged first =>
      cases parking with
      | waitForInterrupt =>
          cases next
          refine ⟨(FaultHandler.after_nil _).symm, (List.append_nil _).symm, rfl, ?_, id, ?_,
            fun _ => rfl⟩
          · rintro ⟨⟩
          · rintro first ⟨⟩
      | standIn =>
          cases next
          refine ⟨(FaultHandler.after_nil _).symm, rfl, rfl, ?_, id, ?_, fun _ => rfl⟩
          · rintro ⟨⟩
          · rintro first ⟨⟩
  | parked first => cases next

theorem FaultStep.Took.state_of_swap {step : FaultStep} {handler : FaultHandler} {core : Core}
    (took : step.Took handler core) (present : handler.latch < core.latches.length) {first : Bool}
    (swap : step.action.swap? = some first)
    : first = decide (core.state handler.latch = .running)
      ∧ step.core.state handler.latch = .halted := by
  have swapped : step.action = .swap first := by
    cases action : step.action <;> rw [action] at swap <;> cases swap
    rfl
  obtain ⟨found, latched⟩ := took.swapped first swapped
  refine ⟨found, ?_⟩
  rw [Core.state, latched, List.getD_eq_getElem?_getD, List.getElem?_set_self present]
  rfl

theorem FaultStep.Took.state_of_unswapped {step : FaultStep} {handler : FaultHandler} {core : Core}
    (took : step.Took handler core) (none : step.action.swap? = none)
    : step.core.state handler.latch = core.state handler.latch := by
  rw [Core.state, took.unswapped none, Core.state]

namespace FaultSystem

--------------------------------------------------------------------------------
-- Views of the history
--------------------------------------------------------------------------------

/-- What a fault has done so far. -/
def actionsOf (number : Nat) (history : List Deed) : List FaultAction :=
  (history.filter fun deed => deed.call = number).map Deed.action

/-- The swaps of the latch in order: whose they were, and what they told. -/
def swapsOf (history : List Deed) : List (Nat × Bool) :=
  history.filterMap fun deed => deed.action.swap?.map fun first => (deed.call, first)

/-- The records that went to a handler's log. -/
def recordsOf (handler : Nat) (history : List Deed) : List LogRecord :=
  history.filterMap fun deed => if deed.handler = handler then deed.action.record? else none

/-- All logged records in order, and whose they are. -/
def log (system : FaultSystem) : List (Nat × LogRecord) :=
  system.history.filterMap fun deed => deed.action.record?.map fun record => (deed.call, record)

/-- The faults in the order of their swaps. -/
def swaps (system : FaultSystem) : List Nat := (swapsOf system.history).map Prod.fst

theorem mem_actionsOf {number : Nat} {history : List Deed} {action : FaultAction}
    : action ∈ actionsOf number history
      ↔ ∃ deed ∈ history, deed.call = number ∧ deed.action = action := by
  simp only [actionsOf, List.mem_map, List.mem_filter, decide_eq_true_eq, and_assoc]

theorem mem_swapsOf {number : Nat} {first : Bool} {history : List Deed}
    : (number, first) ∈ swapsOf history ↔ .swap first ∈ actionsOf number history := by
  rw [mem_actionsOf, swapsOf, List.mem_filterMap]
  refine exists_congr fun deed => and_congr_right fun _ => ?_
  rcases deed with ⟨call, handler, action⟩
  cases action <;> simp [FaultAction.swap?]

theorem mem_log {system : FaultSystem} {number : Nat} {record : LogRecord}
    : (number, record) ∈ system.log ↔ .log record ∈ actionsOf number system.history := by
  rw [mem_actionsOf, log, List.mem_filterMap]
  refine exists_congr fun deed => and_congr_right fun _ => ?_
  rcases deed with ⟨call, handler, action⟩
  cases action <;> simp [FaultAction.record?]

/-- How often a fault is in the log, by induction on the history. -/
theorem count_log (system : FaultSystem) (number : Nat)
    : (system.log.map Prod.fst).count number
      = ((actionsOf number system.history).filterMap FaultAction.record?).length := by
  rw [log]
  induction system.history with
  | nil => rfl
  | cons deed rest ih =>
      rcases deed with ⟨call, handler, action⟩
      have split : actionsOf number (⟨call, handler, action⟩ :: rest)
          = (if call = number then [action] else []) ++ actionsOf number rest := by
        by_cases same : call = number <;> simp [actionsOf, same]
      rw [split, List.filterMap_append, List.length_append, ← ih]
      by_cases same : call = number
      · cases action <;> simp [same, FaultAction.record?, Nat.add_comm]
      · cases action <;> simp [same, FaultAction.record?]

--------------------------------------------------------------------------------
-- The invariant
--------------------------------------------------------------------------------

/-- The latch runs until the first swap, and only the first swap found it running. -/
def OnlyFirst (state : RunState) : List (Nat × Bool) → Prop
  | [] => state = .running
  | (_, first) :: rest => state = .halted ∧ first = true ∧ ∀ swap ∈ rest, swap.2 = false

/-- The history tells how far every fault has come and what the latch, the mask and all logs
contain.
-/
structure Tracked (latch : Nat) (system : FaultSystem) : Prop where
  shared : ∀ handler ∈ system.built, handler.latch = latch ∧ handler.mask = .core
  present : latch < system.core.latches.length
  handlers
    : system.handlers
      = system.built.mapIdx fun index handler => handler.after (recordsOf index system.history)
  known
    : ∀ deed ∈ system.history,
        deed.call < system.calls.length ∧ deed.handler < system.built.length
  performed
    : ∀ (number : Nat) call,
        system.calls[number]? = some call →
        actionsOf number system.history = call.stage.actions call.fault
  masked : system.history ≠ [] → system.core.interruptsEnabled = false
  onlyFirst : OnlyFirst (system.core.state latch) (swapsOf system.history)
  journal
    : system.core.journal
      = system.history.filterMap fun deed =>
          system.built[deed.handler]?.bind (·.notes deed.action)

theorem tracked_initial {latches latch : Nat} (present : latch < latches)
    : (initial latches).Tracked latch where
  shared _ member := by cases member
  present := by simpa [initial, Core.initial] using present
  handlers := rfl
  known _ member := by cases member
  performed number call underWay := by cases underWay
  masked done := absurd rfl done
  onlyFirst := by simp [OnlyFirst, swapsOf, initial, Core.initial, Core.state, present]
  journal := rfl

section Steps

variable {latch : Nat} {system : FaultSystem}

theorem Tracked.built (tracked : system.Tracked latch) (reporter : Reporter) (parking : Parking)
    : Tracked latch {
        system with
        built := system.built ++ [{ latch, mask := .core, reporter, parking }]
        handlers := system.handlers ++ [{ latch, mask := .core, reporter, parking }]
      } where
  shared handler member := by
    rcases List.mem_append.mp member with old | new
    · exact tracked.shared handler old
    · rw [List.mem_singleton.mp new]
      exact ⟨rfl, rfl⟩
  present := tracked.present
  handlers := by
    have unused : recordsOf system.built.length system.history = [] := by
      apply List.filterMap_eq_nil_iff.mpr
      intro deed member
      exact if_neg (Nat.ne_of_lt (tracked.known deed member).2)
    rw [List.mapIdx_concat, unused, FaultHandler.after_nil, ← tracked.handlers]
  known deed member := by
    obtain ⟨call, handler⟩ := tracked.known deed member
    rw [List.length_append]
    exact ⟨call, Nat.lt_add_right 1 handler⟩
  performed := tracked.performed
  masked := tracked.masked
  onlyFirst := tracked.onlyFirst
  journal := by
    change system.core.journal = _
    rw [tracked.journal]
    apply List.filterMap_congr
    intro deed member
    rw [List.getElem?_append_left (tracked.known deed member).2]

theorem Tracked.raised (tracked : system.Tracked latch) (fault : Fault)
    : Tracked latch { system with calls := system.calls ++ [{ fault }] } where
  shared := tracked.shared
  present := tracked.present
  handlers := tracked.handlers
  known deed member := by
    obtain ⟨call, handler⟩ := tracked.known deed member
    rw [List.length_append]
    exact ⟨Nat.lt_add_right 1 call, handler⟩
  performed number call underWay := by
    by_cases old : number < system.calls.length
    · rw [List.getElem?_append_left old] at underWay
      exact tracked.performed number call underWay
    · have idle : actionsOf number system.history = [] := by
        rw [actionsOf, List.map_eq_nil_iff, List.filter_eq_nil_iff]
        intro deed member
        have started := (tracked.known deed member).1
        simp only [decide_eq_true_eq]
        omega
      rw [List.getElem?_append_right (Nat.le_of_not_lt old)] at underWay
      obtain rfl := List.mem_singleton.mp (List.mem_of_getElem? underWay)
      exact idle
  masked := tracked.masked
  onlyFirst := tracked.onlyFirst
  journal := tracked.journal

theorem actionsOf_concat (number : Nat) (history : List Deed) (deed : Deed)
    : actionsOf number (history ++ [deed])
      = actionsOf number history ++ if deed.call = number then [deed.action] else [] := by
  by_cases same : deed.call = number <;> simp [actionsOf, same]

theorem recordsOf_concat (handler : Nat) (history : List Deed) (deed : Deed)
    : recordsOf handler (history ++ [deed])
      = recordsOf handler history
        ++ if deed.handler = handler then deed.action.record?.toList else [] := by
  by_cases same : deed.handler = handler
  · cases logs : deed.action.record? <;> simp [recordsOf, same, logs]
  · simp [recordsOf, same]

theorem swapsOf_concat (history : List Deed) (deed : Deed)
    : swapsOf (history ++ [deed])
      = swapsOf history ++ (deed.action.swap?.map fun first => (deed.call, first)).toList := by
  cases swaps : deed.action.swap? <;> simp [swapsOf, swaps]

/-- A swap tells that it was the first exactly if there was none before. -/
theorem OnlyFirst.concat {state : RunState} {swaps : List (Nat × Bool)}
    (onlyFirst : OnlyFirst state swaps) (number : Nat)
    : OnlyFirst .halted (swaps ++ [(number, decide (state = .running))]) := by
  cases swaps with
  | nil =>
      cases onlyFirst
      exact ⟨rfl, rfl, by simp⟩
  | cons earliest rest =>
      obtain ⟨rfl, first, others⟩ := onlyFirst
      refine ⟨rfl, first, ?_⟩
      intro swap member
      rcases List.mem_append.mp member with old | new
      · exact others swap old
      · rw [List.mem_singleton.mp new]
        rfl

/-- A fault that takes another action than the first has masked interrupts before. -/
theorem Tracked.masked_next (tracked : system.Tracked latch) {number : Nat} {call : FaultCall}
    {handler : FaultHandler} {step : FaultStep} (underWay : system.calls[number]? = some call)
    (next : call.next? handler system.core = some step)
    (took : step.Took handler system.core)
    : step.core.interruptsEnabled = false := by
  have performed := tracked.performed number call underWay
  by_cases done : system.history = []
  · apply took.masks
    have none : call.stage.actions call.fault = [] := by rw [← performed, done]; rfl
    rcases call with ⟨fault, _ | _ | first | first | first⟩
    case entered =>
      cases next
      rfl
    all_goals cases none
  · exact took.masked (tracked.masked done)

theorem Tracked.took (tracked : system.Tracked latch) {call : FaultCall} {handler : FaultHandler}
    {step : FaultStep} (reached : system.handlers[call.fault.handler]? = some handler)
    (next : call.next? handler system.core = some step)
    : handler.latch = latch
      ∧ step.Took handler system.core
      ∧ ∃ built,
          system.built[call.fault.handler]? = some built
          ∧ handler = built.after (recordsOf call.fault.handler system.history) := by
  rw [tracked.handlers, List.getElem?_mapIdx] at reached
  obtain ⟨built, wasBuilt, rfl⟩ := Option.map_eq_some_iff.mp reached
  obtain ⟨sameLatch, sameMask⟩ := tracked.shared built (List.mem_of_getElem? wasBuilt)
  exact ⟨sameLatch, FaultCall.took_next? sameMask next, built, wasBuilt, rfl⟩

theorem Tracked.acted (tracked : system.Tracked latch) {number : Nat} {call : FaultCall}
    {handler : FaultHandler} {step : FaultStep}
    (underWay : system.calls[number]? = some call)
    (reached : system.handlers[call.fault.handler]? = some handler)
    (next : call.next? handler system.core = some step)
    : (system.act number call step).Tracked latch := by
  have numbered : number < system.calls.length := (List.getElem?_eq_some_iff.mp underWay).1
  obtain ⟨rfl, took, built, wasBuilt, original⟩ := tracked.took reached next
  refine ⟨tracked.shared, ?present, ?handlers, ?known, ?performed,
    fun _ => tracked.masked_next underWay next took, ?onlyFirst, ?journal⟩
  case present => exact took.latches ▸ tracked.present
  case handlers =>
    apply List.ext_getElem?
    intro index
    simp only [act, List.getElem?_mapIdx, recordsOf_concat, FaultHandler.after_append]
    by_cases same : call.fault.handler = index
    · subst index
      have known : call.fault.handler < system.handlers.length :=
        (List.getElem?_eq_some_iff.mp reached).1
      rw [List.getElem?_set_self known, wasBuilt, took.reported, original, if_pos rfl]
      rfl
    · rw [List.getElem?_set_ne same, tracked.handlers, List.getElem?_mapIdx]
      simp only [same, if_false, FaultHandler.after_nil]
  case known =>
    intro deed member
    simp only [act, List.length_set]
    rcases List.mem_append.mp member with old | new
    · exact tracked.known deed old
    · rw [List.mem_singleton.mp new]
      exact ⟨numbered, (List.getElem?_eq_some_iff.mp wasBuilt).1⟩
  case performed =>
    intro other otherCall otherUnderWay
    simp only [act] at otherUnderWay ⊢
    rw [actionsOf_concat]
    by_cases same : number = other
    · subst other
      rw [List.getElem?_set_self numbered] at otherUnderWay
      cases otherUnderWay
      rw [if_pos rfl, tracked.performed number call underWay]
      exact (FaultCall.actions_next? next).symm
    · rw [List.getElem?_set_ne same] at otherUnderWay
      rw [if_neg same, List.append_nil, tracked.performed other otherCall otherUnderWay]
  case onlyFirst =>
    simp only [act]
    rw [swapsOf_concat]
    cases swap : step.action.swap? with
    | none => simpa [took.state_of_unswapped swap] using tracked.onlyFirst
    | some first =>
        obtain ⟨found, halted⟩ := took.state_of_swap tracked.present swap
        rw [halted, found]
        exact tracked.onlyFirst.concat number
  case journal =>
    simp only [act]
    rw [took.journal, tracked.journal, List.filterMap_append, original, FaultHandler.notes_after]
    cases notes : built.notes step.action <;> simp [wasBuilt, notes]

theorem Tracked.next (tracked : system.Tracked latch) {later : FaultSystem}
    (effect : Effect latch system later)
    : later.Tracked latch := by
  cases effect with
  | nothing => exact tracked
  | built reporter parking => exact tracked.built reporter parking
  | raised known => exact tracked.raised _
  | acted underWay reached next => exact tracked.acted underWay reached next

/-- No move sets the mask or the latch back. -/
theorem Tracked.kept (tracked : system.Tracked latch) {later : FaultSystem}
    (effect : Effect latch system later)
    : (system.core.interruptsEnabled = false → later.core.interruptsEnabled = false)
      ∧ (system.core.state latch = .halted → later.core.state latch = .halted) := by
  cases effect with
  | nothing | built | raised => exact ⟨id, id⟩
  | @acted number call handler step underWay reached next =>
      obtain ⟨rfl, took, _⟩ := tracked.took reached next
      refine ⟨took.masked, ?_⟩
      intro halted
      change step.core.state handler.latch = .halted
      cases swap : step.action.swap? with
      | none => rw [took.state_of_unswapped swap, halted]
      | some first => exact (took.state_of_swap tracked.present swap).2

theorem Tracked.run (tracked : system.Tracked latch) (moves : List FaultMove)
    : (system.run latch moves).Tracked latch :=
  run_induction (fun _ _ effect held => held.next effect) tracked moves

theorem Tracked.kept_run (tracked : system.Tracked latch) (moves : List FaultMove)
    : let later := system.run latch moves
      (system.core.interruptsEnabled = false → later.core.interruptsEnabled = false)
      ∧ (system.core.state latch = .halted → later.core.state latch = .halted) := by
  induction moves generalizing system with
  | nil => exact ⟨id, id⟩
  | cons move rest ih =>
      have effect := effect_step latch system move
      obtain ⟨masked, halted⟩ := tracked.kept effect
      obtain ⟨restMasked, restHalted⟩ := ih (tracked.next effect)
      exact ⟨restMasked ∘ masked, restHalted ∘ halted⟩

end Steps

--------------------------------------------------------------------------------
-- What the invariant implies
--------------------------------------------------------------------------------

section Consequences

variable {latch : Nat} {system : FaultSystem}

theorem Tracked.swapped_of_halted (tracked : system.Tracked latch)
    (halted : system.core.state latch = .halted)
    : swapsOf system.history ≠ [] := by
  intro none
  have running := tracked.onlyFirst
  rw [none, OnlyFirst, halted] at running
  cases running

theorem Tracked.masked_of_halted (tracked : system.Tracked latch)
    (halted : system.core.state latch = .halted)
    : system.core.interruptsEnabled = false := by
  apply tracked.masked
  intro none
  apply tracked.swapped_of_halted halted
  rw [none]
  rfl

/-- The actions of a fault are those up to its stage. -/
theorem Tracked.call_of_mem (tracked : system.Tracked latch) {number : Nat} {action : FaultAction}
    (member : action ∈ actionsOf number system.history)
    : ∃ call, system.calls[number]? = some call ∧ action ∈ call.stage.actions call.fault := by
  obtain ⟨deed, done, rfl, rfl⟩ := mem_actionsOf.mp member
  have started := (tracked.known deed done).1
  refine ⟨system.calls[deed.call], List.getElem?_eq_getElem started, ?_⟩
  rw [← tracked.performed _ _ (List.getElem?_eq_getElem started)]
  exact member

/-- A fault swaps the latch at most once. -/
theorem Tracked.swap_unique (tracked : system.Tracked latch) {number : Nat} {first other : Bool}
    (swap : (number, first) ∈ swapsOf system.history)
    (otherSwap : (number, other) ∈ swapsOf system.history)
    : first = other := by
  obtain ⟨⟨fault, stage⟩, underWay, taken⟩ := tracked.call_of_mem (mem_swapsOf.mp swap)
  obtain ⟨_, sameUnderWay, otherTaken⟩ := tracked.call_of_mem (mem_swapsOf.mp otherSwap)
  cases underWay.symm.trans sameUnderWay
  cases stage <;> simp_all [FaultStage.actions]

/-- The record of a fault says what its swap told. -/
theorem Tracked.logged (tracked : system.Tracked latch) {number : Nat} {record : LogRecord}
    (logged : (number, record) ∈ system.log)
    : ∃ call first,
        system.calls[number]? = some call
        ∧ (number, first) ∈ swapsOf system.history
        ∧ record = FaultHandler.record first call.fault.module call.fault.location := by
  obtain ⟨⟨fault, stage⟩, underWay, taken⟩ := tracked.call_of_mem (mem_log.mp logged)
  have performed := tracked.performed number _ underWay
  rcases stage with _ | _ | first | first | first
  case entered | masked | halted => simp [FaultStage.actions] at taken
  all_goals
    refine ⟨_, first, underWay, ?_, by simpa [FaultStage.actions] using taken⟩
    rw [mem_swapsOf, performed]
    simp [FaultStage.actions]

/-- Only the first swap found the latch running. -/
theorem Tracked.first_iff (tracked : system.Tracked latch) {number : Nat} {first : Bool}
    (swap : (number, first) ∈ swapsOf system.history)
    : first = true ↔ system.swaps.head? = some number := by
  have onlyFirst := tracked.onlyFirst
  have unique := fun other (otherSwap : (number, other) ∈ swapsOf system.history) =>
    tracked.swap_unique swap otherSwap
  rw [swaps]
  generalize swapsOf system.history = taken at swap onlyFirst unique
  rcases taken with _ | ⟨⟨earliest, found⟩, rest⟩
  · cases swap
  · obtain ⟨_, rfl, others⟩ := onlyFirst
    simp only [List.map_cons, List.head?_cons, Option.some.injEq]
    constructor
    · rintro rfl
      rcases List.mem_cons.mp swap with same | later
      · exact (congrArg Prod.fst same).symm
      · cases others _ later
    · rintro rfl
      exact unique true List.mem_cons_self

/-- Each fault is in the log at most once. -/
theorem Tracked.nodup_log (tracked : system.Tracked latch)
    : (system.log.map Prod.fst).Nodup := by
  rw [List.nodup_iff_count_le_one]
  intro number
  rw [count_log]
  by_cases started : number < system.calls.length
  · rw [tracked.performed number _ (List.getElem?_eq_getElem started)]
    cases system.calls[number].stage <;>
      simp [FaultStage.actions, FaultAction.record?, List.filterMap_cons]
  · have idle : actionsOf number system.history = [] := by
      rw [List.eq_nil_iff_forall_not_mem]
      intro action member
      obtain ⟨_, underWay, _⟩ := tracked.call_of_mem member
      exact started (List.getElem?_eq_some_iff.mp underWay).1
    simp [idle]

/-- Whoever says that it was the first swapped first. -/
theorem Tracked.first_of_message (tracked : system.Tracked latch) {number : Nat}
    {record : LogRecord} (logged : (number, record) ∈ system.log)
    : record.format = FaultHandler.assertionFailed ↔ system.swaps.head? = some number := by
  obtain ⟨call, first, _, swap, rfl⟩ := tracked.logged logged
  rw [← tracked.first_iff swap]
  cases first <;> simp [FaultHandler.record, FaultHandler.assertionFailed,
    FaultHandler.repeatedAssertion]

end Consequences

--------------------------------------------------------------------------------
-- Main statement
--------------------------------------------------------------------------------

/-- The records that say that they are the first. -/
def firstRecords (system : FaultSystem) : List (Nat × LogRecord) :=
  system.log.filter fun entry => entry.2.format = "assertion failed"

/-- What holds of the latch, the mask and the logs, however far each fault has come. -/
structure Orderly (latch : Nat) (system : FaultSystem) : Prop where
  masked : system.core.state latch = .halted → system.core.interruptsEnabled = false
  logged
    : system.log ≠ [] →
      system.core.state latch = .halted ∧ system.core.interruptsEnabled = false
  /-- Each fault has taken the first of four actions, and its record is its own. -/
  inOrder
    : ∀ (number : Nat) call,
        system.calls[number]? = some call →
        ∃ first,
          actionsOf number system.history
          <+: [
            .mask,
            .swap first,
            .log {
              severity := .fatal
              format := if first then "assertion failed" else "assertion failed while halted"
              module := call.fault.module
              location := call.fault.location
            },
            .park
          ]
  message
    : ∀ number record,
        (number, record) ∈ system.log →
        record.format
        = if system.swaps.head? = some number then "assertion failed"
          else "assertion failed while halted"
  atMostOne : system.firstRecords.length ≤ 1
  exactlyOne
    : system.calls ≠ [] →
      (∀ number < system.calls.length, ∃ record, (number, record) ∈ system.log) →
      system.firstRecords.length = 1
  /-- The log of a handler has exactly the records of the faults that reached it. -/
  logs
    : ∀ (index : Nat) handler,
        system.built[index]? = some handler →
        ∃ later,
          system.handlers[index]? = some later
          ∧ later.reporter = handler.reporter.after (recordsOf index system.history)
  /-- The journal has exactly what the faults made the stand-ins note down. -/
  journal
    : system.core.journal
      = system.history.filterMap fun deed =>
          system.built[deed.handler]?.bind (·.notes deed.action)

section Main

variable {latch : Nat} {system : FaultSystem}

theorem Tracked.head_of_mem_firstRecords (tracked : system.Tracked latch)
    {entry : Nat × LogRecord} (member : entry ∈ system.firstRecords)
    : system.swaps.head? = some entry.1 := by
  obtain ⟨logged, message⟩ := List.mem_filter.mp member
  exact (tracked.first_of_message logged).mp (of_decide_eq_true message)

theorem Tracked.length_firstRecords_le (tracked : system.Tracked latch)
    : system.firstRecords.length ≤ 1 := by
  have nodup : (system.firstRecords.map Prod.fst).Nodup :=
    tracked.nodup_log.sublist (List.filter_sublist.map Prod.fst)
  have earliest := fun entry (member : entry ∈ system.firstRecords) =>
    tracked.head_of_mem_firstRecords member
  generalize system.firstRecords = records at nodup earliest
  rcases records with _ | ⟨entry, _ | ⟨other, rest⟩⟩
  · exact Nat.zero_le 1
  · exact Nat.le_refl 1
  · have same : entry.1 = other.1 := by
      apply Option.some.inj
      rw [← earliest entry (by simp), ← earliest other (by simp)]
    simp [same] at nodup

/-- The fault that swapped first logs at last that it did. -/
theorem Tracked.length_firstRecords (tracked : system.Tracked latch)
    (started : system.calls ≠ [])
    (logged : ∀ number < system.calls.length, ∃ record, (number, record) ∈ system.log)
    : system.firstRecords.length = 1 := by
  obtain ⟨someRecord, someLogged⟩ := logged 0 (List.length_pos_iff.mpr started)
  obtain ⟨_, first, _, someSwap, _⟩ := tracked.logged someLogged
  have someSwapped : system.swaps ≠ [] := List.ne_nil_of_mem (List.mem_map_of_mem someSwap)
  obtain ⟨earliest, head⟩ :=
    Option.ne_none_iff_exists'.mp (mt List.head?_eq_none_iff.mp someSwapped)
  obtain ⟨⟨number, found⟩, swap, rfl⟩ := List.mem_map.mp (List.mem_of_head? head)
  obtain ⟨call, underWay, _⟩ := tracked.call_of_mem (mem_swapsOf.mp swap)
  obtain ⟨record, recorded⟩ := logged number (List.getElem?_eq_some_iff.mp underWay).1
  have member : (number, record) ∈ system.firstRecords := by
    apply List.mem_filter.mpr
    exact ⟨recorded, decide_eq_true ((tracked.first_of_message recorded).mpr head)⟩
  exact Nat.le_antisymm tracked.length_firstRecords_le (List.length_pos_of_mem member)

theorem Tracked.orderly (tracked : system.Tracked latch) : system.Orderly latch := by
  refine ⟨tracked.masked_of_halted, ?logged, ?inOrder, ?message, tracked.length_firstRecords_le,
    tracked.length_firstRecords, ?logs, tracked.journal⟩
  case logged =>
    intro some
    obtain ⟨⟨number, record⟩, logged⟩ := List.exists_mem_of_ne_nil _ some
    obtain ⟨_, _, _, swap, _⟩ := tracked.logged logged
    have halted := tracked.onlyFirst
    cases taken : swapsOf system.history with
    | nil =>
        rw [taken] at swap
        cases swap
    | cons =>
        rw [taken] at halted
        exact ⟨halted.1, tracked.masked_of_halted halted.1⟩
  case inOrder =>
    intro number call underWay
    rw [tracked.performed number call underWay]
    rcases call with ⟨fault, stage⟩
    cases stage with
    | entered => exact ⟨true, _, rfl⟩
    | masked => exact ⟨true, _, rfl⟩
    | halted first | logged first | parked first => exact ⟨first, _, rfl⟩
  case message =>
    intro number record logged
    obtain ⟨call, first, _, swap, rfl⟩ := tracked.logged logged
    simp only [← tracked.first_iff swap]
    rfl
  case logs =>
    intro index handler built
    refine ⟨handler.after (recordsOf index system.history), ?_, rfl⟩
    rw [tracked.handlers, List.getElem?_mapIdx, built]
    rfl

end Main

/-- However the actions of any faults interleave, from handlers built at any time, the system stays
orderly, and neither the mask nor the latch is ever set back. A fault that nothing disturbs does
what its handler does in one go.
-/
theorem overlapping_faults {latches latch : Nat} (present : latch < latches)
    (moves : List FaultMove)
    : let system := (initial latches).run latch moves
      system.Orderly latch
      ∧ (∀ more,
          let later := system.run latch more
          (system.core.interruptsEnabled = false → later.core.interruptsEnabled = false)
          ∧ (system.core.state latch = .halted → later.core.state latch = .halted))
      ∧ ∀ fault handler,
          system.handlers[fault.handler]? = some handler →
          let number := system.calls.length
          let after := system.run latch
            [.raise fault, .advance number, .advance number, .advance number, .advance number]
          let aftermath := handler.onAssert system.core fault.module fault.location
          after.core = aftermath.core
          ∧ after.handlers = system.handlers.set fault.handler aftermath.handler := by
  intro system
  have tracked : system.Tracked latch := (tracked_initial present).run moves
  exact ⟨tracked.orderly, tracked.kept_run, fun _ _ reached => run_alone latch reached⟩

/-- A fault is raised inside of another that has masked interrupts so far, runs to its end through a
handler of its own, and is the first. The outer fault goes on, a third one is only raised, and a
fourth one is undisturbed.
-/
theorem overlapping_faults_of_nested
    : let moves := [
        .build .standIn .standIn, .raise ⟨0, "outer", 1⟩, .advance 0,
        .build .standIn .standIn, .raise ⟨1, "inner", -2⟩,
        .advance 1, .advance 1, .advance 1, .advance 1,
        .advance 0, .advance 0, .raise ⟨0, "late", 3⟩
      ]
      let system := (initial 1).run 0 moves
      0 < 1
      ∧ system.log = [
          (1, ⟨.fatal, "assertion failed", "inner", -2⟩),
          (0, ⟨.fatal, "assertion failed while halted", "outer", 1⟩)
        ]
      ∧ system.firstRecords.length ≤ 1
      ∧ ((system.run 0 [.advance 2]).core.state 0 = .halted)
      ∧ (system.run 0 [.raise ⟨1, "alone", 4⟩, .advance 3, .advance 3, .advance 3, .advance 3]).core
        = (FaultHandler.onAssert { latch := 0, mask := .core } system.core "alone" 4).core := by
  intro moves system
  obtain ⟨orderly, kept, alone⟩ := overlapping_faults (show 0 < 1 by decide) moves
  refine ⟨by decide, by decide, orderly.atMostOne, (kept [.advance 2]).2 (by decide), ?_⟩
  exact (alone ⟨1, "alone", 4⟩ { latch := 0, mask := .core } rfl).1

end FaultSystem

end Firmware
