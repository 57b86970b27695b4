import Firmware.Proofs.Heap.HistoryIndependence
import Firmware.Proofs.Heap.StaleHandles

/-! What clients write into their blocks does not reach the pool.
Two runs with the same requests get the same answers and go through the same pools, whatever bytes
they write into live blocks, as long as no request names a forged handle
(`Session.decisions_independent_of_data`). A handle is forged if no block is live at it and yet the
bytes in front of it are a live header. A handle that was given back can only be forged once a block
that was handed out since covers its tag; then the bytes of that block do decide what becomes of a
release (`Session.decisions_depend_on_forged_data`).
-/

namespace Firmware

/-- A request, not a write. -/
def Event.IsAsk : Event → Bool
  | .ask _ _ => true
  | .write _ _ _ => false

namespace Session

/-- No block is live at the handle, but the bytes in front of it are a live header. -/
def Forged (session : Session) (handle : Nat) : Prop :=
  ¬ session.ledger.Live handle ∧ session.region.inspect handle ≠ none

instance (session : Session) (handle : Nat) : Decidable (session.Forged handle) :=
  inferInstanceAs (Decidable (_ ∧ _))

/-- Requests do not name forged handles; writes stay inside the usable bytes of a live block. -/
def Spares (session : Session) : Event → Prop
  | .ask _ request => ∀ handle ∈ request.block?, ¬ session.Forged handle
  | .write handle offset bytes => (Event.write handle offset bytes).Allowed session.ledger

instance (session : Session) : (event : Event) → Decidable (session.Spares event)
  | .ask _ request =>
      inferInstanceAs (Decidable (∀ handle ∈ request.block?, ¬ session.Forged handle))
  | .write handle offset bytes =>
      inferInstanceAs (Decidable ((Event.write handle offset bytes).Allowed session.ledger))

/-- No step of a run names a forged handle when it is taken. -/
def Unforged (session : Session) : List Event → Prop
  | [] => True
  | event :: rest => session.Spares event ∧ (session.step event).Unforged rest

instance decidableUnforged (session : Session)
    : (events : List Event) → Decidable (session.Unforged events)
  | [] => inferInstanceAs (Decidable True)
  | event :: rest =>
      have := decidableUnforged (session.step event) rest
      inferInstanceAs (Decidable (session.Spares event ∧ (session.step event).Unforged rest))

/-- What the heap decides in a run: the answer to each request, and the pool that it leaves. -/
def decisions (session : Session) : List Event → List (Except HeapFault Reply × Pool)
  | [] => []
  | .ask surface request :: rest =>
      let next := session.step (.ask surface request)
      ((session.perform (.ask surface request)).1, next.region.pool) :: next.decisions rest
  | .write handle offset bytes :: rest => (session.step (.write handle offset bytes)).decisions rest

theorem Spares.dead {session : Session} {surface : Surface} {request : Request}
    (spares : session.Spares (.ask surface request))
    : ∀ handle ∈ request.block?,
        ¬ session.ledger.Live handle → session.region.inspect handle = none :=
  fun handle about notLive =>
    Decidable.not_not.mp fun header => spares handle about ⟨notLive, header⟩

/-- Handles that clients may use are not forged. -/
theorem Sound.not_forged {session : Session} (sound : session.Sound) {handle : Nat}
    (known : session.ledger.Live handle ∨ handle ∈ session.ledger.stale)
    : ¬ session.Forged handle :=
  fun forged => forged.2 (sound.inspect_of_not_live known forged.1)

/-- A request about a handle at which no block is live, and that is not forged, changes nothing. -/
theorem step_not_live {session : Session} {handle : Nat} (notLive : ¬ session.ledger.Live handle)
    (honest : ¬ session.Forged handle) (surface : Surface) {request : Request}
    (about : request.block? = some handle)
    : session.step (.ask surface request) = session := by
  have dead : session.region.inspect handle = none :=
    Decidable.not_not.mp fun header => honest ⟨notLive, header⟩
  obtain ⟨sameRegion, reply, answered, noBlock⟩ := perform_dead dead surface about
  have sameLedger : (session.step (.ask surface request)).ledger = session.ledger := by
    have result : (surface.serve request session.region).result = .ok reply := answered
    cases reached : surface.call? Region request with
    | none => simp only [step, perform, Ledger.afterRequest, reached]
    | some call =>
        simp only [step, perform, Ledger.afterRequest, reached, result, noBlock]
        have callAbout := (Surface.block?_call? reached).trans about
        cases call with
        | allocate size | allocateZeroed size => cases callAbout
        | reallocate other size => rfl
        | release other =>
            cases callAbout
            exact if_neg notLive
  calc session.step (.ask surface request)
      = ⟨(session.step (.ask surface request)).region,
          (session.step (.ask surface request)).ledger⟩ := rfl
    _ = session := by rw [sameRegion, sameLedger]

--------------------------------------------------------------------------------
-- Two runs side by side
--------------------------------------------------------------------------------

/-- Sessions that differ in memory at most. -/
structure Twins (left right : Session) : Prop where
  leftSound : left.Sound
  rightSound : right.Sound
  samePool : left.region.pool = right.region.pool
  sameLedger : left.ledger = right.ledger

theorem Twins.symm {left right : Session} (twins : left.Twins right) : right.Twins left :=
  ⟨twins.rightSound, twins.leftSound, twins.samePool.symm, twins.sameLedger.symm⟩

/-- A write on one side leaves twins. -/
theorem Twins.write {left right : Session} (twins : left.Twins right) {handle offset : Nat}
    {bytes : List UInt8} (spares : left.Spares (.write handle offset bytes))
    : (left.step (.write handle offset bytes)).Twins right := by
  have allowed : (Event.write handle offset bytes).Allowed left.ledger := spares
  exact ⟨(twins.leftSound.step allowed).1, twins.rightSound, twins.samePool, twins.sameLedger⟩

/-- The same request on both sides is answered alike and leaves twins. -/
theorem Twins.ask {left right : Session} (twins : left.Twins right) {surface : Surface}
    {request : Request} (leftSpares : left.Spares (.ask surface request))
    (rightSpares : right.Spares (.ask surface request))
    : (left.perform (.ask surface request)).1 = (right.perform (.ask surface request)).1
      ∧ (left.step (.ask surface request)).Twins (right.step (.ask surface request)) := by
  cases reached : surface.call? Region request with
  | none =>
      obtain ⟨refusal, _, answered⟩ := perform_unreached reached
      rw [step, step, answered, answered]
      exact ⟨rfl, twins⟩
  | some call =>
      have sameAnswer : left.answer? call = right.answer? call := by
        rw [answer?, answer?, twins.samePool, twins.sameLedger]
      obtain ⟨leftAfter, leftAnswered, leftFollows, _⟩ :=
        twins.leftSound.perform_call leftSpares.dead reached
      obtain ⟨rightAfter, rightAnswered, rightFollows, _⟩ :=
        twins.rightSound.perform_call rightSpares.dead reached
      rw [step, step, leftAnswered, rightAnswered]
      let leftNext : Session := ⟨leftAfter, left.ledger.record call (left.answer? call)⟩
      let rightNext : Session := ⟨rightAfter, right.ledger.record call (right.answer? call)⟩
      have leftSound : leftNext.Sound := leftFollows.sound
      have rightSound : rightNext.Sound := rightFollows.sound
      have sameLedger : leftNext.ledger = rightNext.ledger := by
        simp only [leftNext, rightNext, sameAnswer, twins.sameLedger]
      -- the pool is what the live blocks leave of the region, whatever is in them
      have samePool : leftNext.region.pool = rightNext.region.pool := by
        refine leftSound.pool_eq rightSound ?_ ?_ fun block => by rw [sameLedger]
        · exact leftFollows.sameBottom.trans
            ((congrArg Pool.bottom twins.samePool).trans rightFollows.sameBottom.symm)
        · exact leftFollows.sameSize.trans
            ((congrArg Pool.size twins.samePool).trans rightFollows.sameSize.symm)
      exact ⟨by rw [sameAnswer], leftSound, rightSound, samePool, sameLedger⟩

/-- Twins decide alike in runs with the same requests, and stay twins, by induction on both runs:
writes are passed over on either side until both come to a request.
-/
theorem Twins.decisions_eq {left right : Session} (twins : left.Twins right)
    {leftEvents rightEvents : List Event}
    (sameRequests : leftEvents.filter Event.IsAsk = rightEvents.filter Event.IsAsk)
    (leftUnforged : left.Unforged leftEvents) (rightUnforged : right.Unforged rightEvents)
    : left.decisions leftEvents = right.decisions rightEvents
      ∧ (left.after leftEvents).Twins (right.after rightEvents) := by
  induction leftEvents generalizing left right rightEvents with
  | nil =>
      induction rightEvents generalizing right with
      | nil => exact ⟨rfl, twins⟩
      | cons event rest ih =>
          cases event with
          | ask surface request => cases sameRequests
          | write handle offset bytes =>
              exact ih (twins.symm.write rightUnforged.1).symm sameRequests rightUnforged.2
  | cons leftEvent leftRest leftInduction =>
      cases leftEvent with
      | write handle offset bytes =>
          exact leftInduction (twins.write leftUnforged.1) sameRequests leftUnforged.2
            rightUnforged
      | ask surface request =>
          induction rightEvents generalizing right with
          | nil => cases sameRequests
          | cons rightEvent rightRest rightInduction =>
              cases rightEvent with
              | write handle offset bytes =>
                  exact rightInduction (twins.symm.write rightUnforged.1).symm rightUnforged.2
                    sameRequests
              | ask otherSurface otherRequest =>
                  obtain ⟨sameEvent, sameRest⟩ := List.cons.inj sameRequests
                  cases sameEvent
                  obtain ⟨sameAnswer, nextTwins⟩ := twins.ask leftUnforged.1 rightUnforged.1
                  obtain ⟨sameDecisions, endTwins⟩ :=
                    leftInduction nextTwins sameRest leftUnforged.2 rightUnforged.2
                  refine ⟨?_, endTwins⟩
                  simp only [decisions, sameAnswer, nextTwins.samePool, sameDecisions]

--------------------------------------------------------------------------------
-- Data and decisions
--------------------------------------------------------------------------------

/-- Two runs with the same requests over the same region, whatever memory held at first and whatever
bytes they write, get the same answers and go through the same pools, unless a request names a
forged handle. Handles that were given back, and not reached since, are not forged; and a request
about a handle at which no block is live changes nothing, unless it is forged.
-/
theorem decisions_independent_of_data {left right : Region} (leftOpened : left.Opened)
    (rightOpened : right.Opened) (samePool : left.pool = right.pool)
    {leftEvents rightEvents : List Event}
    (sameRequests : leftEvents.filter Event.IsAsk = rightEvents.filter Event.IsAsk)
    (leftUnforged : (fresh left).Unforged leftEvents)
    (rightUnforged : (fresh right).Unforged rightEvents)
    : let leftEnd := (fresh left).after leftEvents
      let rightEnd := (fresh right).after rightEvents
      (fresh left).decisions leftEvents = (fresh right).decisions rightEvents
      ∧ leftEnd.region.pool = rightEnd.region.pool
      ∧ leftEnd.ledger = rightEnd.ledger
      ∧ (∀ handle ∈ leftEnd.ledger.stale, ¬ leftEnd.Forged handle)
      ∧ ∀ handle surface request,
          ¬ leftEnd.ledger.Live handle →
          ¬ leftEnd.Forged handle →
          request.block? = some handle →
          leftEnd.step (.ask surface request) = leftEnd := by
  intro leftEnd rightEnd
  have twins : (fresh left).Twins (fresh right) :=
    ⟨leftOpened.sound, rightOpened.sound, samePool, rfl⟩
  obtain ⟨sameDecisions, endTwins⟩ := twins.decisions_eq sameRequests leftUnforged rightUnforged
  refine ⟨sameDecisions, endTwins.samePool, endTwins.sameLedger, ?_, ?_⟩
  · exact fun handle stale => endTwins.leftSound.not_forged (Or.inr stale)
  · exact fun handle surface request notLive honest about =>
      step_not_live notLive honest surface about

/-- A block lies over the tag of a handle that was given back. The runs write the tag of a retired
block there, and one that is live but for its last byte, and then release the handle again.
-/
theorem decisions_independent_of_data_over_tag
    : let usable : Pool := { bottom := 4096, size := 256, holes := [⟨4096, 256⟩] }
      let left : Region := ⟨Pool.storeNodes (fun _ => 0) usable.holes, usable⟩
      let right : Region := ⟨Pool.storeNodes (fun _ => 7) usable.holes, usable⟩
      let requests := [
        .ask .plain (.allocate 8),
        .ask .plain (.allocate 8),
        .ask .plain (.release (some 4104)),
        .ask .plain (.release (some 4120)),
        .ask .plain (.allocate 24)
      ]
      let again := .ask .plain (.release (some 4120))
      let leftEvents := requests ++ [.write 4104 8 [0, 0, 0, 0], again]
      let rightEvents := requests ++ [.write 4104 8 [0x1C, 0xA1, 0x0C], .write 4104 0 [1], again]
      Region.init? (fun _ => 0) 4096 256 = .ok left
      ∧ Region.init? (fun _ => 7) 4096 256 = .ok right
      ∧ leftEvents.filter Event.IsAsk = rightEvents.filter Event.IsAsk
      ∧ (fresh left).Unforged leftEvents
      ∧ (fresh right).Unforged rightEvents
      ∧ 4120 ∉ ((fresh left).after leftEvents).ledger.stale
      ∧ (fresh left).decisions leftEvents = (fresh right).decisions rightEvents := by
  intro usable left right requests again leftEvents rightEvents
  have leftReady : Region.init? (fun _ => 0) 4096 256 = .ok left := rfl
  have rightReady : Region.init? (fun _ => 7) 4096 256 = .ok right := rfl
  have sameRequests : leftEvents.filter Event.IsAsk = rightEvents.filter Event.IsAsk := rfl
  have leftUnforged : (fresh left).Unforged leftEvents := by decide
  have rightUnforged : (fresh right).Unforged rightEvents := by decide
  have same := decisions_independent_of_data (.init leftReady) (.init rightReady) rfl sameRequests
    leftUnforged rightUnforged
  exact ⟨leftReady, rightReady, sameRequests, leftUnforged, rightUnforged, by decide, same.1⟩

/-- Requests name handles that are known, whether or not they were given back since; writes stay
inside the usable bytes of a live block.
-/
def Remembers (session : Session) (known : List Nat) : Event → Prop
  | .ask _ request => ∀ handle ∈ request.block?, handle ∈ known
  | .write handle offset bytes => (Event.write handle offset bytes).Allowed session.ledger

instance (session : Session) (known : List Nat)
    : (event : Event) → Decidable (session.Remembers known event)
  | .ask _ request => inferInstanceAs (Decidable (∀ handle ∈ request.block?, handle ∈ known))
  | .write handle offset bytes =>
      inferInstanceAs (Decidable ((Event.write handle offset bytes).Allowed session.ledger))

/-- Every handle that a run names was known at first or handed out earlier. -/
def Recalls (session : Session) (known : List Nat) : List Event → Prop
  | [] => True
  | event :: rest =>
      session.Remembers known event
      ∧ (session.step event).Recalls
          ((session.handedOut [event]).map Block.address ++ known) rest

instance decidableRecalls (session : Session) (known : List Nat)
    : (events : List Event) → Decidable (session.Recalls known events)
  | [] => inferInstanceAs (Decidable True)
  | event :: rest =>
      have := decidableRecalls (session.step event)
        ((session.handedOut [event]).map Block.address ++ known) rest
      inferInstanceAs (Decidable (session.Remembers known event ∧ _))

/-- Two runs that name no handle but those they were handed out, and that differ in four bytes of a
live block. The bytes lie where the tag of a released block was: if they are those of a live tag,
releasing that block again frees the inside of the live one.
-/
theorem decisions_depend_on_forged_data
    : let usable : Pool := { bottom := 4096, size := 256, holes := [⟨4096, 256⟩] }
      let region : Region := ⟨Pool.storeNodes (fun _ => 0) usable.holes, usable⟩
      let run (tag : List UInt8) := [
        .ask .plain (.allocate 8),
        .ask .plain (.allocate 8),
        .ask .plain (.release (some 4104)),
        .ask .plain (.release (some 4120)),
        .ask .plain (.allocate 24),
        .write 4104 8 tag,
        .ask .plain (.release (some 4120))
      ]
      let forged := run [0x1C, 0xA1, 0x0C, 0xB1]
      let plain := run [0, 0, 0, 0]
      Region.init? (fun _ => 0) 4096 256 = .ok region
      ∧ (fresh region).Recalls [] forged
      ∧ (fresh region).Recalls [] plain
      ∧ forged.filter Event.IsAsk = plain.filter Event.IsAsk
      ∧ ((fresh region).after forged).ledger.live = [⟨4104, 24⟩]
      ∧ ((fresh region).after plain).region.pool.holes = [⟨4128, 224⟩]
      ∧ ((fresh region).after forged).region.pool.holes = [⟨4112, 240⟩]
      ∧ (fresh region).decisions forged ≠ (fresh region).decisions plain := by
  intro usable region run forged plain
  exact ⟨rfl, by decide, by decide, rfl, by decide, by decide, by decide, by decide⟩

end Session

end Firmware
