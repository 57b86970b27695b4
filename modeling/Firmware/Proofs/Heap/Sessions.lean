import Firmware.Heap.Region
import Firmware.Proofs.Heap.Calls

/-! Sessions: a region heap, its clients, and what has become of every block.
A session is a region with a ledger of the blocks that are live and of the handles that are stale
but harmless. The ledger follows from what calls are asked and answered, never from memory.
Clients make requests on any surface with handles they may still use, and write any bytes into
blocks that are live (`Session.Admits`).
-/

namespace Firmware

/-- A block as its client knows it: its handle, and the number of bytes asked for. -/
structure Block where
  address : Nat
  size : Nat
deriving DecidableEq, Repr

namespace Block

/-- The extent that is taken for the block and its header. -/
def extent (block : Block) : Extent :=
  ⟨BlockHeader.rawOf block.address, Pool.extentSize (block.size + BlockHeader.size)⟩

/-- The address lies in the header or the usable bytes of the block. -/
def Owns (block : Block) (address : Nat) : Prop :=
  BlockHeader.rawOf block.address ≤ address
  ∧ address < BlockHeader.rawOf block.address + (block.size + BlockHeader.size)

/-- A byte of the tag in front of the handle lies in the header or the usable bytes of the
block.
-/
def ReachesTag (block : Block) (handle : Nat) : Prop :=
  BlockHeader.rawOf block.address < BlockHeader.rawOf handle + 4
  ∧ BlockHeader.rawOf handle
      < BlockHeader.rawOf block.address + (block.size + BlockHeader.size)

instance (block : Block) (handle : Nat) : Decidable (block.ReachesTag handle) :=
  inferInstanceAs (Decidable (_ ∧ _))

end Block

/-- The blocks of a heap, as far as its clients have to know them. -/
structure Ledger where
  live : List Block := []
  /-- Handles that were given back, and whose tag no block handed out since has reached. -/
  stale : List Nat := []
deriving DecidableEq, Repr

namespace Ledger

/-- A live block starts at the handle. -/
def Live (ledger : Ledger) (handle : Nat) : Prop :=
  ∃ block ∈ ledger.live, block.address = handle

instance (ledger : Ledger) (handle : Nat) : Decidable (ledger.Live handle) :=
  inferInstanceAs (Decidable (∃ block ∈ ledger.live, block.address = handle))

/-- A block is handed out. Handles whose tag it reaches are not harmless any longer. -/
def grant (ledger : Ledger) (block : Block) : Ledger where
  live := block :: ledger.live
  stale := ledger.stale.filter fun handle => ¬ block.ReachesTag handle

/-- The live blocks other than the one at the handle. -/
def without (live : List Block) (handle : Nat) : List Block :=
  live.filter fun block => block.address ≠ handle

/-- A live block is given back, and its handle becomes stale. Other handles cannot be given
back.
-/
def giveBack (ledger : Ledger) (handle : Nat) : Ledger :=
  if ledger.Live handle then
    { live := without ledger.live handle, stale := handle :: ledger.stale }
  else ledger

/-- Whether or not a block is live at the handle, none is afterwards. -/
theorem live_giveBack (ledger : Ledger) (handle : Nat)
    : (ledger.giveBack handle).live = without ledger.live handle := by
  by_cases live : ledger.Live handle
  · rw [giveBack, if_pos live]
  · rw [giveBack, if_neg live]
    refine (List.filter_eq_self.mpr fun block member => ?_).symm
    exact decide_eq_true fun same => live ⟨block, member, same⟩

end Ledger

/-- The block that a call with this answer hands out. -/
def Call.granted? (call : Call) (answer : Option Nat) : Option Block := do
  let size ← call.size?
  let address ← answer
  some { address, size }

/-- The handle that a call with this answer gives back: a resized block is moved away. -/
def Call.returned? (call : Call) (answer : Option Nat) : Option Nat :=
  match call with
  | .allocate _ | .allocateZeroed _ => none
  | .reallocate handle _ => answer.map fun _ => handle
  | .release handle => some handle

theorem Call.block?_of_returned? {call : Call} {answer : Option Nat} {handle : Nat}
    (returned : call.returned? answer = some handle)
    : call.block? = some handle := by
  cases call with
  | allocate | allocateZeroed => cases returned
  | reallocate block size =>
      obtain ⟨_, _, same⟩ := Option.map_eq_some_iff.mp returned
      exact congrArg some same
  | release block => exact returned

/-- The ledger after a call with this answer. -/
def Ledger.record (ledger : Ledger) (call : Call) (answer : Option Nat) : Ledger :=
  let granted :=
    match call.granted? answer with
    | none => ledger
    | some block => ledger.grant block
  match call.returned? answer with
  | none => granted
  | some handle => granted.giveBack handle

--------------------------------------------------------------------------------
-- Sessions
--------------------------------------------------------------------------------

/-- A step of a client: a request on a surface, or bytes written into a block. -/
inductive Event where
  | ask (surface : Surface) (request : Request)
  | write (handle offset : Nat) (bytes : List UInt8)
deriving DecidableEq, Repr

/-- Requests may name the null handle, live blocks and harmless stale handles; writes have to
stay inside the usable bytes of a live block.
-/
def Event.Allowed (ledger : Ledger) : Event → Prop
  | .ask _ request => ∀ handle ∈ request.block?, ledger.Live handle ∨ handle ∈ ledger.stale
  | .write handle offset bytes =>
      ∃ block ∈ ledger.live, block.address = handle ∧ offset + bytes.length ≤ block.size

instance (ledger : Ledger) : (event : Event) → Decidable (event.Allowed ledger)
  | .ask _ request =>
      inferInstanceAs
        (Decidable (∀ handle ∈ request.block?, ledger.Live handle ∨ handle ∈ ledger.stale))
  | .write handle offset bytes =>
      inferInstanceAs
        (Decidable
          (∃ block ∈ ledger.live, block.address = handle ∧ offset + bytes.length ≤ block.size))

/-- The block that a step with this result hands out. -/
def Event.granted? (event : Event) (result : Except HeapFault Reply) : Option Block :=
  match event, result with
  | .ask surface request, .ok reply =>
      (surface.call? Region request).bind fun call => call.granted? reply.block?
  | _, _ => none

/-- The ledger after a request with this result. A request that is not passed on, or that stops
the program, changes nothing.
-/
def Ledger.afterRequest (ledger : Ledger) (surface : Surface) (request : Request)
    (result : Except HeapFault Reply)
    : Ledger :=
  match surface.call? Region request, result with
  | some call, .ok reply => ledger.record call reply.block?
  | _, _ => ledger

/-- A region heap together with its ledger. -/
structure Session where
  region : Region
  ledger : Ledger := {}

namespace Session

/-- A step, with its result. -/
def perform (session : Session) : Event → Except HeapFault Reply × Session
  | .ask surface request =>
      let outcome := surface.serve request session.region
      (outcome.result, {
        region := outcome.heap
        ledger := session.ledger.afterRequest surface request outcome.result
      })
  | .write handle offset bytes =>
      let memory :=
        session.region.memory.overwrite (handle + offset) bytes.length fun i => bytes.getD i 0
      (.ok .done, { session with region := { session.region with memory } })

/-- The session after one step. -/
def step (session : Session) (event : Event) : Session := (session.perform event).2

/-- The session after a run. -/
def after (session : Session) : List Event → Session
  | [] => session
  | event :: rest => (session.step event).after rest

/-- The results of the steps of a run. -/
def results (session : Session) : List Event → List (Except HeapFault Reply)
  | [] => []
  | event :: rest => (session.perform event).1 :: (session.step event).results rest

/-- The blocks that are handed out in the course of a run. -/
def handedOut (session : Session) : List Event → List Block
  | [] => []
  | event :: rest =>
      (event.granted? (session.perform event).1).toList ++ (session.step event).handedOut rest

/-- Every step of a run is allowed when it is taken. -/
def Admits (session : Session) : List Event → Prop
  | [] => True
  | event :: rest => event.Allowed session.ledger ∧ (session.step event).Admits rest

instance decidableAdmits (session : Session)
    : (events : List Event) → Decidable (session.Admits events)
  | [] => inferInstanceAs (Decidable True)
  | event :: rest =>
      have := decidableAdmits (session.step event) rest
      inferInstanceAs (Decidable (event.Allowed session.ledger ∧ (session.step event).Admits rest))

theorem after_append (session : Session) (earlier later : List Event)
    : session.after (earlier ++ later) = (session.after earlier).after later := by
  induction earlier generalizing session with
  | nil => rfl
  | cons event rest ih => exact ih (session.step event)

theorem admits_append {session : Session} {earlier later : List Event}
    : session.Admits (earlier ++ later)
      ↔ session.Admits earlier ∧ (session.after earlier).Admits later := by
  induction earlier generalizing session with
  | nil => simp [Admits, after]
  | cons event rest ih =>
      simp only [List.cons_append, Admits, after, ih, and_assoc]

/-- What holds at the start and is kept by every allowed step holds after every run, by induction
on the run.
-/
theorem after_induction {invariant : Session → Prop}
    (kept
      : ∀ session event,
          invariant session → event.Allowed session.ledger → invariant (session.step event))
    {session : Session} (atStart : invariant session) {events : List Event}
    (admitted : session.Admits events)
    : invariant (session.after events) := by
  induction events generalizing session with
  | nil => exact atStart
  | cons event rest ih => exact ih (kept session event atStart admitted.1) admitted.2

end Session

end Firmware
