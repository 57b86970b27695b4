import Firmware.Proofs.Heap.RegionCalls

/-! What each step of a client does to a sound session.
The answer to a call follows from the pool and the live blocks alone (`Call.answer?`). A request
that reaches the heap makes exactly its call (`Sound.perform_reached`), and bytes written into a
live block change that block only (`Sound.perform_write`); no step stops the program. By induction
every run that a session admits keeps the session sound (`Sound.after`).
-/

namespace Firmware

--------------------------------------------------------------------------------
-- One call
--------------------------------------------------------------------------------

/-- The block that a call for `size` bytes is answered with, if the pool has room for it. -/
def Pool.blockFor? (pool : Pool) (size : Nat) : Option Nat :=
  (pool.place? size).map fun place => BlockHeader.blockOf place.1

/-- The answer to a call. Only live blocks are resized. -/
def Call.answer? (call : Call) (pool : Pool) (ledger : Ledger) : Option Nat :=
  match call with
  | .allocate size | .allocateZeroed size => pool.blockFor? size
  | .reallocate handle size => if ledger.Live handle then pool.blockFor? size else none
  | .release _ => none

/-- The live blocks that a call with this answer does not give back. -/
def Ledger.remaining (ledger : Ledger) (call : Call) (answer : Option Nat) : List Block :=
  match call.returned? answer with
  | none => ledger.live
  | some handle => without ledger.live handle

/-- What a call writes into the block that it hands out: zeros if that was asked for, and the bytes
of the old block, which was elsewhere, as far as both have room for them.
-/
def Call.Filled (call : Call) (ledger : Ledger) (before after : Memory) (answer : Option Nat)
    : Prop :=
  ∀ address ∈ answer,
    match call with
    | .allocate _ | .release _ => True
    | .allocateZeroed size => ∀ i, i < size → after (address + i) = 0
    | .reallocate handle size =>
        address ≠ handle
        ∧ ∀ old ∈ ledger.live, old.address = handle →
            ∀ i, i < min old.size size → after (address + i) = before (handle + i)

theorem Call.filled_none {call : Call} {ledger : Ledger} {before after : Memory}
    : call.Filled ledger before after none := by
  intro address impossible
  cases impossible

namespace Region.Sound

variable {region : Region} {ledger : Ledger}

/-- Handles that clients may use are either live or dead. -/
theorem inspect_of_not_live (sound : region.Sound [] ledger) {handle : Nat}
    (known : ledger.Live handle ∨ handle ∈ ledger.stale) (dead : ¬ ledger.Live handle)
    : region.inspect handle = none :=
  (sound.inert handle (known.resolve_left dead)).inspect

/-- A call that is about a live block, or about a handle without a live header, is answered from the
pool and the live blocks, by cases on the call and on whether there is room.
-/
theorem perform (sound : region.Sound [] ledger) {call : Call}
    (dead : ∀ handle ∈ call.block?, ¬ ledger.Live handle → region.inspect handle = none)
    : ∃ after,
        call.perform region = .answer (call.answer? region.pool ledger) after
        ∧ region.Follows after (ledger.record call (call.answer? region.pool ledger))
            (ledger.remaining call (call.answer? region.pool ledger))
        ∧ call.Filled ledger region.memory after.memory (call.answer? region.pool ledger) := by
  cases call with
  | allocate size =>
      cases placed : region.pool.place? size with
      | none =>
          simp only [Call.answer?, Pool.blockFor?, placed, Option.map_none]
          exact ⟨region, allocate_of_no_place placed, sound.unchanged, Call.filled_none⟩
      | some place =>
          obtain ⟨after, answered, follows⟩ := allocate_of_place sound placed
          simp only [Call.answer?, Pool.blockFor?, placed, Option.map_some]
          exact ⟨after, answered, follows, fun _ _ => trivial⟩
  | allocateZeroed size =>
      cases placed : region.pool.place? size with
      | none =>
          simp only [Call.answer?, Pool.blockFor?, placed, Option.map_none]
          exact ⟨region, allocateZeroed_of_no_place placed, sound.unchanged, Call.filled_none⟩
      | some place =>
          obtain ⟨after, answered, follows, zeros⟩ := allocateZeroed_of_place sound placed
          simp only [Call.answer?, Pool.blockFor?, placed, Option.map_some]
          refine ⟨after, answered, follows, ?_⟩
          rintro address ⟨⟩
          exact zeros
  | reallocate handle size =>
      by_cases live : ledger.Live handle
      · obtain ⟨old, oldLive, rfl⟩ := live
        have isLive : ledger.Live old.address := ⟨old, oldLive, rfl⟩
        cases placed : region.pool.place? size with
        | none =>
            simp only [Call.answer?, if_pos isLive, Pool.blockFor?, placed, Option.map_none]
            exact ⟨region, reallocate_of_no_place (sound.headers old oldLive) placed,
              sound.unchanged, Call.filled_none⟩
        | some place =>
            obtain ⟨after, answered, follows, elsewhere, copied⟩ :=
              reallocate_of_place sound oldLive placed
            simp only [Call.answer?, if_pos isLive, Pool.blockFor?, placed, Option.map_some]
            refine ⟨after, answered, follows, ?_⟩
            rintro address ⟨⟩
            refine ⟨elsewhere, fun other otherLive same => ?_⟩
            obtain rfl : other = old := sound.eq_of_address otherLive oldLive same
            exact copied
      · simp only [Call.answer?, if_neg live]
        exact ⟨region, reallocate_of_dead (dead handle rfl live), sound.unchanged,
          Call.filled_none⟩
  | release handle =>
      by_cases live : ledger.Live handle
      · obtain ⟨block, blockLive, rfl⟩ := live
        obtain ⟨after, answered, follows⟩ := release_of_live sound blockLive
        refine ⟨after, ?_, follows, Call.filled_none⟩
        exact congrArg (Outcome.map fun _ => none) answered
      · have unchanged : ledger.record (.release handle) none = ledger := if_neg live
        refine ⟨region, ?_, ?_, Call.filled_none⟩
        · exact congrArg (Outcome.map fun _ => none) (release_of_dead (dead handle rfl live))
        · rw [Call.answer?, unchanged]
          exact ⟨sound, rfl, rfl, fun _ _ _ _ => rfl⟩

/-- Bytes written into a live block reach neither its header nor any other block. -/
theorem overwrite {held : List Block} (sound : region.Sound held ledger) {block : Block}
    {offset : Nat} {bytes : List UInt8} (live : block ∈ ledger.live)
    (inside : offset + bytes.length ≤ block.size)
    : let memory :=
        region.memory.overwrite (block.address + offset) bytes.length fun i => bytes.getD i 0
      Region.Sound { region with memory } held ledger
      ∧ Kept (held ++ Ledger.without ledger.live block.address) region.memory memory := by
  intro memory
  have placed := sound.placed block (List.mem_append_right held live)
  have outside : ∀ address, ¬ block.Owns address → memory address = region.memory address := by
    intro address notOwned
    refine if_neg fun written => notOwned ?_
    simp only [Block.Owns, BlockHeader.rawOf]
    omega
  have header : BlockHeader.inspect memory block.address = some block.size := by
    refine (BlockHeader.inspect_congr_front placed fun address _ before => if_neg ?_).trans
      (sound.headers block live)
    omega
  exact ⟨sound.rewrite (List.mem_append_right held live) outside fun _ => header,
    ((sound.hold live).rewriteOwn outside).2⟩

end Region.Sound

--------------------------------------------------------------------------------
-- One step
--------------------------------------------------------------------------------

/-- The region of a session is sound for its ledger, and nothing is held. -/
def Session.Sound (session : Session) : Prop := session.region.Sound [] session.ledger

/-- A request that does not reach the heap is answered alike in every session, and changes
nothing.
-/
theorem Session.perform_unreached {surface : Surface} {request : Request}
    (unreached : surface.call? Region request = none)
    : ∃ refusal : Reply,
        refusal.block? = none
        ∧ ∀ session : Session, session.perform (.ask surface request) = (.ok refusal, session) := by
  obtain ⟨refusal, noBlock, answered⟩ := Surface.serve_unreached unreached
  refine ⟨refusal, noBlock, fun session => ?_⟩
  simp only [perform, answered, Outcome.answer, Ledger.afterRequest, unreached]

/-- The answer to a call. -/
def Session.answer? (session : Session) (call : Call) : Option Nat :=
  call.answer? session.region.pool session.ledger

/-- A reply tells the block that the call was answered with. -/
theorem Session.block?_reply (session : Session) (surface : Surface) (call : Call)
    : (surface.reply call (session.answer? call)).block? = session.answer? call := by
  cases call with
  | release handle => rfl
  | allocate size | allocateZeroed size | reallocate handle size =>
      exact Surface.block?_reply surface rfl _

namespace Session.Sound

variable {session : Session}

/-- A request that reaches the heap is its call, if no handle it names is taken for a live one. -/
theorem perform_call (sound : session.Sound) {surface : Surface} {request : Request}
    {call : Call}
    (dead
      : ∀ handle ∈ request.block?,
          ¬ session.ledger.Live handle → session.region.inspect handle = none)
    (reached : surface.call? Region request = some call)
    : ∃ after,
        session.perform (.ask surface request)
          = (.ok (surface.reply call (session.answer? call)),
              ⟨after, session.ledger.record call (session.answer? call)⟩)
        ∧ session.region.Follows after (session.ledger.record call (session.answer? call))
            (session.ledger.remaining call (session.answer? call))
        ∧ call.Filled session.ledger session.region.memory after.memory
            (session.answer? call) := by
  rw [← Surface.block?_call? reached] at dead
  obtain ⟨after, answered, follows, filled⟩ := Region.Sound.perform sound dead
  refine ⟨after, ?_, follows, filled⟩
  have served : surface.serve request session.region
      = .answer (surface.reply call (session.answer? call)) after := by
    rw [Surface.serve_reached reached, answered]
    rfl
  simp only [perform, served, Outcome.answer, Ledger.afterRequest, reached, block?_reply]

/-- Allowed requests name no handle that is taken for a live one. -/
theorem perform_reached (sound : session.Sound) {surface : Surface} {request : Request}
    {call : Call} (allowed : (Event.ask surface request).Allowed session.ledger)
    (reached : surface.call? Region request = some call)
    : ∃ after,
        session.perform (.ask surface request)
          = (.ok (surface.reply call (session.answer? call)),
              ⟨after, session.ledger.record call (session.answer? call)⟩)
        ∧ session.region.Follows after (session.ledger.record call (session.answer? call))
            (session.ledger.remaining call (session.answer? call))
        ∧ call.Filled session.ledger session.region.memory after.memory
            (session.answer? call) :=
  sound.perform_call (fun handle about => sound.inspect_of_not_live (allowed handle about)) reached

/-- Bytes written into a live block are all that changes. -/
theorem perform_write (sound : session.Sound) {block : Block} {offset : Nat} {bytes : List UInt8}
    (live : block ∈ session.ledger.live) (inside : offset + bytes.length ≤ block.size)
    : session.region.Follows (session.step (.write block.address offset bytes)).region
        session.ledger (Ledger.without session.ledger.live block.address) := by
  obtain ⟨written, kept⟩ := Region.Sound.overwrite sound live inside
  exact ⟨written, rfl, rfl, kept⟩

/-- No allowed step stops the program, and the session stays sound over the same region, by cases
on whether a request reaches the heap.
-/
theorem step (sound : session.Sound) {event : Event} (allowed : event.Allowed session.ledger)
    : (session.step event).Sound
      ∧ (session.step event).region.pool.bottom = session.region.pool.bottom
      ∧ (session.step event).region.pool.size = session.region.pool.size
      ∧ ∃ reply, (session.perform event).1 = .ok reply := by
  cases event with
  | ask surface request =>
      cases reached : surface.call? Region request with
      | none =>
          obtain ⟨refusal, _, answered⟩ := perform_unreached reached
          rw [Session.step, answered]
          exact ⟨sound, rfl, rfl, refusal, rfl⟩
      | some call =>
          obtain ⟨after, answered, follows, _⟩ := sound.perform_reached allowed reached
          rw [Session.step, answered]
          exact ⟨follows.sound, follows.sameBottom, follows.sameSize, _, rfl⟩
  | write handle offset bytes =>
      obtain ⟨block, live, rfl, inside⟩ := allowed
      have follows := sound.perform_write live inside
      exact ⟨follows.sound, follows.sameBottom, follows.sameSize, .done, rfl⟩

/-- Admitted runs keep a session sound over the same region, by induction on the run. -/
theorem after (sound : session.Sound) {events : List Event} (admitted : session.Admits events)
    : (session.after events).Sound
      ∧ (session.after events).region.pool.bottom = session.region.pool.bottom
      ∧ (session.after events).region.pool.size = session.region.pool.size := by
  have kept : ∀ (current : Session) (event : Event),
      (current.Sound
        ∧ current.region.pool.bottom = session.region.pool.bottom
        ∧ current.region.pool.size = session.region.pool.size) →
      event.Allowed current.ledger →
      (current.step event).Sound
        ∧ (current.step event).region.pool.bottom = session.region.pool.bottom
        ∧ (current.step event).region.pool.size = session.region.pool.size := by
    rintro current event ⟨currentSound, sameBottom, sameSize⟩ allowed
    obtain ⟨nextSound, nextBottom, nextSize, _⟩ := currentSound.step allowed
    exact ⟨nextSound, nextBottom.trans sameBottom, nextSize.trans sameSize⟩
  exact after_induction kept ⟨sound, rfl, rfl⟩ admitted

/-- Admitted runs are answered to the end, by induction on the run. -/
theorem results (sound : session.Sound) {events : List Event} (admitted : session.Admits events)
    {result : Except HeapFault Reply} (member : result ∈ session.results events)
    : ∃ reply, result = .ok reply := by
  induction events generalizing session with
  | nil => cases member
  | cons event rest ih =>
      obtain ⟨nextSound, _, _, answered⟩ := sound.step admitted.1
      rcases List.mem_cons.mp member with rfl | later
      · exact answered
      · exact ih nextSound admitted.2 later

end Session.Sound

/-- A region before its first request: set up over some memory, or never set up. -/
inductive Region.Opened : Region → Prop where
  | init {memory : Memory} {start size : Nat} {region : Region}
    (ready : Region.init? memory start size = .ok region)
    : Opened region
  | uninitialised (memory : Memory) : Opened (.uninitialised memory)

/-- A session in which nothing was handed out yet. -/
def Session.fresh (region : Region) : Session := { region }

/-- What setting up a region leaves: one hole over the whole usable region, and its node. -/
theorem Region.init?_eq_ok {memory : Memory} {start size : Nat} {region : Region}
    (ready : Region.init? memory start size = .ok region)
    : Pool.init? start size = .ok region.pool
      ∧ region.memory = Pool.storeNodes memory region.pool.holes := by
  rw [init?] at ready
  cases found : Pool.init? start size with
  | error fault =>
      rw [found] at ready
      cases ready
  | ok pool =>
      rw [found] at ready
      cases ready
      exact ⟨rfl, rfl⟩

theorem Region.Opened.sound {region : Region} (opened : region.Opened)
    : (Session.fresh region).Sound := by
  cases opened with
  | init ready =>
      obtain ⟨poolReady, sameMemory⟩ := Region.init?_eq_ok ready
      have tiled := Pool.Tiled.init poolReady
      have nodes : Pool.NodesStored region.memory region.pool.holes := by
        rw [sameMemory]
        exact Pool.storeNodes_stored tiled.holesRegular tiled.separated
      exact ⟨tiled, by simp [Session.fresh], nodes, by simp [Session.fresh],
        by simp [Session.fresh]⟩
  | uninitialised memory =>
      exact ⟨Pool.Tiled.empty, by simp [Session.fresh], trivial, by simp [Session.fresh],
        by simp [Session.fresh]⟩

end Firmware
