import Firmware.Proofs.Heap.SessionSteps

/-! Sessions refine a store of byte strings.
A store maps the handles of live blocks to their bytes, and knows nothing of regions, holes or
headers. Every step of a session is a step of the store that its live blocks make up
(`Session.refines_blockStore`): a block is added, moved, removed or written into, and no other
entry changes.
-/

namespace Firmware

/-- The bytes behind every live handle. -/
abbrev BlockStore := Nat → Option (List UInt8)

namespace BlockStore

def empty : BlockStore := fun _ => none

def set (store : BlockStore) (handle : Nat) (bytes : List UInt8) : BlockStore :=
  fun other => if other = handle then some bytes else store other

def remove (store : BlockStore) (handle : Nat) : BlockStore :=
  fun other => if other = handle then none else store other

/-- What a step may do to a store, given the reply. A block is handed out under a handle that was
not live, with bytes of the length asked for: any bytes, or zeros, or as many bytes of the moved
block as both have room for.
-/
inductive Step (store : BlockStore) : Event → Reply → BlockStore → Prop where
  | unreached {surface request reply} (unreached : surface.call? Region request = none)
    (noBlock : reply.block? = none)
    : Step store (.ask surface request) reply store
  | refused {surface request call} (reached : surface.call? Region request = some call)
    (asks : call.size?.isSome)
    : Step store (.ask surface request) (surface.reply call none) store
  | allocated {surface request size address bytes}
    (reached : surface.call? Region request = some (.allocate size))
    (absent : store address = none) (length : bytes.length = size)
    : Step store (.ask surface request) (surface.reply (.allocate size) (some address))
        (store.set address bytes)
  | zeroed {surface request size address}
    (reached : surface.call? Region request = some (.allocateZeroed size))
    (absent : store address = none)
    : Step store (.ask surface request) (surface.reply (.allocateZeroed size) (some address))
        (store.set address (List.replicate size 0))
  | moved {surface request handle size address old bytes}
    (reached : surface.call? Region request = some (.reallocate handle size))
    (present : store handle = some old) (absent : store address = none)
    (length : bytes.length = size)
    (common : bytes.take (min old.length size) = old.take (min old.length size))
    : Step store (.ask surface request) (surface.reply (.reallocate handle size) (some address))
        ((store.remove handle).set address bytes)
  | released {surface request handle}
    (reached : surface.call? Region request = some (.release handle))
    : Step store (.ask surface request) .done (store.remove handle)
  | written {handle offset old bytes} (present : store handle = some old)
    (inside : offset + bytes.length ≤ old.length)
    : Step store (.write handle offset bytes) .done
        (store.set handle (old.take offset ++ bytes ++ old.drop (offset + bytes.length)))

theorem remove_set_self (store : BlockStore) (handle : Nat) (bytes : List UInt8)
    : (store.set handle bytes).remove handle = store.remove handle := by
  funext other
  by_cases asked : other = handle <;> simp [remove, set, asked]

theorem remove_set_of_ne (store : BlockStore) {handle other : Nat} (different : other ≠ handle)
    (bytes : List UInt8)
    : (store.set other bytes).remove handle = (store.remove handle).set other bytes := by
  funext asked
  by_cases removed : asked = handle
  · simp [remove, set, removed, different.symm]
  · simp [remove, set, removed]

/-- The bytes that memory holds in the blocks. -/
def ofBlocks (memory : Memory) (blocks : List Block) : BlockStore :=
  fun handle =>
    (blocks.find? fun block => block.address = handle).map fun block =>
      memory.read block.address block.size

variable {memory : Memory} {blocks : List Block}

theorem ofBlocks_cons (memory : Memory) (block : Block) (rest : List Block)
    : ofBlocks memory (block :: rest)
      = (ofBlocks memory rest).set block.address (memory.read block.address block.size) := by
  funext handle
  by_cases same : block.address = handle
  · subst handle
    simp [ofBlocks, set]
  · simp [ofBlocks, set, same, Ne.symm same]

theorem ofBlocks_without (handle : Nat)
    : ofBlocks memory (Ledger.without blocks handle) = (ofBlocks memory blocks).remove handle := by
  induction blocks with
  | nil =>
      funext other
      simp [ofBlocks, Ledger.without, remove]
  | cons block rest ih =>
      by_cases same : block.address = handle
      · have dropped : Ledger.without (block :: rest) handle = Ledger.without rest handle := by
          simp [Ledger.without, same]
        rw [dropped, ih, ofBlocks_cons, same, remove_set_self]
      · rw [Ledger.without_cons_of_ne same, ofBlocks_cons, ofBlocks_cons, ih,
          remove_set_of_ne _ same]

theorem ofBlocks_eq_none_iff {handle : Nat}
    : ofBlocks memory blocks handle = none ↔ ∀ block ∈ blocks, block.address ≠ handle := by
  simp [ofBlocks]

/-- A block is found by its handle if no other block has it. -/
theorem ofBlocks_of_mem {block : Block} (member : block ∈ blocks)
    (only : ∀ other ∈ blocks, other.address = block.address → other = block)
    : ofBlocks memory blocks block.address
      = some (memory.read block.address block.size) := by
  rw [ofBlocks]
  cases found : blocks.find? fun other => other.address = block.address with
  | none => simpa using List.find?_eq_none.mp found block member
  | some other =>
      have same : other.address = block.address := by simpa using List.find?_some found
      rw [only other (List.mem_of_find?_eq_some found) same, Option.map_some]

/-- Blocks whose bytes were kept make up the same store. -/
theorem ofBlocks_kept {before after : Memory} (kept : Kept blocks before after)
    (placed : ∀ block ∈ blocks, BlockHeader.size ≤ block.address)
    : ofBlocks after blocks = ofBlocks before blocks := by
  induction blocks with
  | nil => rfl
  | cons block rest ih =>
      obtain ⟨blockPlaced, restPlaced⟩ := List.forall_mem_cons.mp placed
      have same : after.read block.address block.size = before.read block.address block.size :=
        Memory.read_congr fun i inside =>
          kept block List.mem_cons_self _ (Block.contains_usable blockPlaced inside)
      rw [ofBlocks_cons, ofBlocks_cons, same,
        ih (kept.subset (List.subset_cons_self ..)) restPlaced]

end BlockStore

--------------------------------------------------------------------------------
-- Sessions as stores
--------------------------------------------------------------------------------

/-- The bytes of the live blocks of a session. -/
def Session.store (session : Session) : BlockStore :=
  .ofBlocks session.region.memory session.ledger.live

namespace Session.Sound

variable {session : Session}

theorem store_of_live (sound : session.Sound) {block : Block} (live : block ∈ session.ledger.live)
    : session.store block.address
      = some (session.region.memory.read block.address block.size) :=
  BlockStore.ofBlocks_of_mem live fun _ otherLive same =>
    sound.eq_of_address otherLive live same

/-- Blocks that a step kept make up the same store afterwards. -/
theorem store_kept (sound : session.Sound) {after : Region} {ledger : Ledger} {kept : List Block}
    (follows : session.region.Follows after ledger kept) (included : kept ⊆ session.ledger.live)
    : BlockStore.ofBlocks after.memory kept
      = BlockStore.ofBlocks session.region.memory kept :=
  BlockStore.ofBlocks_kept follows.kept fun block member =>
    sound.placed block (included member)

/-- A block that is handed out is set in the store of the kept ones, which do not have its handle.
-/
theorem store_granted (sound : session.Sound) {after : Region} {ledger : Ledger} {block : Block}
    {kept : List Block} (follows : session.region.Follows after ledger kept)
    (included : kept ⊆ session.ledger.live) (granted : ledger.live = block :: kept)
    : Session.store ⟨after, ledger⟩
        = (BlockStore.ofBlocks session.region.memory kept).set block.address
            (after.memory.read block.address block.size)
      ∧ BlockStore.ofBlocks session.region.memory kept block.address = none := by
  have distinct := follows.sound.handles_distinct
  rw [granted] at distinct
  constructor
  · rw [Session.store, granted, BlockStore.ofBlocks_cons, sound.store_kept follows included]
  · refine BlockStore.ofBlocks_eq_none_iff.mpr fun other member => ?_
    exact ((List.pairwise_cons.mp distinct).1 other member).symm

theorem store_refused (sound : session.Sound) {after : Region}
    (follows : session.region.Follows after session.ledger session.ledger.live)
    : Session.store ⟨after, session.ledger⟩ = session.store :=
  sound.store_kept follows (List.Subset.refl _)

/-- A move removes one entry and sets another one, with the bytes that both have room for. -/
theorem step_moved (sound : session.Sound) {surface : Surface} {request : Request} {old : Block}
    {size address : Nat} {after : Region} (oldLive : old ∈ session.ledger.live)
    (reached : surface.call? Region request = some (.reallocate old.address size))
    (follows
      : session.region.Follows after
          (session.ledger.record (.reallocate old.address size) (some address))
          (Ledger.without session.ledger.live old.address))
    (elsewhere : address ≠ old.address)
    (copied
      : ∀ i, i < min old.size size →
          after.memory (address + i) = session.region.memory (old.address + i))
    : BlockStore.Step session.store (.ask surface request)
        (surface.reply (.reallocate old.address size) (some address))
        (Session.store
          ⟨after, session.ledger.record (.reallocate old.address size) (some address)⟩) := by
  have granted : (session.ledger.record (.reallocate old.address size) (some address)).live
      = ⟨address, size⟩ :: Ledger.without session.ledger.live old.address :=
    (Ledger.live_giveBack ..).trans (Ledger.without_cons_of_ne elsewhere)
  obtain ⟨moved, absent⟩ := sound.store_granted follows (Ledger.without_subset ..) granted
  rw [BlockStore.ofBlocks_without] at moved absent
  rw [moved]
  refine .moved reached (sound.store_of_live oldLive) ?_ (Memory.length_read ..) ?_
  · exact (if_neg elsewhere).symm.trans absent
  · rw [Memory.length_read, Memory.take_read, Memory.take_read,
      Nat.min_eq_left (Nat.min_le_left ..), Nat.min_eq_left (Nat.min_le_right ..)]
    exact Memory.read_congr copied

/-- A call is a step of the store, by cases on the call and on whether it is answered with a block.
-/
theorem step_call (sound : session.Sound) {surface : Surface} {request : Request} {call : Call}
    {after : Region} (reached : surface.call? Region request = some call)
    (follows
      : session.region.Follows after (session.ledger.record call (session.answer? call))
          (session.ledger.remaining call (session.answer? call)))
    (filled
      : call.Filled session.ledger session.region.memory after.memory (session.answer? call))
    : BlockStore.Step session.store (.ask surface request)
        (surface.reply call (session.answer? call))
        (Session.store ⟨after, session.ledger.record call (session.answer? call)⟩) := by
  cases call with
  | allocate size =>
      cases answered : session.answer? (.allocate size) with
      | none =>
          rw [answered] at follows
          exact (sound.store_refused follows).symm ▸ .refused reached rfl
      | some address =>
          rw [answered] at follows
          obtain ⟨granted, absent⟩ := sound.store_granted follows (List.Subset.refl _) rfl
          rw [granted]
          exact .allocated reached absent (Memory.length_read ..)
  | allocateZeroed size =>
      cases answered : session.answer? (.allocateZeroed size) with
      | none =>
          rw [answered] at follows
          exact (sound.store_refused follows).symm ▸ .refused reached rfl
      | some address =>
          rw [answered] at follows filled
          obtain ⟨granted, absent⟩ := sound.store_granted follows (List.Subset.refl _) rfl
          have zeros : after.memory.read address size = List.replicate size 0 :=
            Memory.read_eq_replicate (filled address rfl)
          rw [granted, zeros]
          exact .zeroed reached absent
  | reallocate handle size =>
      cases answered : session.answer? (.reallocate handle size) with
      | none =>
          rw [answered] at follows
          exact (sound.store_refused follows).symm ▸ .refused reached rfl
      | some address =>
          rw [answered] at follows filled
          obtain ⟨⟨old, oldLive, rfl⟩, _⟩ := Option.ite_none_right_eq_some.mp answered
          obtain ⟨elsewhere, copied⟩ := filled address rfl
          exact sound.step_moved oldLive reached follows elsewhere (copied old oldLive rfl)
  | release handle =>
      have removed : Session.store ⟨after, session.ledger.giveBack handle⟩
          = session.store.remove handle := by
        have kept := sound.store_kept follows (Ledger.without_subset ..)
        rw [Session.store, Ledger.live_giveBack]
        exact kept.trans (BlockStore.ofBlocks_without handle)
      exact removed ▸ .released reached

/-- Writing into a live block sets its bytes, and those of no other block. -/
theorem store_written (sound : session.Sound) {block : Block} {offset : Nat} {bytes : List UInt8}
    (live : block ∈ session.ledger.live) (inside : offset + bytes.length ≤ block.size)
    : (session.step (.write block.address offset bytes)).store
      = session.store.set block.address
          ((session.region.memory.read block.address block.size).take offset ++ bytes
            ++ (session.region.memory.read block.address block.size).drop
              (offset + bytes.length)) := by
  have follows := sound.perform_write live inside
  have others := sound.store_kept follows (Ledger.without_subset ..)
  have afterSound : (session.step (.write block.address offset bytes)).Sound := follows.sound
  rw [BlockStore.ofBlocks_without, BlockStore.ofBlocks_without] at others
  funext handle
  by_cases asked : handle = block.address
  · subst handle
    rw [afterSound.store_of_live live, BlockStore.set, if_pos rfl]
    exact congrArg some (Memory.read_overwrite inside)
  · have same := congrFun others handle
    simp only [BlockStore.remove, if_neg asked] at same
    rw [BlockStore.set, if_neg asked]
    exact same

/-- Every allowed step is a step of the store. -/
theorem step_store (sound : session.Sound) {event : Event} (allowed : event.Allowed session.ledger)
    : ∃ reply,
        (session.perform event).1 = .ok reply
        ∧ BlockStore.Step session.store event reply (session.step event).store := by
  cases event with
  | ask surface request =>
      cases reached : surface.call? Region request with
      | none =>
          obtain ⟨refusal, noBlock, answered⟩ := Session.perform_unreached reached
          refine ⟨refusal, ?_⟩
          rw [Session.step, answered]
          exact ⟨rfl, .unreached reached noBlock⟩
      | some call =>
          obtain ⟨after, answered, follows, filled⟩ := sound.perform_reached allowed reached
          refine ⟨surface.reply call (session.answer? call), ?_⟩
          rw [Session.step, answered]
          exact ⟨rfl, sound.step_call reached follows filled⟩
  | write handle offset bytes =>
      obtain ⟨block, live, rfl, inside⟩ := allowed
      refine ⟨.done, rfl, ?_⟩
      rw [sound.store_written live inside]
      refine .written (sound.store_of_live live) ?_
      rwa [Memory.length_read]

end Session.Sound

namespace Session

/-- In every run over a region that was set up, or never was, each step is one of the store that
the live blocks make up, from the empty store on; and what clients read through a live handle are
the bytes of that store, as many as its header records.
-/
theorem refines_blockStore {region : Region} (opened : region.Opened) {events : List Event}
    (admitted : (fresh region).Admits events)
    : (fresh region).store = .empty
      ∧ (∀ earlier event later,
          events = earlier ++ event :: later →
          ∃ reply,
            (((fresh region).after earlier).perform event).1 = .ok reply
            ∧ BlockStore.Step ((fresh region).after earlier).store event reply
                ((fresh region).after (earlier ++ [event])).store)
      ∧ ∀ handle,
          match ((fresh region).after events).store handle with
          | none => ¬ ((fresh region).after events).ledger.Live handle
          | some bytes =>
              ((fresh region).after events).ledger.Live handle
              ∧ ((fresh region).after events).region.inspect handle = some bytes.length
              ∧ ((fresh region).after events).region.memory.read handle bytes.length = bytes := by
  refine ⟨rfl, ?steps, ?reading⟩
  case steps =>
    rintro earlier event later rfl
    obtain ⟨before, allowed, _⟩ := admits_append.mp admitted
    have sound := (opened.sound.after before).1
    rw [after_append]
    exact sound.step_store allowed
  case reading =>
    intro handle
    have sound := (opened.sound.after admitted).1
    by_cases live : ((fresh region).after events).ledger.Live handle
    · obtain ⟨block, member, rfl⟩ := live
      rw [sound.store_of_live member]
      refine ⟨⟨block, member, rfl⟩, ?_, ?_⟩
      · rw [Memory.length_read]
        exact sound.headers block member
      · rw [Memory.length_read]
    · have absent : ((fresh region).after events).store handle = none :=
        BlockStore.ofBlocks_eq_none_iff.mpr fun block member same => live ⟨block, member, same⟩
      rw [absent]
      exact live

/-- A block is written, moved and written again, next to a zeroed one. -/
theorem refines_blockStore_of_move
    : ∃ region,
        Region.init? (fun _ => 7) 4096 128 = .ok region
        ∧ let events := [
            .ask .plain (.allocate 4),
            .write 4104 0 [1, 2, 3, 4],
            .ask .typed (.allocateZeroed 2 3),
            .ask .linked (.reallocate (some 4104) 6),
            .write 4136 5 [9]
          ]
          (fresh region).Admits events
          ∧ ((fresh region).after events).store 4104 = none
          ∧ ((fresh region).after events).store 4120 = some [0, 0, 0, 0, 0, 0]
          ∧ ((fresh region).after events).store 4136 = some [1, 2, 3, 4, 0, 9]
          ∧ ∀ earlier event later,
              events = earlier ++ event :: later →
              ∃ reply,
                (((fresh region).after earlier).perform event).1 = .ok reply
                ∧ BlockStore.Step ((fresh region).after earlier).store event reply
                    ((fresh region).after (earlier ++ [event])).store := by
  refine ⟨_, rfl, ?admitted, ?moved, ?zeroed, ?new, ?steps⟩
  case admitted => decide
  case moved => decide
  case zeroed => decide
  case new => decide
  case steps =>
    have opened := @Region.Opened.init (fun _ => 7) 4096 128 _ rfl
    exact (refines_blockStore opened (by decide)).2.1

end Session

end Firmware
