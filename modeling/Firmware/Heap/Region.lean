import Firmware.Heap.BlockHeader
import Firmware.Heap.Pool

/-! The region heap: blocks with headers over a pool, all in one memory.
Each primitive is a sequence of the steps `inspect`, `retire`, `reserve`, `clear`, `copy`,
`relinquish` and `stamp`. A block never grows in place: it is moved, and the old header is wiped
before the move and written again if there is no room.
-/

namespace Firmware

/-- A heap over one region of memory. -/
structure Region where
  memory : Memory
  pool : Pool := {}

namespace Region

--------------------------------------------------------------------------------
-- Steps
--------------------------------------------------------------------------------

/-- The usable size of the block at `block`, if its header is live. -/
def inspect (region : Region) (block : Nat) : Option Nat :=
  BlockHeader.inspect region.memory block

/-- Writes a live header at `raw`. -/
def stamp (region : Region) (raw usable : Nat) : Region :=
  { region with memory := BlockHeader.stamp region.memory raw usable }

/-- Wipes the tag at `raw`. -/
def retire (region : Region) (raw : Nat) : Region :=
  { region with memory := BlockHeader.retire region.memory raw }

/-- Sets `count` bytes from `start` on to zero. -/
def clear (region : Region) (start count : Nat) : Region :=
  { region with memory := region.memory.fill start count 0 }

/-- Copies `count` bytes from `source` to `target`. -/
def copy (region : Region) (source target count : Nat) : Region :=
  { region with memory := region.memory.copy source target count }

/-- Takes an extent for `raw` bytes from the pool. -/
def reserve? (region : Region) (raw : Nat) : Option (Nat × Region) :=
  (region.pool.take? raw).map fun (start, pool) =>
    (start, { memory := Pool.storeNodes region.memory pool.holes, pool })

/-- Gives the extent taken for `raw` bytes at `start` back to the pool. The extent first becomes
a hole of its own and is then merged. -/
def relinquish (region : Region) (start raw : Nat) : Outcome Region Unit :=
  let freed : Extent := ⟨start, Pool.extentSize raw⟩
  let memory := Pool.storeNode region.memory freed 0
  match Pool.insert? freed region.pool.holes with
  | none => .stop .overlappingRelease { region with memory }
  | some holes =>
    let merged : Region :=
      { memory := Pool.storeNodes memory holes, pool := { region.pool with holes } }
    if region.pool.used < freed.size then .stop .usageUnderflow merged
    else
      .answer ()
        { merged with pool := { merged.pool with used := region.pool.used - freed.size } }

--------------------------------------------------------------------------------
-- Setting up
--------------------------------------------------------------------------------

/-- A heap that no region was handed to. Every request is refused. -/
def uninitialised (memory : Memory) : Region := { memory }

/-- Hands the region of `size` bytes at `start` to the pool. -/
def init? (memory : Memory) (start size : Nat) : Except InitFault Region :=
  (Pool.init? start size).map fun pool =>
    { memory := Pool.storeNodes memory pool.holes, pool }

--------------------------------------------------------------------------------
-- Primitives
--------------------------------------------------------------------------------

/-- A block of `size` bytes. -/
def allocate (size : Nat) (region : Region) : Outcome Region (Option Nat) :=
  match BlockHeader.rawSize? size with
  | none => .answer none region
  | some raw =>
    match region.reserve? raw with
    | none => .answer none region
    | some (start, region) =>
      .answer (some (BlockHeader.blockOf start)) (region.stamp start size)

/-- A block of `size` zero bytes. The place of the header is cleared as well, before the header
is written. -/
def allocateZeroed (size : Nat) (region : Region) : Outcome Region (Option Nat) :=
  match BlockHeader.rawSize? size with
  | none => .answer none region
  | some raw =>
    match region.reserve? raw with
    | none => .answer none region
    | some (start, region) =>
      .answer (some (BlockHeader.blockOf start)) ((region.clear start raw).stamp start size)

/-- Gives a live block back; anything else is ignored. -/
def release (block : Nat) (region : Region) : Outcome Region Unit :=
  match region.inspect block with
  | none => .answer () region
  | some size =>
    let raw := BlockHeader.rawOf block
    (region.retire raw).relinquish raw (size + BlockHeader.size)

/-- Moves a live block to a new one of `size` bytes, with the bytes that both have room for. If
there is no room the block stays as it was. -/
def reallocate (block size : Nat) (region : Region) : Outcome Region (Option Nat) :=
  match BlockHeader.rawSize? size with
  | none => .answer none region
  | some raw =>
    match region.inspect block with
    | none => .answer none region
    | some old =>
      let source := BlockHeader.rawOf block
      let retired := region.retire source
      match retired.reserve? raw with
      | none => .answer none (retired.stamp source old)
      | some (target, region) =>
        let copied := region.copy source target (min (old + BlockHeader.size) raw)
        let released := copied.relinquish source (old + BlockHeader.size)
        { result := released.result.map fun _ => some (BlockHeader.blockOf target)
          heap :=
            match released.result with
            | .ok _ => released.heap.stamp target size
            | .error _ => released.heap }

instance : BlockHeap Region where
  alignment := 8
  interruptSafe := true
  allocate := allocate
  allocateZeroed := allocateZeroed
  reallocate := reallocate
  release := release

instance : InspectableHeap Region where
  sizeOf? := inspect
  memory := Region.memory
  withMemory region memory := { region with memory }

end Region

end Firmware
