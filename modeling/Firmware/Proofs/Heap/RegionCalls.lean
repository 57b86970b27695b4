import Firmware.Proofs.Heap.RegionSteps

/-! What each call of a primitive does to a sound region heap.
A call for a block is answered from the pool alone (`Pool.place?`). Every call keeps the heap
sound for the ledger it leads to, and rewrites no byte of a block that it neither hands out nor
gives back (`Kept`). A call that is refused leaves the whole heap as it was.
-/

namespace Firmware

/-- Where the extent for a block of `usable` bytes would start, and the pool once it is taken. -/
def Pool.place? (pool : Pool) (usable : Nat) : Option (Nat × Pool) :=
  (BlockHeader.rawSize? usable).bind fun raw => pool.take? raw

theorem Pool.place?_eq_some_iff {pool rest : Pool} {usable start : Nat}
    : pool.place? usable = some (start, rest)
      ↔ usable < BlockHeader.sizeLimit
        ∧ pool.take? (usable + BlockHeader.size) = some (start, rest) := by
  by_cases fits : usable < BlockHeader.sizeLimit <;> simp [place?, BlockHeader.rawSize?, fits]

/-- The bytes of the blocks were not rewritten. -/
def Kept (blocks : List Block) (before after : Memory) : Prop :=
  ∀ block ∈ blocks, ∀ address, block.extent.Contains address → after address = before address

theorem Kept.trans {blocks : List Block} {before middle after : Memory}
    (first : Kept blocks before middle) (second : Kept blocks middle after)
    : Kept blocks before after :=
  fun block member address inside =>
    (second block member address inside).trans (first block member address inside)

theorem Kept.subset {blocks others : List Block} {before after : Memory}
    (kept : Kept blocks before after) (included : others ⊆ blocks)
    : Kept others before after :=
  fun block member => kept block (included member)

theorem FreeWrites.keeps {blocks : List Block} {before after : Memory}
    (writes : FreeWrites (blocks.map Block.extent) before after)
    : Kept blocks before after :=
  fun _ member address inside =>
    writes.kept address (covers_of_mem (List.mem_map_of_mem member) inside)

/-- Rewriting what a held block owns keeps every live block. -/
theorem Region.Sound.kept_of_held {region : Region} {held : List Block} {ledger : Ledger}
    (sound : region.Sound held ledger) {block : Block} {memory : Memory} (member : block ∈ held)
    (outside : ∀ address, ¬ block.Owns address → memory address = region.memory address)
    : Kept ledger.live region.memory memory := by
  intro other live address inside
  refine outside address fun owned => ?_
  have different : block ≠ other := fun same => sound.not_live_of_held member (same ▸ live)
  have extentsApart :=
    sound.apart (List.mem_append_left _ member) (List.mem_append_right _ live) different
  exact extentsApart.not_contains (Block.contains_of_owns owned) inside

/-- Whatever is written into a block that is held, the heap stays sound and all other blocks are
kept.
-/
theorem Region.Sound.rewriteOwn {region : Region} {block : Block} {held : List Block}
    {ledger : Ledger} (sound : region.Sound (block :: held) ledger) {memory : Memory}
    (outside : ∀ address, ¬ block.Owns address → memory address = region.memory address)
    : Region.Sound { region with memory } (block :: held) ledger
      ∧ Kept (held ++ ledger.live) region.memory memory := by
  refine ⟨sound.rewriteHeld List.mem_cons_self outside, fun other member address inside => ?_⟩
  refine outside address fun owned => ?_
  have blocksApart := List.pairwise_cons.mp (List.pairwise_map.mp sound.tiled.takenApart)
  exact (blocksApart.1 other member).not_contains (Block.contains_of_owns owned) inside

namespace Region

variable {region : Region} {ledger : Ledger}

--------------------------------------------------------------------------------
-- Calls that are refused
--------------------------------------------------------------------------------

theorem reserve?_of_no_place {size raw : Nat} (fits : BlockHeader.rawSize? size = some raw)
    (refused : region.pool.place? size = none)
    : region.reserve? raw = none := by
  rw [Pool.place?, fits, Option.bind_some] at refused
  rw [reserve?, refused, Option.map_none]

theorem allocate_of_no_place {size : Nat} (refused : region.pool.place? size = none)
    : allocate size region = .answer none region := by
  rw [allocate]
  cases fits : BlockHeader.rawSize? size with
  | none => rfl
  | some raw => simp only [reserve?_of_no_place fits refused]

theorem allocateZeroed_of_no_place {size : Nat} (refused : region.pool.place? size = none)
    : allocateZeroed size region = .answer none region := by
  rw [allocateZeroed]
  cases fits : BlockHeader.rawSize? size with
  | none => rfl
  | some raw => simp only [reserve?_of_no_place fits refused]

/-- A resize without room rebuilds the header that it wiped. -/
theorem reallocate_of_no_place {handle size old : Nat} (live : region.inspect handle = some old)
    (refused : region.pool.place? size = none)
    : reallocate handle size region = .answer none region := by
  have rebuilt : (region.retire (BlockHeader.rawOf handle)).stamp (BlockHeader.rawOf handle) old
      = region := by
    simp only [retire, stamp, BlockHeader.stamp_retire live]
  rw [reallocate]
  cases fits : BlockHeader.rawSize? size with
  | none => rfl
  | some raw =>
      have noRoom : (region.retire (BlockHeader.rawOf handle)).reserve? raw = none :=
        reserve?_of_no_place fits refused
      simp only [live, noRoom, rebuilt]

theorem reallocate_of_dead {handle size : Nat} (dead : region.inspect handle = none)
    : reallocate handle size region = .answer none region := by
  rw [reallocate]
  cases BlockHeader.rawSize? size with
  | none => rfl
  | some raw => simp only [dead]

theorem release_of_dead {handle : Nat} (dead : region.inspect handle = none)
    : release handle region = .answer () region := by
  simp only [release, dead]

--------------------------------------------------------------------------------
-- Calls that hand out or give back a block
--------------------------------------------------------------------------------

theorem reserve?_of_place {size start : Nat} {pool : Pool}
    (placed : region.pool.place? size = some (start, pool))
    : region.reserve? (size + BlockHeader.size)
      = some (start, { memory := Pool.storeNodes region.memory pool.holes, pool }) := by
  rw [reserve?, (Pool.place?_eq_some_iff.mp placed).2, Option.map_some]

/-- The heap that a call leaves: it is sound for the ledger, lies over the same region as before,
and the call kept the blocks.
-/
structure Follows (before after : Region) (ledger : Ledger) (blocks : List Block) : Prop where
  sound : after.Sound [] ledger
  sameBottom : after.pool.bottom = before.pool.bottom
  sameSize : after.pool.size = before.pool.size
  kept : Kept blocks before.memory after.memory

theorem Sound.unchanged (sound : region.Sound [] ledger)
    : region.Follows region ledger ledger.live :=
  ⟨sound, rfl, rfl, fun _ _ _ _ => rfl⟩

/-- Stamping a held block keeps the live ones. -/
theorem Sound.kept_stamp {held : List Block} {block : Block}
    (sound : region.Sound (block :: held) ledger)
    : Kept ledger.live region.memory
        (region.stamp (BlockHeader.rawOf block.address) block.size).memory :=
  sound.kept_of_held List.mem_cons_self fun _ => Block.stamp_of_not_owned

/-- The extent of a block is taken, the block is filled somehow, and then handed out. -/
theorem Sound.handOut (sound : region.Sound [] ledger) {size start : Nat} {pool : Pool}
    {memory : Memory} (placed : region.pool.place? size = some (start, pool))
    (outside
      : ∀ address, ¬ Block.Owns ⟨BlockHeader.blockOf start, size⟩ address →
          memory address = Pool.storeNodes region.memory pool.holes address)
    : region.Follows (Region.stamp { memory, pool } start size)
        (ledger.grant ⟨BlockHeader.blockOf start, size⟩) ledger.live := by
  obtain ⟨fits, granted⟩ := Pool.place?_eq_some_iff.mp placed
  obtain ⟨_, sameBottom, sameSize⟩ := sound.tiled.take granted
  obtain ⟨reserved, writes⟩ := sound.reserve granted
  have filled := reserved.rewriteHeld List.mem_cons_self outside
  have stamped := filled.stamp fits
  have stampedKept := filled.kept_stamp
  rw [BlockHeader.rawOf_blockOf] at stamped stampedKept
  have reservedKept : Kept ledger.live region.memory _ :=
    writes.keeps.subset (List.subset_append_right ..)
  have filledKept := reserved.kept_of_held List.mem_cons_self outside
  exact ⟨stamped, sameBottom, sameSize, reservedKept.trans (filledKept.trans stampedKept)⟩

/-- A block is handed out at the place that the pool has for it. -/
theorem allocate_of_place (sound : region.Sound [] ledger) {size start : Nat} {pool : Pool}
    (placed : region.pool.place? size = some (start, pool))
    : ∃ after,
        allocate size region = .answer (some (BlockHeader.blockOf start)) after
        ∧ region.Follows after (ledger.grant ⟨BlockHeader.blockOf start, size⟩) ledger.live := by
  have fits := (Pool.place?_eq_some_iff.mp placed).1
  refine ⟨_, ?_, sound.handOut placed fun _ _ => rfl⟩
  simp only [allocate, BlockHeader.rawSize?, if_pos fits, reserve?_of_place placed]

/-- A zeroed block is handed out at the same place, and all its bytes are zero. -/
theorem allocateZeroed_of_place (sound : region.Sound [] ledger) {size start : Nat} {pool : Pool}
    (placed : region.pool.place? size = some (start, pool))
    : ∃ after,
        allocateZeroed size region = .answer (some (BlockHeader.blockOf start)) after
        ∧ region.Follows after (ledger.grant ⟨BlockHeader.blockOf start, size⟩) ledger.live
        ∧ ∀ i, i < size → after.memory (BlockHeader.blockOf start + i) = 0 := by
  have fits := (Pool.place?_eq_some_iff.mp placed).1
  let memory := (Pool.storeNodes region.memory pool.holes).fill start (size + BlockHeader.size) 0
  have outside : ∀ address, ¬ Block.Owns ⟨BlockHeader.blockOf start, size⟩ address →
      memory address = Pool.storeNodes region.memory pool.holes address := by
    intro address notOwned
    refine Memory.overwrite_of_outside ?_
    simp only [Block.Owns, BlockHeader.rawOf_blockOf] at notOwned
    omega
  refine ⟨_, ?_, sound.handOut placed outside, ?_⟩
  · simp only [allocateZeroed, BlockHeader.rawSize?, if_pos fits, reserve?_of_place placed, clear,
      memory]
  · intro i inside
    have cleared : memory (BlockHeader.blockOf start + i) = 0 := if_pos <| by
      simp only [BlockHeader.blockOf]
      omega
    exact (BlockHeader.stamp_usable ..).trans cleared

/-- A held block whose tag is wiped can be given back, and its handle becomes stale. -/
theorem Sound.relinquishRetired {held : List Block} {block : Block}
    (sound : region.Sound (block :: held) ledger)
    (wiped : region.memory.TagFree (BlockHeader.rawOf block.address))
    : ∃ after,
        region.relinquish (BlockHeader.rawOf block.address) (block.size + BlockHeader.size)
          = .answer () after
        ∧ after.Sound held { ledger with stale := block.address :: ledger.stale }
        ∧ after.pool.bottom = region.pool.bottom
        ∧ after.pool.size = region.pool.size
        ∧ Kept (held ++ ledger.live) region.memory after.memory := by
  obtain ⟨after, answered, afterSound, sameBottom, sameSize, writes⟩ := sound.relinquish
  refine ⟨after, answered, afterSound.addStale ?_, sameBottom, sameSize, writes.keeps⟩
  have aligned := (sound.tiled.takenRegular block.extent (by simp)).startAligned
  refine ⟨aligned, writes.tagFree _ aligned wiped, ?_⟩
  intro other member
  have blocksApart := List.pairwise_map.mp sound.tiled.takenApart
  exact Block.not_reachesTag_of_apart ((List.pairwise_cons.mp blocksApart).1 other member)

/-- Wiping the tag of a held block. -/
theorem Sound.retire {held : List Block} {block : Block} (sound : region.Sound held ledger)
    (member : block ∈ held)
    : (region.retire (BlockHeader.rawOf block.address)).Sound held ledger
      ∧ Kept ledger.live region.memory
          (region.retire (BlockHeader.rawOf block.address)).memory := by
  have outside : ∀ address, ¬ block.Owns address →
      (region.retire (BlockHeader.rawOf block.address)).memory address = region.memory address :=
    fun _ => Block.retire_of_not_owned
  exact ⟨sound.rewriteHeld member outside, sound.kept_of_held member outside⟩

/-- A live block is given back. -/
theorem release_of_live (sound : region.Sound [] ledger) {block : Block}
    (live : block ∈ ledger.live)
    : ∃ after,
        release block.address region = .answer () after
        ∧ region.Follows after (ledger.giveBack block.address)
            (Ledger.without ledger.live block.address) := by
  obtain ⟨retired, retiredKept⟩ := (sound.hold live).retire List.mem_cons_self
  obtain ⟨after, answered, afterSound, sameBottom, sameSize, kept⟩ :=
    retired.relinquishRetired (BlockHeader.retire_tagFree ..)
  have known : ledger.Live block.address := ⟨block, live, rfl⟩
  refine ⟨after, ?_, ?_, sameBottom, sameSize, retiredKept.trans kept⟩
  · simp only [release, sound.headers block live]
    exact answered
  · rw [Ledger.giveBack, if_pos known]
    exact afterSound

/-- The heap while a block is moved: its tag is wiped, the extent of the new block is taken, and
the header and the bytes that both have room for are copied.
-/
def moving (region : Region) (old new : Block) (pool : Pool) : Region :=
  let retired := region.retire (BlockHeader.rawOf old.address)
  Region.copy { memory := Pool.storeNodes retired.memory pool.holes, pool }
    (BlockHeader.rawOf old.address) (BlockHeader.rawOf new.address)
    (min (old.size + BlockHeader.size) (new.size + BlockHeader.size))

theorem moving_of_not_owned {old new : Block} {pool : Pool} {address : Nat}
    (notOwned : ¬ new.Owns address)
    : (region.moving old new pool).memory address
      = Pool.storeNodes (region.retire (BlockHeader.rawOf old.address)).memory pool.holes
          address := by
  refine if_neg fun inside => notOwned ?_
  simp only [Block.Owns]
  omega

theorem moving_usable {old new : Block} {pool : Pool} (oldPlaced : BlockHeader.size ≤ old.address)
    (newPlaced : BlockHeader.size ≤ new.address) {i : Nat} (short : i < min old.size new.size)
    : (region.moving old new pool).memory (new.address + i)
      = Pool.storeNodes (region.retire (BlockHeader.rawOf old.address)).memory pool.holes
          (old.address + i) := by
  have source : BlockHeader.rawOf old.address + (new.address + i - BlockHeader.rawOf new.address)
      = old.address + i := by
    simp only [BlockHeader.rawOf]
    omega
  rw [← source]
  refine if_pos ?_
  simp only [BlockHeader.rawOf]
  omega

/-- While a block is moved, it and the new one are held, and the bytes that both have room for are
in both.
-/
theorem Sound.moving (sound : region.Sound [] ledger) {old : Block} (live : old ∈ ledger.live)
    {size start : Nat} {pool : Pool} (placed : region.pool.place? size = some (start, pool))
    : let new : Block := ⟨BlockHeader.blockOf start, size⟩
      let moved := region.moving old new pool
      moved.Sound [old, new]
        { ledger.reached new with live := Ledger.without ledger.live old.address }
      ∧ Kept (Ledger.without ledger.live old.address) region.memory moved.memory
      ∧ moved.memory.TagFree (BlockHeader.rawOf old.address)
      ∧ ∀ i, i < min old.size size →
          moved.memory (new.address + i) = region.memory (old.address + i) := by
  intro new moved
  obtain ⟨retired, retiredKept⟩ := (sound.hold live).retire List.mem_cons_self
  obtain ⟨fits, granted⟩ := Pool.place?_eq_some_iff.mp placed
  obtain ⟨reserved, writes⟩ := retired.reserve granted
  have outside : ∀ address, ¬ new.Owns address → moved.memory address = _ :=
    fun _ => moving_of_not_owned
  have copied := reserved.rewriteHeld List.mem_cons_self outside
  have swapped := copied.regroup ((List.Perm.swap old new []).append_right _) copied.headers
  have oldPlaced := sound.placed old live
  -- the old extent is not free yet, so the nodes of the holes are written elsewhere
  have oldTaken : ∀ address, old.extent.Contains address →
      Pool.storeNodes (region.retire (BlockHeader.rawOf old.address)).memory pool.holes address
        = (region.retire (BlockHeader.rawOf old.address)).memory address := fun address inside =>
    writes.kept address (covers_of_mem (by simp) inside)
  refine ⟨swapped, ?_, ?_, ?_⟩
  · have reservedKept := writes.keeps.subset (List.subset_append_right ..)
    exact retiredKept.trans (reservedKept.trans (reserved.kept_of_held List.mem_cons_self outside))
  · have extentsApart : old.extent.Apart new.extent :=
      (List.pairwise_cons.mp swapped.tiled.takenApart).1 new.extent (by simp)
    have tagInside : old.extent.Contains (BlockHeader.rawOf old.address) :=
      Extent.contains_start old.extent_pos
    have notOwned : ¬ new.Owns (BlockHeader.rawOf old.address) := fun owned =>
      extentsApart.not_contains tagInside (Block.contains_of_owns owned)
    rw [Memory.TagFree, outside _ notOwned, oldTaken _ tagInside]
    exact BlockHeader.retire_tagFree ..
  · intro i short
    have newPlaced : BlockHeader.size ≤ new.address := Nat.le_add_left ..
    have inOld : old.extent.Contains (old.address + i) :=
      Block.contains_usable oldPlaced (by omega)
    rw [moving_usable oldPlaced newPlaced short, oldTaken _ inOld]
    exact BlockHeader.retire_usable _ oldPlaced i

theorem reallocate_of_moving {old : Block} {size start : Nat} {pool : Pool} {after : Region}
    (live : region.inspect old.address = some old.size)
    (placed : region.pool.place? size = some (start, pool))
    (released
      : (region.moving old ⟨BlockHeader.blockOf start, size⟩ pool).relinquish
          (BlockHeader.rawOf old.address) (old.size + BlockHeader.size)
        = .answer () after)
    : reallocate old.address size region
      = .answer (some (BlockHeader.blockOf start)) (after.stamp start size) := by
  have fits := (Pool.place?_eq_some_iff.mp placed).1
  have reserved : (region.retire (BlockHeader.rawOf old.address)).reserve?
        (size + BlockHeader.size)
      = some (start, {
          memory :=
            Pool.storeNodes (region.retire (BlockHeader.rawOf old.address)).memory pool.holes
          pool }) :=
    reserve?_of_place placed
  rw [moving, BlockHeader.rawOf_blockOf] at released
  simp only [reallocate, BlockHeader.rawSize?, if_pos fits, live, reserved, released]
  rfl

/-- A live block is moved to the place that the pool has for the new size. -/
theorem reallocate_of_place (sound : region.Sound [] ledger) {old : Block}
    (live : old ∈ ledger.live) {size start : Nat} {pool : Pool}
    (placed : region.pool.place? size = some (start, pool))
    : let new : Block := ⟨BlockHeader.blockOf start, size⟩
      ∃ after,
        reallocate old.address size region = .answer (some new.address) after
        ∧ region.Follows after ((ledger.grant new).giveBack old.address)
            (Ledger.without ledger.live old.address)
        ∧ new.address ≠ old.address
        ∧ ∀ i, i < min old.size size →
            after.memory (new.address + i) = region.memory (old.address + i) := by
  intro new
  obtain ⟨fits, granted⟩ := Pool.place?_eq_some_iff.mp placed
  obtain ⟨_, sameBottom, sameSize⟩ := sound.tiled.take granted
  obtain ⟨moved, movedKept, wiped, copied⟩ := sound.moving live placed
  obtain ⟨after, released, freed, freedBottom, freedSize, freedKept⟩ :=
    moved.relinquishRetired wiped
  have stamped := freed.stamp fits
  have stampedKept := freed.kept_stamp
  rw [BlockHeader.rawOf_blockOf] at stamped stampedKept
  have extentsApart := (List.pairwise_cons.mp moved.tiled.takenApart).1 new.extent (by simp [new])
  have different : new.address ≠ old.address := (Block.address_ne_of_apart extentsApart).symm
  have known : (ledger.grant new).Live old.address := ⟨old, List.mem_cons_of_mem _ live, rfl⟩
  have others : Ledger.without (new :: ledger.live) old.address
      = new :: Ledger.without ledger.live old.address :=
    Ledger.without_cons_of_ne different
  refine ⟨after.stamp start size, ?_, ⟨?_, ?_, ?_, ?_⟩, different, ?_⟩
  · exact reallocate_of_moving (sound.headers old live) placed released
  · rw [Ledger.giveBack, if_pos known, Ledger.grant]
    simp only [others]
    exact stamped
  · exact freedBottom.trans sameBottom
  · exact freedSize.trans sameSize
  · have freedLiveKept := freedKept.subset (List.subset_append_right ..)
    exact movedKept.trans (freedLiveKept.trans stampedKept)
  · intro i short
    have placedNew : BlockHeader.size ≤ new.address := Nat.le_add_left ..
    have inNew : new.extent.Contains (new.address + i) :=
      Block.contains_usable placedNew (Nat.lt_of_lt_of_le short (Nat.min_le_right ..))
    have freedByte := freedKept new (by simp [new]) _ inNew
    exact (BlockHeader.stamp_usable ..).trans (freedByte.trans (copied i short))

end Region

end Firmware
