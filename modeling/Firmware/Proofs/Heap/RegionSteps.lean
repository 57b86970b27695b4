import Firmware.Proofs.Heap.PoolTiling
import Firmware.Proofs.Heap.Sessions
import Firmware.Proofs.Heap.StoredWords

/-! The invariant of a region heap, and how every step of a primitive keeps it.
While a primitive runs, a block may be held: its extent is taken, but it is not handed out yet or
not given back yet. Each step has one lemma: holding a live block (`Sound.hold`), writing into a
held one (`Sound.rewriteHeld`), handing it out under its header (`Sound.settle`), and taking an
extent from the pool or giving one back (`Sound.reserve`, `Sound.relinquish`).
-/

namespace Firmware

/-- The tag in front of the handle is not live, and none of the blocks reaches it. -/
structure Inert (memory : Memory) (blocks : List Block) (handle : Nat) : Prop where
  aligned : BlockHeader.rawOf handle % 8 = 0
  tagFree : memory.TagFree (BlockHeader.rawOf handle)
  unreached : ∀ block ∈ blocks, ¬ block.ReachesTag handle

/-- The pool tiles the region with the extents of held and live blocks, memory holds the nodes of
the holes and the headers of the live blocks, and stale handles are inert.
-/
structure Region.Sound (region : Region) (held : List Block) (ledger : Ledger) : Prop where
  tiled : region.pool.Tiled ((held ++ ledger.live).map Block.extent)
  placed : ∀ block ∈ held ++ ledger.live, BlockHeader.size ≤ block.address
  nodes : Pool.NodesStored region.memory region.pool.holes
  headers : ∀ block ∈ ledger.live, region.inspect block.address = some block.size
  inert : ∀ handle ∈ ledger.stale, Inert region.memory (held ++ ledger.live) handle

theorem Inert.inspect {memory : Memory} {blocks : List Block} {handle : Nat}
    (inert : Inert memory blocks handle)
    : BlockHeader.inspect memory handle = none :=
  BlockHeader.inspect_of_tagFree inert.tagFree

theorem Block.contains_of_owns {block : Block} {address : Nat} (owned : block.Owns address)
    : block.extent.Contains address := by
  have room := Pool.le_extentSize (block.size + BlockHeader.size)
  simp only [Owns, Extent.Contains, Extent.stop, extent] at *
  omega

theorem Block.stamp_of_not_owned {block : Block} {memory : Memory} {address : Nat}
    (notOwned : ¬ block.Owns address)
    : BlockHeader.stamp memory (BlockHeader.rawOf block.address) block.size address
      = memory address :=
  BlockHeader.stamp_of_outside <| by
    simp only [Owns, BlockHeader.size] at notOwned
    omega

theorem Block.retire_of_not_owned {block : Block} {memory : Memory} {address : Nat}
    (notOwned : ¬ block.Owns address)
    : BlockHeader.retire memory (BlockHeader.rawOf block.address) address = memory address :=
  BlockHeader.retire_of_outside <| by
    simp only [Owns, BlockHeader.size] at notOwned
    omega

theorem Block.contains_usable {block : Block} (placed : BlockHeader.size ≤ block.address) {i : Nat}
    (inside : i < block.size)
    : block.extent.Contains (block.address + i) := by
  have room := Pool.le_extentSize (block.size + BlockHeader.size)
  simp only [Extent.Contains, Extent.stop, extent, BlockHeader.rawOf]
  omega

theorem Block.reachesTag_of_owns {block : Block} {handle : Nat}
    (owned : block.Owns (BlockHeader.rawOf handle))
    : block.ReachesTag handle := by
  simp only [Owns, ReachesTag] at *
  omega

/-- A block whose extent is apart does not reach the tag of another one. -/
theorem Block.not_reachesTag_of_apart {block other : Block}
    (apart : block.extent.Apart other.extent)
    : ¬ other.ReachesTag block.address := by
  have least := Pool.leastHole_le_extentSize (block.size + BlockHeader.size)
  have room := Pool.le_extentSize (other.size + BlockHeader.size)
  simp only [ReachesTag, Extent.Apart, Extent.stop, extent, Pool.leastHole] at *
  omega

theorem Block.extent_pos (block : Block) : 0 < block.extent.size :=
  Nat.lt_of_lt_of_le (by decide) (Pool.leastHole_le_extentSize _)

theorem Block.address_ne_of_apart {left right : Block} (apart : left.extent.Apart right.extent)
    : left.address ≠ right.address := by
  intro same
  have leftPositive := left.extent_pos
  have rightPositive := right.extent_pos
  simp only [Extent.Apart, Extent.stop, Block.extent, same] at *
  omega

/-- The header of a block depends on the bytes of its extent only. -/
theorem Block.inspect_congr {block : Block} {left right : Memory}
    (placed : BlockHeader.size ≤ block.address)
    (agree : ∀ address, block.extent.Contains address → left address = right address)
    : BlockHeader.inspect left block.address = BlockHeader.inspect right block.address := by
  refine BlockHeader.inspect_congr_front placed fun address start stop =>
    agree address (Block.contains_of_owns ?_)
  simp only [Owns, BlockHeader.rawOf] at *
  omega

theorem Ledger.without_cons_of_ne {live : List Block} {block : Block} {handle : Nat}
    (different : block.address ≠ handle)
    : without (block :: live) handle = block :: without live handle := by
  simp [without, different]

theorem Ledger.without_cons_self {live : List Block} {block : Block}
    (absent : ∀ other ∈ live, block.address ≠ other.address)
    : without (block :: live) block.address = live := by
  have dropped : without (block :: live) block.address = without live block.address := by
    simp [without]
  rw [dropped]
  refine List.filter_eq_self.mpr fun other member => ?_
  exact decide_eq_true (absent other member).symm

/-- Blocks with different handles come apart into the one at a handle and the others. -/
theorem Ledger.perm_without {live : List Block} {block : Block}
    (distinct : live.Pairwise fun left right => left.address ≠ right.address)
    (member : block ∈ live)
    : live.Perm (block :: without live block.address) := by
  induction live with
  | nil => cases member
  | cons first rest ih =>
      obtain ⟨firstDistinct, restDistinct⟩ := List.pairwise_cons.mp distinct
      rcases List.mem_cons.mp member with rfl | later
      · rw [without_cons_self firstDistinct]
      · rw [without_cons_of_ne (firstDistinct block later)]
        exact ((ih restDistinct later).cons first).trans (.swap ..)

theorem Ledger.mem_without {live : List Block} {block : Block} {handle : Nat}
    : block ∈ without live handle ↔ block ∈ live ∧ block.address ≠ handle := by
  simp [without]

theorem Ledger.without_subset (live : List Block) (handle : Nat) : without live handle ⊆ live :=
  fun _ member => (mem_without.mp member).1

namespace Region.Sound

variable {region : Region} {held : List Block} {ledger : Ledger}

/-- The extents of different blocks are apart. -/
theorem apart (sound : region.Sound held ledger) {block other : Block}
    (member : block ∈ held ++ ledger.live) (otherMember : other ∈ held ++ ledger.live)
    (different : block ≠ other)
    : block.extent.Apart other.extent := by
  have : Std.Symm fun left right : Block => left.extent.Apart right.extent := ⟨fun _ _ => Or.symm⟩
  exact (List.pairwise_map.mp sound.tiled.takenApart).forall member otherMember different

/-- A held block is not live. -/
theorem not_live_of_held (sound : region.Sound held ledger) {block : Block}
    (heldMember : block ∈ held)
    : block ∉ ledger.live := by
  intro liveMember
  have blocksApart := List.pairwise_append.mp (List.pairwise_map.mp sound.tiled.takenApart)
  have selfApart := blocksApart.2.2 block heldMember block liveMember
  have positive := block.extent_pos
  simp only [Extent.Apart, Extent.stop] at selfApart
  omega

/-- Handles tell live blocks apart. -/
theorem handles_distinct (sound : region.Sound held ledger)
    : ledger.live.Pairwise fun left right => left.address ≠ right.address := by
  have liveApart := (List.pairwise_append.mp (List.pairwise_map.mp sound.tiled.takenApart)).2.1
  exact liveApart.imp Block.address_ne_of_apart

theorem eq_of_address (sound : region.Sound held ledger) {block other : Block}
    (member : block ∈ ledger.live) (otherMember : other ∈ ledger.live)
    (same : block.address = other.address)
    : block = other := by
  by_contra different
  have : Std.Symm fun left right : Block => left.address ≠ right.address := ⟨fun _ _ => Ne.symm⟩
  exact sound.handles_distinct.forall member otherMember different same

--------------------------------------------------------------------------------
-- Holding, rewriting and handing out
--------------------------------------------------------------------------------

/-- The invariant does not depend on the order of held and live blocks, as long as the headers of
the live ones are in memory.
-/
theorem regroup {otherHeld otherLive : List Block} (sound : region.Sound held ledger)
    (same : (held ++ ledger.live).Perm (otherHeld ++ otherLive))
    (headers : ∀ block ∈ otherLive, region.inspect block.address = some block.size)
    : region.Sound otherHeld { ledger with live := otherLive } where
  tiled := sound.tiled.perm (same.map Block.extent)
  placed block member := sound.placed block (same.mem_iff.mpr member)
  nodes := sound.nodes
  headers := headers
  inert handle member :=
    let old := sound.inert handle member
    ⟨old.aligned, old.tagFree, fun block reached => old.unreached block (same.mem_iff.mpr reached)⟩

/-- A live block can be held, and then is not live. -/
theorem hold (sound : region.Sound held ledger) {block : Block} (member : block ∈ ledger.live)
    : region.Sound (block :: held)
        { ledger with live := Ledger.without ledger.live block.address } := by
  refine sound.regroup ?_ ?_
  · exact ((Ledger.perm_without sound.handles_distinct member).append_left held).trans
      List.perm_middle
  · intro other otherMember
    exact sound.headers other (Ledger.mem_without.mp otherMember).1

/-- A held block with its header in memory can be handed out. -/
theorem settle {block : Block} (sound : region.Sound (block :: held) ledger)
    (header : region.inspect block.address = some block.size)
    : region.Sound held { ledger with live := block :: ledger.live } := by
  refine sound.regroup List.perm_middle.symm ?_
  intro other member
  rcases List.mem_cons.mp member with rfl | old
  · exact header
  · exact sound.headers other old

/-- Bytes that one block owns can be rewritten, if its header survives in case it is live. -/
theorem rewrite (sound : region.Sound held ledger) {block : Block} {memory : Memory}
    (member : block ∈ held ++ ledger.live)
    (outside : ∀ address, ¬ block.Owns address → memory address = region.memory address)
    (header
      : block ∈ ledger.live → BlockHeader.inspect memory block.address = some block.size)
    : Region.Sound { region with memory } held ledger where
  tiled := sound.tiled
  placed := sound.placed
  nodes := by
    refine sound.nodes.congr sound.tiled.holesRegular fun address inHole => outside address ?_
    intro owned
    have taken := covers_of_mem (List.mem_map_of_mem member) (Block.contains_of_owns owned)
    exact ((sound.tiled.gaps address).mp inHole).2 taken
  headers := by
    intro other otherMember
    by_cases same : block = other
    · subst other
      exact header otherMember
    · have otherPlaced := sound.placed other (List.mem_append_right held otherMember)
      have extentsApart := sound.apart member (List.mem_append_right held otherMember) same
      refine (Block.inspect_congr otherPlaced fun address inOther => outside address ?_).trans
        (sound.headers other otherMember)
      intro owned
      exact extentsApart.not_contains (Block.contains_of_owns owned) inOther
  inert := by
    intro handle stale
    have old := sound.inert handle stale
    have untouched : ¬ block.Owns (BlockHeader.rawOf handle) := fun owned =>
      old.unreached block member (Block.reachesTag_of_owns owned)
    refine ⟨old.aligned, ?_, old.unreached⟩
    change (memory (BlockHeader.rawOf handle)).toNat % 8 = 0
    rw [outside _ untouched]
    exact old.tagFree

/-- Whatever is written into a held block, the heap stays sound. -/
theorem rewriteHeld (sound : region.Sound held ledger) {block : Block} {memory : Memory}
    (member : block ∈ held)
    (outside : ∀ address, ¬ block.Owns address → memory address = region.memory address)
    : Region.Sound { region with memory } held ledger :=
  sound.rewrite (List.mem_append_left _ member) outside fun live =>
    absurd live (sound.not_live_of_held member)

/-- A held block can be handed out under a header that is written for it. -/
theorem stamp {block : Block} (sound : region.Sound (block :: held) ledger)
    (fits : block.size < BlockHeader.sizeLimit)
    : (region.stamp (BlockHeader.rawOf block.address) block.size).Sound held
        { ledger with live := block :: ledger.live } := by
  have stamped : (region.stamp (BlockHeader.rawOf block.address) block.size).Sound
      (block :: held) ledger :=
    sound.rewriteHeld List.mem_cons_self fun _ => Block.stamp_of_not_owned
  refine stamped.settle ?_
  have header :=
    BlockHeader.inspect_stamp region.memory (BlockHeader.rawOf block.address) block.size
  rw [BlockHeader.blockOf_rawOf (sound.placed block (by simp)), Nat.mod_eq_of_lt fits] at header
  exact header

end Region.Sound

--------------------------------------------------------------------------------
-- Taking from the pool and giving back
--------------------------------------------------------------------------------

/-- Only free bytes were written, and no live tag was started by it. -/
structure FreeWrites (taken : List Extent) (before after : Memory) : Prop where
  kept : ∀ address, Covers taken address → after address = before address
  tagFree : ∀ address, address % 8 = 0 → before.TagFree address → after.TagFree address

theorem FreeWrites.trans {taken : List Extent} {before middle after : Memory}
    (first : FreeWrites taken before middle) (second : FreeWrites taken middle after)
    : FreeWrites taken before after where
  kept address inTaken := (second.kept address inTaken).trans (first.kept address inTaken)
  tagFree address aligned free :=
    second.tagFree address aligned (first.tagFree address aligned free)

theorem Region.relinquish_of_insert? {region : Region} {start raw : Nat} {holes : List Extent}
    (inserted
      : Pool.insert? ⟨start, Pool.extentSize raw⟩ region.pool.holes = some holes)
    (enough : Pool.extentSize raw ≤ region.pool.used)
    : region.relinquish start raw
      = .answer () {
          memory :=
            Pool.storeNodes (Pool.storeNode region.memory ⟨start, Pool.extentSize raw⟩ 0) holes
          pool := { region.pool with holes, used := region.pool.used - Pool.extentSize raw }
        } := by
  simp only [Region.relinquish, inserted, if_neg (Nat.not_lt.mpr enough)]

/-- The ledger once the extent of a block is taken: handles whose tag it reaches are no longer
known to be harmless.
-/
def Ledger.reached (ledger : Ledger) (block : Block) : Ledger :=
  { ledger with stale := ledger.stale.filter fun handle => ¬ block.ReachesTag handle }

namespace Region.Sound

variable {region : Region} {held : List Block} {ledger : Ledger}

/-- Writing the nodes of holes touches no extent that is taken next to them. -/
theorem freeWrites_storeNodes {pool : Pool} {taken : List Extent} (tiled : pool.Tiled taken)
    (memory : Memory)
    : FreeWrites taken memory (Pool.storeNodes memory pool.holes) where
  kept address inTaken :=
    Pool.storeNodes_of_uncovered tiled.holesRegular fun inHole =>
      ((tiled.gaps address).mp inHole).2 inTaken
  tagFree _ aligned free := Pool.storeNodes_tagFree tiled.holesRegular aligned free

/-- After writes to free bytes the invariant holds for the blocks that are still taken. -/
theorem of_freeWrites {blocks : List Block} {pool : Pool} {memory : Memory}
    (sound : region.Sound blocks ledger) {otherHeld : List Block} {stale : List Nat}
    (tiled : pool.Tiled ((otherHeld ++ ledger.live).map Block.extent))
    (placed : ∀ block ∈ otherHeld, BlockHeader.size ≤ block.address)
    (nodes : Pool.NodesStored memory pool.holes)
    (writes : FreeWrites ((otherHeld ++ ledger.live).map Block.extent) region.memory memory)
    (known : ∀ handle ∈ stale, handle ∈ ledger.stale)
    (unreached : ∀ handle ∈ stale, ∀ block ∈ otherHeld, ¬ block.ReachesTag handle)
    : Region.Sound { memory, pool } otherHeld { ledger with stale } where
  tiled := tiled
  placed := by
    intro block member
    rcases List.mem_append.mp member with inHeld | live
    · exact placed block inHeld
    · exact sound.placed block (List.mem_append_right _ live)
  nodes := nodes
  headers := by
    intro block live
    have blockPlaced := sound.placed block (List.mem_append_right _ live)
    refine (Block.inspect_congr blockPlaced fun address inside => writes.kept address ?_).trans
      (sound.headers block live)
    exact covers_of_mem (List.mem_map_of_mem (List.mem_append_right _ live)) inside
  inert := by
    intro handle member
    have old := sound.inert handle (known handle member)
    refine ⟨old.aligned, writes.tagFree _ old.aligned old.tagFree, ?_⟩
    intro block blockMember
    rcases List.mem_append.mp blockMember with inHeld | live
    · exact unreached handle member block inHeld
    · exact old.unreached block (List.mem_append_right _ live)

/-- An extent taken from the pool makes room for a block, which is held from then on. -/
theorem reserve {start usable : Nat} {pool : Pool} (sound : region.Sound held ledger)
    (granted : region.pool.take? (usable + BlockHeader.size) = some (start, pool))
    : let block : Block := ⟨BlockHeader.blockOf start, usable⟩
      let memory := Pool.storeNodes region.memory pool.holes
      Region.Sound { memory, pool } (block :: held) (ledger.reached block)
      ∧ FreeWrites ((block :: held ++ ledger.live).map Block.extent) region.memory memory := by
  intro block memory
  obtain ⟨tiled, _, _⟩ := sound.tiled.take granted
  have extent : block.extent = ⟨start, Pool.extentSize (usable + BlockHeader.size)⟩ := by
    simp only [Block.extent, block, BlockHeader.rawOf_blockOf]
  rw [← extent] at tiled
  have writes := freeWrites_storeNodes tiled region.memory
  refine ⟨?_, writes⟩
  refine sound.of_freeWrites tiled ?_ (Pool.storeNodes_stored tiled.holesRegular tiled.separated)
    writes (fun handle member => (List.mem_filter.mp member).1) ?_
  · intro other member
    rcases List.mem_cons.mp member with rfl | old
    · exact Nat.le_add_left ..
    · exact sound.placed other (List.mem_append_left _ old)
  · intro handle member other otherMember
    rcases List.mem_cons.mp otherMember with rfl | old
    · simpa using (List.mem_filter.mp member).2
    · exact (sound.inert handle (List.mem_filter.mp member).1).unreached other
        (List.mem_append_left _ old)

/-- A held block can be given back to the pool, without a fault. -/
theorem relinquish {block : Block} (sound : region.Sound (block :: held) ledger)
    : ∃ after,
        region.relinquish (BlockHeader.rawOf block.address) (block.size + BlockHeader.size)
          = .answer () after
        ∧ after.Sound held ledger
        ∧ after.pool.bottom = region.pool.bottom
        ∧ after.pool.size = region.pool.size
        ∧ FreeWrites ((held ++ ledger.live).map Block.extent) region.memory after.memory := by
  obtain ⟨holes, inserted, enough, merged, tiled⟩ := sound.tiled.giveBack
  have freedRegular := sound.tiled.takenRegular block.extent (by simp)
  have ownWrites : FreeWrites ((held ++ ledger.live).map Block.extent) region.memory
      (Pool.storeNode region.memory block.extent 0) := by
    constructor
    · intro address inTaken
      refine Pool.storeNode_of_not_contains freedRegular fun inFreed => ?_
      exact ((tiled.gaps address).mp ((merged.covers address).mpr (Or.inl inFreed))).2 inTaken
    · intro address aligned free
      exact Pool.storeNode_tagFree freedRegular rfl aligned free
  have writes := freeWrites_storeNodes tiled (Pool.storeNode region.memory block.extent 0)
  have bothWrites := ownWrites.trans writes
  refine ⟨_, Region.relinquish_of_insert? inserted enough, ?_, rfl, rfl, bothWrites⟩
  refine sound.of_freeWrites tiled ?_ (Pool.storeNodes_stored tiled.holesRegular tiled.separated)
    bothWrites (fun _ member => member) ?_
  · intro other member
    exact sound.placed other (by simp [member])
  · intro handle member other otherMember
    exact (sound.inert handle member).unreached other (by simp [otherMember])

/-- A handle becomes stale once its tag is wiped and no block reaches it. -/
theorem addStale (sound : region.Sound held ledger) {handle : Nat}
    (inert : Inert region.memory (held ++ ledger.live) handle)
    : region.Sound held { ledger with stale := handle :: ledger.stale } where
  tiled := sound.tiled
  placed := sound.placed
  nodes := sound.nodes
  headers := sound.headers
  inert := by
    intro other member
    rcases List.mem_cons.mp member with rfl | old
    · exact inert
    · exact sound.inert other old

end Region.Sound

end Firmware
