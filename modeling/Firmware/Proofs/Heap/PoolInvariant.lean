import Firmware.Proofs.Heap.SessionSteps

/-! The invariant of the pool in every session.
Whatever is requested on whatever surface, and whatever clients write into their blocks, the
extents of the live blocks and the holes tile the usable region, and the headers and nodes that
are stored in the same bytes agree with them (`Session.pool_invariant`).
-/

namespace Firmware.Session

/-- The extents of the live blocks, and the holes. -/
def extents (session : Session) : List Extent :=
  session.ledger.live.map Block.extent ++ session.region.pool.holes

/-- What holds in a session over a region that was set up as the pool `usable`. -/
structure PoolInvariant (session : Session) (usable : Pool) : Prop where
  /-- Live blocks and holes share no byte. -/
  apart : session.extents.Pairwise Extent.Apart
  /-- Live blocks and holes are together the whole usable region. -/
  whole : ∀ address, Covers session.extents address ↔ usable.InRegion address
  /-- Starts and sizes are multiples of eight, and sizes at least sixteen. -/
  regular : ∀ extent ∈ session.extents, extent.Regular
  /-- Holes stand in address order, and no two of them touch. -/
  separated : Separated session.region.pool.holes
  /-- Every hole stores its size and the address of the next one. -/
  nodes : Pool.NodesStored session.region.memory session.region.pool.holes
  /-- The header of a live block is live and records the size that was asked for. -/
  headers : ∀ block ∈ session.ledger.live, session.region.inspect block.address = some block.size
  /-- Blocks start at multiples of eight, behind their headers. -/
  aligned : ∀ block ∈ session.ledger.live, BlockHeader.size ≤ block.address ∧ block.address % 8 = 0
  /-- Header and usable bytes of a live block lie in its extent. -/
  room
    : ∀ block ∈ session.ledger.live,
        ∀ address, block.Owns address → block.extent.Contains address
  /-- Handles that were given back, and not reached since, are dead. -/
  dead : ∀ handle ∈ session.ledger.stale, session.region.inspect handle = none
  used : session.region.pool.used = ((session.ledger.live.map Block.extent).map Extent.size).sum
  free : session.region.pool.free = (session.region.pool.holes.map Extent.size).sum
  balance : session.region.pool.used + session.region.pool.free = usable.size

/-- A sound session satisfies the invariant: the tiling gives the extents, and memory the rest. -/
theorem Sound.poolInvariant {session : Session} (sound : session.Sound) {usable : Pool}
    (sameBottom : session.region.pool.bottom = usable.bottom)
    (sameSize : session.region.pool.size = usable.size)
    : session.PoolInvariant usable := by
  obtain ⟨tiled, placed, nodes, headers, inert⟩ := sound
  rw [List.nil_append] at tiled placed inert
  have used := tiled.used
  have free := tiled.free_eq
  have balance := tiled.balance
  refine {
    apart := tiled.allApart
    whole := ?whole
    regular := ?regular
    separated := tiled.separated
    nodes := nodes
    headers := headers
    aligned := ?aligned
    room := fun _ _ _ => Block.contains_of_owns
    dead := ?dead
    used := used
    free := free
    balance := by omega
  }
  case whole =>
    intro address
    have inside := tiled.inRegion_iff address
    rw [Pool.InRegion, sameBottom, sameSize] at inside
    exact inside.symm
  case regular =>
    intro extent member
    rcases List.mem_append.mp member with taken | hole
    · exact tiled.takenRegular extent taken
    · exact tiled.holesRegular extent hole
  case aligned =>
    intro block member
    have afterHeader := placed block member
    have rawAligned := (tiled.takenRegular _ (List.mem_map_of_mem member)).startAligned
    simp only [Block.extent, BlockHeader.rawOf, BlockHeader.size] at *
    omega
  case dead =>
    intro handle stale
    exact (inert handle stale).inspect

/-- In every run over a region that was set up, or never was, each request is answered and the
invariant of the pool holds.
-/
theorem pool_invariant {region : Region} (opened : region.Opened) {events : List Event}
    (admitted : (fresh region).Admits events)
    : ((fresh region).after events).PoolInvariant region.pool
      ∧ ∀ result ∈ (fresh region).results events, ∃ reply, result = .ok reply := by
  obtain ⟨sound, sameBottom, sameSize⟩ := opened.sound.after admitted
  exact ⟨sound.poolInvariant sameBottom sameSize, fun _ => opened.sound.results admitted⟩

/-- A run with a move, a release through the handle that was moved away, and a refused request,
over a region whose start and size are not aligned.
-/
theorem pool_invariant_of_move
    : ∃ region,
        Region.init? (fun _ => 7) 4090 230 = .ok region
        ∧ let events := [
            .ask .plain (.allocate 10),
            .ask .typed (.allocateZeroed 3 5),
            .write 4104 2 [1, 2, 3],
            .ask .linked (.reallocate (some 4104) 40),
            .ask .plain (.release (some 4104)),
            .ask .primitive (.allocate 0x100000000),
            .ask (.layout {}) (.release none)
          ]
          (fresh region).Admits events
          ∧ ((fresh region).after events).ledger = ⟨[⟨4152, 40⟩, ⟨4128, 15⟩], [4104]⟩
          ∧ ((fresh region).after events).PoolInvariant region.pool := by
  refine ⟨_, rfl, ?admitted, ?ledger, ?invariant⟩
  case admitted => decide
  case ledger => decide
  case invariant =>
    have opened := @Region.Opened.init (fun _ => 7) 4090 230 _ rfl
    exact (pool_invariant opened (by decide)).1

end Firmware.Session
