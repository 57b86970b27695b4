import Firmware.Heap.Basic

/-! The pool of free memory: holes in address order, first fit, merged on release.
A request takes the lowest hole that is exactly large enough or leaves room for another hole; a
released extent is merged with the holes that it touches. Every hole stores its size and the
address of the next hole in its own first sixteen bytes.
-/

namespace Firmware

/-- A run of bytes in memory. -/
structure Extent where
  start : Nat
  size : Nat
deriving DecidableEq, Repr

/-- The first address after an extent. -/
def Extent.stop (extent : Extent) : Nat := extent.start + extent.size

/-- The free part of a region, and how much of the region is in use. -/
structure Pool where
  /-- The first usable address. -/
  bottom : Nat := 0
  /-- The number of usable bytes. -/
  size : Nat := 0
  /-- The free extents, in address order. -/
  holes : List Extent := []
  /-- The number of bytes taken. -/
  used : Nat := 0
deriving DecidableEq, Repr

/-- Why a region cannot be made a pool. -/
inductive InitFault where
  /-- The region is smaller than one hole. -/
  | regionTooSmall
  /-- What alignment leaves of the region is smaller than one hole. -/
  | alignedRegionTooSmall
deriving DecidableEq, Repr

/-- The text with which setting up a region stops the program. -/
def InitFault.message : InitFault → String
  | .regionTooSmall => "assertion failed: hole_size >= size_of::<Hole>()"
  | .alignedRegionTooSmall => "assertion failed: aligned_hole_size >= size_of::<Hole>()"

namespace Pool

/-- The least size of an extent: a hole has to store its size and its link. -/
def leastHole : Nat := 16

/-- The multiple of eight at or above a number. -/
def roundUp (n : Nat) : Nat := (n + 7) / 8 * 8

/-- The multiple of eight at or below a number. -/
def roundDown (n : Nat) : Nat := n / 8 * 8

/-- The size of the extent that is taken for `raw` bytes. -/
def extentSize (raw : Nat) : Nat := roundUp (max raw leastHole)

/-- The number of usable bytes that are free. -/
def free (pool : Pool) : Nat := pool.size - pool.used

/-- The pool over the region of `size` bytes at `start`, all of it one hole. -/
def init? (start size : Nat) : Except InitFault Pool :=
  let bottom := roundUp start
  let usable := roundDown (size - (bottom - start))
  if size < leastHole then .error .regionTooSmall
  else if usable < leastHole then .error .alignedRegionTooSmall
  else .ok { bottom, size := usable, holes := [⟨bottom, usable⟩] }

/-- Whether an extent of `size` bytes can be taken from a hole: nothing is left of it, or enough
for a hole. -/
def Fits (size : Nat) (hole : Extent) : Prop :=
  hole.size = size ∨ size + leastHole ≤ hole.size

instance (size : Nat) (hole : Extent) : Decidable (Fits size hole) :=
  inferInstanceAs (Decidable (hole.size = size ∨ size + leastHole ≤ hole.size))

/-- What is left of a hole once `size` bytes are taken from its start. -/
def remainder (size : Nat) (hole : Extent) : List Extent :=
  if hole.size = size then [] else [⟨hole.start + size, hole.size - size⟩]

/-- Takes `size` bytes from the start of the first hole that fits, and answers with their
address and the holes that remain. -/
def takeFirst? (size : Nat) : List Extent → Option (Nat × List Extent)
  | [] => none
  | hole :: rest =>
    if Fits size hole then some (hole.start, remainder size hole ++ rest)
    else (takeFirst? size rest).map fun (start, holes) => (start, hole :: holes)

/-- Takes an extent for `raw` bytes. -/
def take? (raw : Nat) (pool : Pool) : Option (Nat × Pool) :=
  (takeFirst? (extentSize raw) pool.holes).map fun (start, holes) =>
    (start, { pool with holes, used := pool.used + extentSize raw })

/-- Makes an extent a hole, merged with the holes that it touches; `none` if a part of it is a
hole already. -/
def insert? (freed : Extent) : List Extent → Option (List Extent)
  | [] => some [freed]
  | hole :: rest =>
    if freed.stop < hole.start then some (freed :: hole :: rest)
    else if freed.stop = hole.start then some (⟨freed.start, freed.size + hole.size⟩ :: rest)
    else if hole.stop = freed.start then insert? ⟨hole.start, hole.size + freed.size⟩ rest
    else if hole.stop < freed.start then (insert? freed rest).map (hole :: ·)
    else none

--------------------------------------------------------------------------------
-- Holes as they are stored
--------------------------------------------------------------------------------

/-- Stores the size of a hole and the address of the next one, zero for the last. -/
def storeNode (memory : Memory) (hole : Extent) (next : Nat) : Memory :=
  (memory.store hole.start 8 hole.size).store (hole.start + 8) 8 next

/-- Stores every hole of a list at its start. -/
def storeNodes (memory : Memory) : List Extent → Memory
  | [] => memory
  | [hole] => storeNode memory hole 0
  | hole :: next :: rest => storeNodes (storeNode memory hole next.start) (next :: rest)

--------------------------------------------------------------------------------
-- Sizes of extents
--------------------------------------------------------------------------------

theorem roundUp_mod (n : Nat) : roundUp n % 8 = 0 :=
  Nat.mul_mod_left ..

theorem le_roundUp (n : Nat) : n ≤ roundUp n := by
  simp only [roundUp]
  omega

theorem extentSize_mod (raw : Nat) : extentSize raw % 8 = 0 :=
  roundUp_mod _

theorem le_extentSize (raw : Nat) : raw ≤ extentSize raw :=
  Nat.le_trans (Nat.le_max_left ..) (le_roundUp _)

theorem leastHole_le_extentSize (raw : Nat) : leastHole ≤ extentSize raw :=
  Nat.le_trans (Nat.le_max_right ..) (le_roundUp _)

end Pool

end Firmware
