import Firmware.Heap.Bridge

/-! Growable byte vectors of typed code, kept in a block of a heap.
A vector without room holds no block. When it has to grow it asks for twice its room, for what it
needs, or for eight bytes, whichever is most.
-/

namespace Firmware

/-- Why a vector stops the program. -/
inductive VectorFault where
  /-- No block can be as large as what was asked for. -/
  | capacityOverflow
  /-- The heap refused a block. -/
  | allocationFailed (size : Nat)
  | heap (fault : HeapFault)
deriving DecidableEq, Repr

/-- The text with which a vector stops the program. -/
def VectorFault.message : VectorFault → String
  | .capacityOverflow => "capacity overflow"
  | .allocationFailed size => "memory allocation of " ++ toString size ++ " bytes failed"
  | .heap fault => fault.message

/-- A byte vector and the heap that its block is in. -/
structure ByteVector (H : Type) where
  heap : H
  /-- The block of the vector; null if it has no room. -/
  block : Option Nat := none
  /-- The number of bytes that the block has room for. -/
  capacity : Nat := 0
  /-- The number of bytes in the vector. -/
  size : Nat := 0

namespace ByteVector

variable {H : Type} [InspectableHeap H]

/-- The least room of a vector that had to grow. -/
def leastCapacity : Nat := 8

/-- Takes over the block that a request was answered with. -/
def adopt (vector : ByteVector H) (capacity : Nat) (outcome : Outcome H (Option Nat))
    : Except VectorFault (ByteVector H) :=
  match outcome.result with
  | .error fault => .error (.heap fault)
  | .ok none => .error (.allocationFailed capacity)
  | .ok (some block) =>
    .ok { vector with heap := outcome.heap, block := some block, capacity }

/-- Changes the room of a vector to `capacity` bytes, at least one. -/
def resize (vector : ByteVector H) (capacity : Nat) : Except VectorFault (ByteVector H) :=
  match Layout.ofSize? capacity 1, vector.block, Layout.ofSize? vector.capacity 1 with
  | some layout, none, _ =>
    vector.adopt capacity (Bridge.allocateLayout layout vector.heap)
  | some _, some block, some old =>
    vector.adopt capacity (Bridge.reallocateLayout (some block) old capacity vector.heap)
  | _, _, _ => .error .capacityOverflow

/-- An empty vector with room for `capacity` bytes. -/
def withCapacity (heap : H) (capacity : Nat) : Except VectorFault (ByteVector H) :=
  if capacity = 0 then .ok { heap } else resize { heap } capacity

/-- Makes room for `extra` more bytes. -/
def reserve (vector : ByteVector H) (extra : Nat) : Except VectorFault (ByteVector H) :=
  let needed := vector.size + extra
  if needed ≤ vector.capacity then .ok vector
  else vector.resize (max (max (2 * vector.capacity) needed) leastCapacity)

/-- Appends `count` bytes: byte number `i` of them is `value i`. -/
def extend (vector : ByteVector H) (count : Nat) (value : Nat → UInt8)
    : Except VectorFault (ByteVector H) :=
  (vector.reserve count).map fun vector =>
    match vector.block with
    | none => vector
    | some block =>
      let memory := InspectableHeap.memory vector.heap
      let memory := memory.overwrite (block + vector.size) count value
      { vector with
        heap := InspectableHeap.withMemory vector.heap memory
        size := vector.size + count }

/-- The bytes in the vector. -/
def contents (vector : ByteVector H) : List UInt8 :=
  match vector.block with
  | none => []
  | some block => (InspectableHeap.memory vector.heap).read block vector.size

/-- Gives the block of the vector back, and leaves the heap. -/
def drop (vector : ByteVector H) : Outcome H Unit :=
  Bridge.release vector.block vector.heap

end ByteVector

end Firmware
