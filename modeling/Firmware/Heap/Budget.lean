import Firmware.Heap.Basic

/-! The budget heap: a stand-in for the region heap that keeps count.
It hands out blocks of a host allocator up to a number of bytes, remembers every live block, and
refuses to release an address that is not live. The host is a parameter: it may refuse, and it
chooses the addresses.
-/

namespace Firmware

/-- An allocator that the budget heap draws its blocks from. Sizes are never zero. -/
class HostAllocator (S : Type) where
  allocate (size : Nat) (zeroed : Bool) (host : S) : Option Nat × S
  /-- Resizes the block at an address from an old to a new size. -/
  resize (block old new : Nat) (host : S) : Option Nat × S
  release (block size : Nat) (host : S) : S

/-- A host whose memory can be read and written. -/
class InspectableHost (S : Type) extends HostAllocator S where
  memory (host : S) : Memory
  withMemory (host : S) (memory : Memory) : S

/-- A heap with a budget. -/
structure BudgetHeap (S : Type) where
  /-- The number of bytes that may be live together. -/
  capacity : Nat
  host : S
  /-- The number of bytes that are live. -/
  used : Nat := 0
  /-- The live blocks with their sizes; each address occurs once. -/
  live : List (Nat × Nat) := []
  /-- The number of primitives called so far. -/
  calls : Nat := 0
  /-- The number of releases of an address that was not live. -/
  refused : Nat := 0

namespace BudgetHeap

variable {S : Type}

/-- The size recorded for a live block. -/
def sizeOf? (heap : BudgetHeap S) (block : Nat) : Option Nat :=
  heap.live.lookup block

/-- Whether `extra` more bytes stay within the budget. -/
def Fits (heap : BudgetHeap S) (extra : Nat) : Prop :=
  heap.used + extra < addressSpace ∧ heap.used + extra ≤ heap.capacity

instance (heap : BudgetHeap S) (extra : Nat) : Decidable (heap.Fits extra) :=
  inferInstanceAs
    (Decidable (heap.used + extra < addressSpace ∧ heap.used + extra ≤ heap.capacity))

/-- The size that is asked of the host: it hands out no empty block. -/
def hostSize (size : Nat) : Nat := max size 1

/-- Whether a block of this size, aligned to eight, can exist. -/
def HasLayout (size : Nat) : Prop := hostSize size + 8 ≤ largestExtent

instance (size : Nat) : Decidable (HasLayout size) :=
  inferInstanceAs (Decidable (hostSize size + 8 ≤ largestExtent))

/-- Counts a call. -/
def counted (heap : BudgetHeap S) : BudgetHeap S := { heap with calls := heap.calls + 1 }

/-- The live blocks other than the one at `block`. -/
def without (live : List (Nat × Nat)) (block : Nat) : List (Nat × Nat) :=
  live.filter fun entry => entry.1 != block

/-- Records a block as live. -/
def track (heap : BudgetHeap S) (block size : Nat) : BudgetHeap S :=
  { heap with
    live := (block, size) :: without heap.live block
    used := heap.used + size }

/-- Forgets a live block of the given size. -/
def untrack (heap : BudgetHeap S) (block size : Nat) : BudgetHeap S :=
  { heap with
    live := without heap.live block
    used := heap.used - size }

section Primitives

variable [HostAllocator S]

/-- Draws a block from the host, if it fits the budget and the host grants it. -/
def take (zeroed : Bool) (size : Nat) (heap : BudgetHeap S)
    : Outcome (BudgetHeap S) (Option Nat) :=
  let heap := heap.counted
  if ¬ heap.Fits size then .answer none heap
  else if ¬ HasLayout size then .stop .invalidLayout heap
  else
    match HostAllocator.allocate (hostSize size) zeroed heap.host with
    | (none, host) => .answer none { heap with host }
    | (some block, host) => .answer (some block) ({ heap with host }.track block size)

/-- Gives a live block back to the host; any other address is counted as refused. -/
def release (block : Nat) (heap : BudgetHeap S) : Outcome (BudgetHeap S) Unit :=
  let heap := heap.counted
  match heap.sizeOf? block with
  | none => .answer () { heap with refused := heap.refused + 1 }
  | some size =>
    let heap := heap.untrack block size
    if ¬ HasLayout size then .stop .invalidLayout heap
    else
      .answer () { heap with host := HostAllocator.release block (hostSize size) heap.host }

/-- Has the host resize a live block, if the growth fits the budget. -/
def reallocate (block size : Nat) (heap : BudgetHeap S)
    : Outcome (BudgetHeap S) (Option Nat) :=
  let heap := heap.counted
  match heap.sizeOf? block with
  | none => .answer none heap
  | some old =>
    if old < size ∧ ¬ heap.Fits (size - old) then .answer none heap
    else if ¬ HasLayout old then .stop .invalidLayout heap
    else
      match HostAllocator.resize block (hostSize old) (hostSize size) heap.host with
      | (none, host) => .answer none { heap with host }
      | (some moved, host) =>
        .answer (some moved) (({ heap with host }.untrack block old).track moved size)

instance : BlockHeap (BudgetHeap S) where
  alignment := 8
  interruptSafe := false
  allocate := take false
  allocateZeroed := take true
  reallocate := reallocate
  release := release

end Primitives

instance [InspectableHost S] : InspectableHeap (BudgetHeap S) where
  sizeOf? := sizeOf?
  memory heap := InspectableHost.memory heap.host
  withMemory heap memory := { heap with host := InspectableHost.withMemory heap.host memory }

end BudgetHeap

--------------------------------------------------------------------------------
-- A host
--------------------------------------------------------------------------------

/-- A host that never hands out an address twice, moves a block whenever it is resized, and
refuses blocks of more than a mebibyte. -/
structure FreshHost where
  /-- The address of the next block, a multiple of eight. -/
  next : Nat
  memory : Memory

namespace FreshHost

/-- The largest block that is granted. -/
def largest : Nat := 0x100000

/-- The host after handing out a block of `size` bytes. -/
def advance (host : FreshHost) (size : Nat) : FreshHost :=
  { host with next := host.next + (size + 7) / 8 * 8 }

def allocate (size : Nat) (zeroed : Bool) (host : FreshHost) : Option Nat × FreshHost :=
  if largest < size then (none, host)
  else
    let memory := if zeroed then host.memory.fill host.next size 0 else host.memory
    (some host.next, { host.advance size with memory })

def resize (block old new : Nat) (host : FreshHost) : Option Nat × FreshHost :=
  if largest < new then (none, host)
  else
    (some host.next,
      { host.advance new with memory := host.memory.copy block host.next (min old new) })

instance : InspectableHost FreshHost where
  allocate := allocate
  resize := resize
  release _ _ host := host
  memory := FreshHost.memory
  withMemory host memory := { host with memory }

end FreshHost

end Firmware
