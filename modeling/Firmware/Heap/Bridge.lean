import Firmware.Heap.Basic
import Firmware.Heap.Layout

/-! The allocation bridge: memory requests of typed code, of plain code and of allocators that
work with layouts, all served by one heap.
The bridge holds no state. It keeps from the heap what the heap is not to be trusted with: null
handles, zero sizes, products that overflow, and alignments beyond what the heap guarantees.
Handles are optional addresses, and `none` is the null handle.
-/

namespace Firmware

/-- Why a request for memory is refused. -/
inductive Refusal where
  /-- The heap found no room. -/
  | outOfMemory
  /-- The product of count and size does not fit the address space. -/
  | sizeOverflow
  /-- Requests for no bytes are never passed on. -/
  | zeroSize
  /-- The heap does not guarantee the alignment asked for. -/
  | unsupportedAlignment
deriving DecidableEq, Repr

namespace Bridge

variable {H : Type} [BlockHeap H]

/-- A block the heap granted, or the reason that there is none. -/
def granted : Option Nat → Except Refusal Nat
  | some block => .ok block
  | none => .error .outOfMemory

/-- The handle for a typed result: null for every refusal. -/
def handle : Except Refusal Nat → Option Nat
  | .ok block => some block
  | .error _ => none

--------------------------------------------------------------------------------
-- Requests with a typed result
--------------------------------------------------------------------------------

def tryAllocate (size : Nat) (heap : H) : Outcome H (Except Refusal Nat) :=
  if size = 0 then .answer (.error .zeroSize) heap
  else (BlockHeap.allocate size heap).map granted

/-- Resizes a block. The null handle asks for a fresh block, and no block is resized to nothing. -/
def tryReallocate (block : Option Nat) (size : Nat) (heap : H)
    : Outcome H (Except Refusal Nat) :=
  match block with
  | none => tryAllocate size heap
  | some block =>
    if size = 0 then .answer (.error .zeroSize) heap
    else (BlockHeap.reallocate block size heap).map granted

/-- A zeroed block for `count` elements of `size` bytes. -/
def tryAllocateZeroed (count size : Nat) (heap : H) : Outcome H (Except Refusal Nat) :=
  if addressSpace ≤ count * size then .answer (.error .sizeOverflow) heap
  else if count * size = 0 then .answer (.error .zeroSize) heap
  else (BlockHeap.allocateZeroed (count * size) heap).map granted

--------------------------------------------------------------------------------
-- Requests with a plain handle
--------------------------------------------------------------------------------

def allocate (size : Nat) (heap : H) : Outcome H (Option Nat) :=
  (tryAllocate size heap).map handle

def reallocate (block : Option Nat) (size : Nat) (heap : H) : Outcome H (Option Nat) :=
  (tryReallocate block size heap).map handle

def allocateZeroed (count size : Nat) (heap : H) : Outcome H (Option Nat) :=
  (tryAllocateZeroed count size heap).map handle

/-- Gives a block back. The null handle is ignored. -/
def release (block : Option Nat) (heap : H) : Outcome H Unit :=
  match block with
  | none => .answer () heap
  | some block => BlockHeap.release block heap

--------------------------------------------------------------------------------
-- Requests with a layout
--------------------------------------------------------------------------------

/-- Refuses alignments that the heap does not guarantee. -/
def checkLayout (H : Type) [BlockHeap H] (layout : Layout) : Except Refusal Unit :=
  if BlockHeap.alignment H < layout.alignment then .error .unsupportedAlignment else .ok ()

def allocateLayout (layout : Layout) (heap : H) : Outcome H (Option Nat) :=
  match checkLayout H layout with
  | .error _ => .answer none heap
  | .ok _ => (tryAllocate layout.size heap).map handle

def allocateZeroedLayout (layout : Layout) (heap : H) : Outcome H (Option Nat) :=
  match checkLayout H layout with
  | .error _ => .answer none heap
  | .ok _ => (tryAllocateZeroed 1 layout.size heap).map handle

/-- Resizes a block that was asked for with `layout`; only its alignment matters. -/
def reallocateLayout (block : Option Nat) (layout : Layout) (size : Nat) (heap : H)
    : Outcome H (Option Nat) :=
  match checkLayout H layout with
  | .error _ => .answer none heap
  | .ok _ => (tryReallocate block size heap).map handle

/-- Gives a block back, whatever layout it was asked for with. -/
def releaseLayout (block : Option Nat) (_layout : Layout) (heap : H) : Outcome H Unit :=
  release block heap

end Bridge

end Firmware
