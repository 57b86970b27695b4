import Firmware.Memory

/-! The heap behind the allocation bridge.
A heap offers four primitives over one region. Each answers with a block, with nothing, or stops
the program with a `HeapFault`; in every case the heap it leaves is part of the outcome.
Null handles never reach a heap, so a block is a bare address here.
-/

namespace Firmware

/-- Why a heap stops the program instead of answering. -/
inductive HeapFault where
  /-- A size that admits no block layout reached the host allocator. -/
  | invalidLayout
  /-- A block was given back although part of it is free already. -/
  | overlappingRelease
  /-- More bytes were given back than are in use. -/
  | usageUnderflow
deriving DecidableEq, Repr

/-- The text with which a program stops. -/
def HeapFault.message : HeapFault → String
  | .invalidLayout => "called `Result::unwrap()` on an `Err` value: LayoutError"
  | .overlappingRelease => "Freed node aliases existing hole! Bad free?"
  | .usageUnderflow => "attempt to subtract with overflow"

/-- What an operation leaves: its result, if the program was not stopped, and the heap. -/
structure Outcome (H α : Type) where
  result : Except HeapFault α
  heap : H

/-- Changes the result and keeps the heap. -/
def Outcome.map {H α β : Type} (f : α → β) (outcome : Outcome H α) : Outcome H β where
  result := outcome.result.map f
  heap := outcome.heap

/-- Changes the heap and keeps the result. -/
def Outcome.mapHeap {H K α : Type} (f : H → K) (outcome : Outcome H α) : Outcome K α where
  result := outcome.result
  heap := f outcome.heap

/-- The outcome of an operation that answers and was not stopped. -/
def Outcome.answer {H α : Type} (value : α) (heap : H) : Outcome H α where
  result := .ok value
  heap := heap

/-- The outcome of an operation that stopped the program. -/
def Outcome.stop {H α : Type} (fault : HeapFault) (heap : H) : Outcome H α where
  result := .error fault
  heap := heap

/-- The four primitives of a heap. `allocate` and `allocateZeroed` take a size in bytes,
`reallocate` a block and its new size; a block that is refused is `none`. -/
class BlockHeap (H : Type) where
  /-- Every block handed out starts at a multiple of this number. -/
  alignment : Nat
  /-- Whether the primitives may be called while another one is interrupted. -/
  interruptSafe : Bool
  allocate (size : Nat) (heap : H) : Outcome H (Option Nat)
  allocateZeroed (size : Nat) (heap : H) : Outcome H (Option Nat)
  reallocate (block size : Nat) (heap : H) : Outcome H (Option Nat)
  release (block : Nat) (heap : H) : Outcome H Unit

/-- A heap whose blocks can be measured and whose bytes can be read and written. -/
class InspectableHeap (H : Type) extends BlockHeap H where
  /-- The size recorded for a live block; `none` if no live block starts at the address. -/
  sizeOf? (heap : H) (block : Nat) : Option Nat
  memory (heap : H) : Memory
  withMemory (heap : H) (memory : Memory) : H

section Outcome

variable {H K α β : Type}

@[simp] theorem Outcome.heap_map (f : α → β) (outcome : Outcome H α)
    : (outcome.map f).heap = outcome.heap :=
  rfl

@[simp] theorem Outcome.result_map (f : α → β) (outcome : Outcome H α)
    : (outcome.map f).result = outcome.result.map f :=
  rfl

@[simp] theorem Outcome.heap_mapHeap (f : H → K) (outcome : Outcome H α)
    : (outcome.mapHeap f).heap = f outcome.heap :=
  rfl

@[simp] theorem Outcome.result_mapHeap (f : H → K) (outcome : Outcome H α)
    : (outcome.mapHeap f).result = outcome.result :=
  rfl

@[simp] theorem Outcome.map_answer (f : α → β) (value : α) (heap : H)
    : (Outcome.answer value heap).map f = Outcome.answer (f value) heap :=
  rfl

@[simp] theorem Outcome.map_stop (f : α → β) (fault : HeapFault) (heap : H)
    : (Outcome.stop fault heap : Outcome H α).map f = Outcome.stop fault heap :=
  rfl

end Outcome

end Firmware
