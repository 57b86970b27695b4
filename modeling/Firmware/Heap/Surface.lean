import Firmware.Heap.Bridge

/-! The surfaces on which a heap is reached, and the requests that can be made on each.
A surface says how a request is put and how it is answered; the heap behind it is the same.
-/

namespace Firmware

/-- How typed code chooses a layout: an alignment, and a size if it is not the natural one. -/
structure LayoutChoice where
  alignment : Nat := 8
  size : Option Nat := none
deriving DecidableEq, Repr

/-- The layout of a choice whose natural size is `size`. -/
def LayoutChoice.layout? (choice : LayoutChoice) (size : Nat) : Option Layout :=
  Layout.ofSize? (choice.size.getD size) choice.alignment

/-- The ways to reach a heap. -/
inductive Surface where
  /-- Requests that are answered with a block or the reason for refusing it. -/
  | typed
  /-- Requests that are answered with a handle. -/
  | plain
  /-- Requests that come with a layout. -/
  | layout (choice : LayoutChoice)
  /-- The primitives of the heap, past the bridge. -/
  | primitive
  /-- The allocation symbols of linked C code. -/
  | linked
  /-- The same symbols with a reentrancy context, which is ignored. -/
  | reentrant (context : Nat)
deriving DecidableEq, Repr

/-- A request for memory. -/
inductive Request where
  | allocate (size : Nat)
  | allocateZeroed (count size : Nat)
  | reallocate (block : Option Nat) (size : Nat)
  | release (block : Option Nat)
deriving DecidableEq, Repr

/-- The answer to a request. -/
inductive Reply where
  /-- A handle; null if the request was refused. -/
  | handle (block : Option Nat)
  /-- The reason for refusing a typed request. -/
  | refused (cause : Refusal)
  /-- A release is answered without a value. -/
  | done
  /-- There is no layout as chosen, so the request was not made. -/
  | noLayout
  /-- The primitives take no null handle, so the request was not made. -/
  | skipped
deriving DecidableEq, Repr

namespace Reply

/-- The answer to a typed request. -/
def ofTyped : Except Refusal Nat → Reply
  | .ok block => handle (some block)
  | .error cause => refused cause

/-- The block that a request was answered with. -/
def block? : Reply → Option Nat
  | handle block => block
  | _ => none

end Reply

namespace Surface

variable {H : Type} [BlockHeap H]

def serveTyped (request : Request) (heap : H) : Outcome H Reply :=
  match request with
  | .allocate size => (Bridge.tryAllocate size heap).map Reply.ofTyped
  | .allocateZeroed count size => (Bridge.tryAllocateZeroed count size heap).map Reply.ofTyped
  | .reallocate block size => (Bridge.tryReallocate block size heap).map Reply.ofTyped
  | .release block => (Bridge.release block heap).map fun _ => .done

def servePlain (request : Request) (heap : H) : Outcome H Reply :=
  match request with
  | .allocate size => (Bridge.allocate size heap).map Reply.handle
  | .allocateZeroed count size => (Bridge.allocateZeroed count size heap).map Reply.handle
  | .reallocate block size => (Bridge.reallocate block size heap).map Reply.handle
  | .release block => (Bridge.release block heap).map fun _ => .done

/-- Requests with a layout. The natural size is the one asked for, and a single byte where the
layout only describes an old block; counts are not used. -/
def serveLayout (choice : LayoutChoice) (request : Request) (heap : H) : Outcome H Reply :=
  let withLayout (size : Nat) (serve : Layout → Outcome H Reply) : Outcome H Reply :=
    match choice.layout? size with
    | none => .answer .noLayout heap
    | some chosen => serve chosen
  match request with
  | .allocate size =>
    withLayout size fun chosen => (Bridge.allocateLayout chosen heap).map Reply.handle
  | .allocateZeroed _ size =>
    withLayout size fun chosen => (Bridge.allocateZeroedLayout chosen heap).map Reply.handle
  | .reallocate block size =>
    withLayout 1 fun chosen => (Bridge.reallocateLayout block chosen size heap).map Reply.handle
  | .release block =>
    withLayout 1 fun chosen => (Bridge.releaseLayout block chosen heap).map fun _ => .done

/-- The primitives take one size and a block that is not null. -/
def servePrimitive (request : Request) (heap : H) : Outcome H Reply :=
  match request with
  | .allocate size => (BlockHeap.allocate size heap).map Reply.handle
  | .allocateZeroed _ size => (BlockHeap.allocateZeroed size heap).map Reply.handle
  | .reallocate (some block) size => (BlockHeap.reallocate block size heap).map Reply.handle
  | .release (some block) => (BlockHeap.release block heap).map fun _ => .done
  | .reallocate none _ | .release none => .answer .skipped heap

/-- Serves a request on a surface. -/
def serve (surface : Surface) (request : Request) (heap : H) : Outcome H Reply :=
  match surface with
  | .typed => serveTyped request heap
  | .plain => servePlain request heap
  | .layout choice => serveLayout choice request heap
  | .primitive => servePrimitive request heap
  | .linked => servePlain request heap
  | .reentrant _ => servePlain request heap

end Surface

end Firmware
