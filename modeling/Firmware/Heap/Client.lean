import Firmware.Heap.Surface

/-! Clients of a heap: programs that name blocks by numbered slots.
A client keeps the handle of the last block it was granted for a slot, also after releasing it.
It paints every fresh byte, so what it reads never depends on what memory held before.
-/

namespace Firmware

/-- What a client passes as a handle. -/
inductive Operand where
  /-- The handle in a slot; null if nothing was put there. -/
  | slot (index : Nat)
  | null
  /-- An address that no heap handed out to the client. -/
  | address (block : Nat)
deriving DecidableEq, Repr

/-- One step of a client. -/
inductive Command where
  | allocate (slot size : Nat) (surface : Surface)
  | allocateZeroed (slot count size : Nat) (surface : Surface)
  /-- Resizes a block; the result goes to slot `target`. -/
  | reallocate (source : Operand) (size target : Nat) (surface : Surface)
  | release (source : Operand) (surface : Surface)
  /-- Writes `seed`, `seed + 1`, … over a whole block. -/
  | fill (source : Operand) (seed : UInt8)
  /-- Reads at most `count` bytes of a block. -/
  | read (source : Operand) (count : Nat)
  /-- Describes a handle. -/
  | look (source : Operand)
  /-- Allocates and releases a block of `size` bytes, `times` times over. -/
  | cycle (size times : Nat)
deriving DecidableEq, Repr

/-- A handle that is not null, with the size of the live block there, if there is one. -/
structure BlockView where
  address : Nat
  size : Option Nat
deriving DecidableEq, Repr

/-- What a client learns from a step. -/
inductive Response where
  /-- The handle that a request was answered with. -/
  | block (view : Option BlockView)
  /-- The handle that was asked about. -/
  | seen (view : Option BlockView)
  | refused (cause : Refusal)
  | done
  | noLayout
  | skipped
  /-- The block to be written or read is not live. -/
  | dead
  | filled (size : Nat)
  | bytes (contents : List UInt8)
  /-- How many allocations of a cycle were granted. -/
  | granted (count : Nat)
  /-- The step stopped the program. -/
  | stopped (fault : HeapFault)
deriving DecidableEq, Repr

/-- A client and the heap it uses. -/
structure Client (H : Type) where
  heap : H
  /-- The handles in slots, the latest first. -/
  slots : List (Nat × Nat) := []

namespace Client

variable {H : Type} [InspectableHeap H]

/-- The byte with which fresh memory is painted. -/
def freshByte : UInt8 := 0xAA

/-- The handle that an operand stands for. -/
def resolve (client : Client H) : Operand → Option Nat
  | .slot index => client.slots.lookup index
  | .null => none
  | .address block => some block

/-- The size of the live block behind a handle. -/
def sizeOf? (client : Client H) (handle : Option Nat) : Option Nat :=
  handle.bind (InspectableHeap.sizeOf? client.heap)

/-- A handle as the client sees it. -/
def view (client : Client H) (handle : Option Nat) : Option BlockView :=
  handle.map fun address => { address, size := InspectableHeap.sizeOf? client.heap address }

/-- Puts a handle in a slot. The null handle is not put anywhere. -/
def put (client : Client H) (slot : Nat) : Option Nat → Client H
  | none => client
  | some block => { client with slots := (slot, block) :: client.slots }

/-- Writes over the bytes of the block at `block` from number `first` on. -/
def write (client : Client H) (block first : Nat) (value : Nat → UInt8) : Client H :=
  match InspectableHeap.sizeOf? client.heap block with
  | none => client
  | some size =>
    let memory := InspectableHeap.memory client.heap
    let memory := memory.overwrite (block + first) (size - first) value
    { client with heap := InspectableHeap.withMemory client.heap memory }

/-- Paints what is fresh of a block that was granted: all but the first `kept` bytes. -/
def paint (client : Client H) (kept : Nat) : Option Nat → Client H
  | none => client
  | some block => client.write block kept fun _ => freshByte

/-- What the client learns from a reply. -/
def respond (client : Client H) : Reply → Response
  | .handle block => .block (client.view block)
  | .refused cause => .refused cause
  | .done => .done
  | .noLayout => .noLayout
  | .skipped => .skipped

/-- Makes a request. -/
def request (client : Client H) (surface : Surface) (request : Request)
    : Except HeapFault Reply × Client H :=
  let outcome := surface.serve request client.heap
  (outcome.result, { client with heap := outcome.heap })

/-- Makes a request for a block. A block that is granted is painted, if `fresh` tells how many
of its bytes are kept, and its handle put in `slot`. -/
def obtain (client : Client H) (surface : Surface) (request : Request) (slot : Nat)
    (kept : Option Nat)
    : Response × Client H :=
  match client.request surface request with
  | (.error fault, client) => (.stopped fault, client)
  | (.ok reply, client) =>
    let block := reply.block?
    let client :=
      match kept with
      | none => client
      | some kept => client.paint kept block
    (client.respond reply, client.put slot block)

/-- Allocates and releases, and counts the blocks that were granted. -/
def cycle (size : Nat) : Nat → Nat → Client H → Response × Client H
  | 0, count, client => (.granted count, client)
  | times + 1, count, client =>
    let allocated := Bridge.allocate size client.heap
    match allocated.result with
    | .error fault => (.stopped fault, { client with heap := allocated.heap })
    | .ok block =>
      let released := Bridge.release block allocated.heap
      match released.result with
      | .error fault => (.stopped fault, { client with heap := released.heap })
      | .ok _ =>
        cycle size times (if block.isSome then count + 1 else count)
          { client with heap := released.heap }

/-- Performs one step. -/
def perform (client : Client H) : Command → Response × Client H
  | .allocate slot size surface =>
    client.obtain surface (.allocate size) slot (some 0)
  | .allocateZeroed slot count size surface =>
    client.obtain surface (.allocateZeroed count size) slot none
  | .reallocate source size target surface =>
    let block := client.resolve source
    client.obtain surface (.reallocate block size) target (some ((client.sizeOf? block).getD 0))
  | .release source surface =>
    match client.request surface (.release (client.resolve source)) with
    | (.error fault, client) => (.stopped fault, client)
    | (.ok reply, client) => (client.respond reply, client)
  | .fill source seed =>
    match client.resolve source, client.sizeOf? (client.resolve source) with
    | some block, some size =>
      (.filled size, client.write block 0 fun i => seed + UInt8.ofNat i)
    | _, _ => (.dead, client)
  | .read source count =>
    match client.resolve source, client.sizeOf? (client.resolve source) with
    | some block, some size =>
      (.bytes ((InspectableHeap.memory client.heap).read block (min count size)), client)
    | _, _ => (.dead, client)
  | .look source => (.seen (client.view (client.resolve source)), client)
  | .cycle size times => cycle size times 0 client

/-- Performs a program and collects what is learnt, with the heap after each step. -/
def run (client : Client H) : List Command → List (Response × H)
  | [] => []
  | command :: rest =>
    let (response, client) := client.perform command
    (response, client.heap) :: run client rest

end Client

end Firmware
