import Firmware.Heap.Basic

/-! A heap that is lent instead of owned serves every primitive through its owner. -/

namespace Firmware

/-- A heap on loan. -/
structure Lent (H : Type) where
  owner : H

instance {H : Type} [BlockHeap H] : BlockHeap (Lent H) where
  alignment := BlockHeap.alignment H
  interruptSafe := BlockHeap.interruptSafe H
  allocate size heap := (BlockHeap.allocate size heap.owner).mapHeap Lent.mk
  allocateZeroed size heap := (BlockHeap.allocateZeroed size heap.owner).mapHeap Lent.mk
  reallocate block size heap := (BlockHeap.reallocate block size heap.owner).mapHeap Lent.mk
  release block heap := (BlockHeap.release block heap.owner).mapHeap Lent.mk

instance {H : Type} [InspectableHeap H] : InspectableHeap (Lent H) where
  sizeOf? heap block := InspectableHeap.sizeOf? heap.owner block
  memory heap := InspectableHeap.memory heap.owner
  withMemory heap memory := { owner := InspectableHeap.withMemory heap.owner memory }

end Firmware
