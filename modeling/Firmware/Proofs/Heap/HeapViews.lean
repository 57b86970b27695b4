import Firmware.Heap.Lent
import Firmware.Proofs.Heap.Calls

/-! Heaps that can be seen as other heaps.
If every call does the same to a heap and to what it is seen as, so does every request on every
surface (`HeapView.serve`). A heap on loan is seen as its owner this way, and a heap that writes
down its calls as the heap that serves them, which shows the calls behind a request
(`Recorded.serve_eq`).
-/

namespace Firmware

--------------------------------------------------------------------------------
-- Heaps that can be seen as other heaps
--------------------------------------------------------------------------------

/-- Every heap of type `K` can be seen as one of type `H` that takes the same calls, gives the same
answers and guarantees the same alignment.
-/
structure HeapView {K H : Type} [BlockHeap K] [BlockHeap H] (view : K → H) : Prop where
  alignment : BlockHeap.alignment K = BlockHeap.alignment H
  perform : ∀ (call : Call) (heap : K), (call.perform heap).mapHeap view = call.perform (view heap)

theorem Outcome.mapHeap_map {K H α β : Type} (outcome : Outcome K α) (f : α → β) (view : K → H)
    : (outcome.map f).mapHeap view = (outcome.mapHeap view).map f :=
  rfl

theorem Outcome.mapHeap_answer {K H α : Type} (value : α) (heap : K) (view : K → H)
    : (Outcome.answer value heap).mapHeap view = .answer value (view heap) :=
  rfl

namespace HeapView

variable {K H : Type} [BlockHeap K] [BlockHeap H] {view : K → H}

theorem tryAllocate (seen : HeapView view) (size : Nat) (heap : K)
    : (Bridge.tryAllocate size heap).mapHeap view = Bridge.tryAllocate size (view heap) := by
  by_cases zero : size = 0
  · simp only [Bridge.tryAllocate, if_pos zero, Outcome.mapHeap_answer]
  · have same : (BlockHeap.allocate size heap).mapHeap view = BlockHeap.allocate size (view heap) :=
      seen.perform (.allocate size) heap
    simp only [Bridge.tryAllocate, if_neg zero, Outcome.mapHeap_map, same]

theorem tryAllocateZeroed (seen : HeapView view) (count size : Nat) (heap : K)
    : (Bridge.tryAllocateZeroed count size heap).mapHeap view
      = Bridge.tryAllocateZeroed count size (view heap) := by
  have same : (BlockHeap.allocateZeroed (count * size) heap).mapHeap view
      = BlockHeap.allocateZeroed (count * size) (view heap) :=
    seen.perform (.allocateZeroed (count * size)) heap
  by_cases overflows : addressSpace ≤ count * size
  · simp only [Bridge.tryAllocateZeroed, if_pos overflows, Outcome.mapHeap_answer]
  · by_cases zero : count * size = 0
    · simp only [Bridge.tryAllocateZeroed, if_neg overflows, if_pos zero, Outcome.mapHeap_answer]
    · simp only [Bridge.tryAllocateZeroed, if_neg overflows, if_neg zero, Outcome.mapHeap_map, same]

theorem tryReallocate (seen : HeapView view) (block : Option Nat) (size : Nat) (heap : K)
    : (Bridge.tryReallocate block size heap).mapHeap view
      = Bridge.tryReallocate block size (view heap) := by
  cases block with
  | none => exact seen.tryAllocate size heap
  | some block =>
      have same : (BlockHeap.reallocate block size heap).mapHeap view
          = BlockHeap.reallocate block size (view heap) :=
        seen.perform (.reallocate block size) heap
      by_cases zero : size = 0
      · simp only [Bridge.tryReallocate, if_pos zero, Outcome.mapHeap_answer]
      · simp only [Bridge.tryReallocate, if_neg zero, Outcome.mapHeap_map, same]

theorem release (seen : HeapView view) (block : Option Nat) (heap : K)
    : ((Bridge.release block heap).map fun _ => Reply.done).mapHeap view
      = (Bridge.release block (view heap)).map fun _ => Reply.done := by
  cases block with
  | none => rfl
  | some block =>
      -- as a call a release answers with no block, which tells as much as its empty answer
      have same := congrArg (Outcome.map fun _ => Reply.done) (seen.perform (.release block) heap)
      simp only [Call.perform, Outcome.mapHeap_map, Outcome.map_map] at same
      exact same

theorem serveTyped (seen : HeapView view) (request : Request) (heap : K)
    : (Surface.serveTyped request heap).mapHeap view
      = Surface.serveTyped request (view heap) := by
  cases request with
  | allocate size => exact congrArg (Outcome.map _) (seen.tryAllocate size heap)
  | allocateZeroed count size =>
      exact congrArg (Outcome.map _) (seen.tryAllocateZeroed count size heap)
  | reallocate block size => exact congrArg (Outcome.map _) (seen.tryReallocate block size heap)
  | release block => exact seen.release block heap

theorem servePlain (seen : HeapView view) (request : Request) (heap : K)
    : (Surface.servePlain request heap).mapHeap view
      = Surface.servePlain request (view heap) := by
  simp only [Surface.servePlain_eq, Outcome.mapHeap_map, seen.serveTyped]

theorem serveLayout (seen : HeapView view) (choice : LayoutChoice) (request : Request) (heap : K)
    : (Surface.serveLayout choice request heap).mapHeap view
      = Surface.serveLayout choice request (view heap) := by
  simp only [Surface.serveLayout_eq, seen.alignment]
  cases choice.layout? request.layoutSize with
  | none => rfl
  | some chosen =>
      by_cases beyond : request.Aligns ∧ BlockHeap.alignment H < chosen.alignment
      · simp only [if_pos beyond, Outcome.mapHeap_answer]
      · simp only [if_neg beyond, seen.servePlain]

theorem servePrimitive (seen : HeapView view) (request : Request) (heap : K)
    : (Surface.servePrimitive request heap).mapHeap view
      = Surface.servePrimitive request (view heap) := by
  cases request with
  | allocate size => exact congrArg (Outcome.map _) (seen.perform (.allocate size) heap)
  | allocateZeroed count size =>
      exact congrArg (Outcome.map _) (seen.perform (.allocateZeroed size) heap)
  | reallocate block size =>
      cases block with
      | none => rfl
      | some block =>
          exact congrArg (Outcome.map _) (seen.perform (.reallocate block size) heap)
  | release block =>
      cases block with
      | none => rfl
      | some block => exact seen.release (some block) heap

/-- Requests on every surface are served alike by a heap and by what it is seen as. -/
theorem serve (seen : HeapView view) (surface : Surface) (request : Request) (heap : K)
    : (surface.serve request heap).mapHeap view = surface.serve request (view heap) := by
  cases surface with
  | typed => exact seen.serveTyped request heap
  | plain | linked | reentrant _ => exact seen.servePlain request heap
  | layout choice => exact seen.serveLayout choice request heap
  | primitive => exact seen.servePrimitive request heap

end HeapView

/-- A heap on loan can be seen as its owner. -/
theorem Lent.heapView (H : Type) [BlockHeap H] : HeapView (Lent.owner : Lent H → H) where
  alignment := rfl
  perform call heap := by
    cases call <;> rfl

--------------------------------------------------------------------------------
-- The calls behind requests
--------------------------------------------------------------------------------

/-- A heap that writes down the calls that reach it. -/
structure Recorded (H : Type) where
  heap : H
  calls : List Call := []

namespace Recorded

variable {H : Type}

/-- Writes a call down and passes it on. -/
def pass {α : Type} (call : Call) (perform : H → Outcome H α) (recorded : Recorded H)
    : Outcome (Recorded H) α :=
  (perform recorded.heap).mapHeap fun heap => ⟨heap, recorded.calls ++ [call]⟩

variable [BlockHeap H]

instance : BlockHeap (Recorded H) where
  alignment := BlockHeap.alignment H
  interruptSafe := BlockHeap.interruptSafe H
  allocate size := pass (.allocate size) (BlockHeap.allocate size)
  allocateZeroed size := pass (.allocateZeroed size) (BlockHeap.allocateZeroed size)
  reallocate block size := pass (.reallocate block size) (BlockHeap.reallocate block size)
  release block := pass (.release block) (BlockHeap.release block)

theorem perform_eq (call : Call) (recorded : Recorded H)
    : call.perform recorded = pass call call.perform recorded := by
  cases call <;> rfl

theorem heapView : HeapView (Recorded.heap : Recorded H → H) where
  alignment := rfl
  perform call recorded := by
    rw [perform_eq]
    rfl

/-- A request is served as by the heap alone, and the call as which it reaches the heap, if it does,
is all that is written down.
-/
theorem serve_eq (surface : Surface) (request : Request) (recorded : Recorded H)
    : surface.serve request recorded
      = (surface.serve request recorded.heap).mapHeap fun heap =>
          ⟨heap, recorded.calls ++ (surface.call? H request).toList⟩ := by
  have sameCall : surface.call? (Recorded H) request = surface.call? H request := by
    cases surface <;> rfl
  cases reached : surface.call? H request with
  | some call =>
      rw [Surface.serve_reached (sameCall.trans reached), Surface.serve_reached reached, perform_eq]
      rfl
  | none =>
      obtain ⟨refusal, _, answered⟩ := Surface.serve_unreached (sameCall.trans reached)
      have served := heapView.serve surface request recorded
      rw [answered, Outcome.mapHeap_answer] at served
      rw [answered, ← served, Outcome.mapHeap_answer, Option.toList_none, List.append_nil]

end Recorded

end Firmware
