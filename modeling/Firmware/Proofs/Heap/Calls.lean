import Firmware.Heap.Surface

/-! Requests on every surface come down to calls of the four primitives.
A request either reaches the heap as one call, and is answered with what the call answers, or is
answered without the heap and without a block (`Surface.comesDownTo_call?`).
-/

namespace Firmware

theorem Outcome.map_map {H α β γ : Type} (outcome : Outcome H α) (f : α → β) (g : β → γ)
    : (outcome.map f).map g = outcome.map fun value => g (f value) := by
  rcases outcome with ⟨fault | value, heap⟩ <;> rfl

/-- A call of a primitive. -/
inductive Call where
  | allocate (size : Nat)
  | allocateZeroed (size : Nat)
  | reallocate (block size : Nat)
  | release (block : Nat)
deriving DecidableEq, Repr

namespace Call

/-- The size of the block that a call asks for. -/
def size? : Call → Option Nat
  | .allocate size | .allocateZeroed size | .reallocate _ size => some size
  | .release _ => none

/-- The block that a call is about. -/
def block? : Call → Option Nat
  | .allocate _ | .allocateZeroed _ => none
  | .reallocate block _ | .release block => some block

/-- Makes the call. A release answers with no block. -/
def perform {H : Type} [BlockHeap H] (call : Call) (heap : H) : Outcome H (Option Nat) :=
  match call with
  | .allocate size => BlockHeap.allocate size heap
  | .allocateZeroed size => BlockHeap.allocateZeroed size heap
  | .reallocate block size => BlockHeap.reallocate block size heap
  | .release block => (BlockHeap.release block heap).map fun _ => none

end Call

namespace Request

/-- The block that a request is about; `none` is the null handle, or no handle at all. -/
def block? : Request → Option Nat
  | .allocate _ | .allocateZeroed _ _ => none
  | .reallocate block _ | .release block => block

/-- The size that a layout is made for unless it is chosen: a layout that only describes an old
block is one byte.
-/
def layoutSize : Request → Nat
  | .allocate size | .allocateZeroed _ size => size
  | .reallocate _ _ | .release _ => 1

/-- The request with the size taken from a layout. Old blocks keep their size to themselves. -/
def sizedBy (layout : Layout) : Request → Request
  | .allocate _ => .allocate layout.size
  | .allocateZeroed _ _ => .allocateZeroed 1 layout.size
  | .reallocate block size => .reallocate block size
  | .release block => .release block

/-- A request that depends on the alignment of its layout. -/
def Aligns : Request → Prop
  | .allocate _ | .allocateZeroed _ _ | .reallocate _ _ => True
  | .release _ => False

instance : (request : Request) → Decidable request.Aligns
  | .allocate _ | .allocateZeroed _ _ | .reallocate _ _ => inferInstanceAs (Decidable True)
  | .release _ => inferInstanceAs (Decidable False)

theorem block?_sizedBy (layout : Layout) (request : Request)
    : (request.sizedBy layout).block? = request.block? := by
  cases request <;> rfl

end Request

namespace Bridge

/-- The call that the bridge makes for a request, unless it answers the request itself. -/
def call? : Request → Option Call
  | .allocate size | .reallocate none size => if size = 0 then none else some (.allocate size)
  | .allocateZeroed count size =>
      if addressSpace ≤ count * size ∨ count * size = 0 then none
      else some (.allocateZeroed (count * size))
  | .reallocate (some block) size => if size = 0 then none else some (.reallocate block size)
  | .release block => block.map .release

section Layouts

variable {H : Type} [BlockHeap H] (layout : Layout) (heap : H)

/-- A layout is checked for its alignment only. -/
theorem match_checkLayout {α : Type} (refused passed : α)
    : (match checkLayout H layout with
        | .error _ => refused
        | .ok _ => passed)
      = if BlockHeap.alignment H < layout.alignment then refused else passed := by
  by_cases beyond : BlockHeap.alignment H < layout.alignment
  · simp only [checkLayout, if_pos beyond]
  · simp only [checkLayout, if_neg beyond]

theorem allocateLayout_eq
    : allocateLayout layout heap
      = if BlockHeap.alignment H < layout.alignment then .answer none heap
        else allocate layout.size heap :=
  match_checkLayout layout _ _

theorem allocateZeroedLayout_eq
    : allocateZeroedLayout layout heap
      = if BlockHeap.alignment H < layout.alignment then .answer none heap
        else allocateZeroed 1 layout.size heap :=
  match_checkLayout layout _ _

theorem reallocateLayout_eq (block : Option Nat) (size : Nat)
    : reallocateLayout block layout size heap
      = if BlockHeap.alignment H < layout.alignment then .answer none heap
        else reallocate block size heap :=
  match_checkLayout layout _ _

end Layouts

end Bridge

namespace Surface

/-- The request made with a chosen layout, if there is such a layout and the heap can align to
it.
-/
def aligned? (H : Type) [BlockHeap H] (choice : LayoutChoice) (natural : Nat)
    (make : Layout → Request)
    : Option Request :=
  match choice.layout? natural with
  | none => none
  | some chosen => if BlockHeap.alignment H < chosen.alignment then none else some (make chosen)

/-- The request that the bridge sees for a request with a layout. Releases ignore the alignment. -/
def layoutRequest? (H : Type) [BlockHeap H] (choice : LayoutChoice) : Request → Option Request
  | .allocate size => aligned? H choice size fun chosen => .allocate chosen.size
  | .allocateZeroed _ size => aligned? H choice size fun chosen => .allocateZeroed 1 chosen.size
  | .reallocate block size => aligned? H choice 1 fun _ => .reallocate block size
  | .release block => (choice.layout? 1).map fun _ => .release block

/-- The primitives take any size, and blocks that are not null. -/
def primitiveCall? : Request → Option Call
  | .allocate size => some (.allocate size)
  | .allocateZeroed _ size => some (.allocateZeroed size)
  | .reallocate block size => block.map (.reallocate · size)
  | .release block => block.map .release

/-- The call as which a request on a surface reaches the heap, if it does. -/
def call? (H : Type) [BlockHeap H] (surface : Surface) (request : Request) : Option Call :=
  match surface with
  | .typed | .plain | .linked | .reentrant _ => Bridge.call? request
  | .layout choice => (layoutRequest? H choice request).bind Bridge.call?
  | .primitive => primitiveCall? request

/-- What a surface makes of the answer to a call: only typed requests learn why they are refused,
and releases learn nothing.
-/
def reply (surface : Surface) (call : Call) (answer : Option Nat) : Reply :=
  match call, surface, answer with
  | .release _, _, _ => .done
  | _, .typed, none => .refused .outOfMemory
  | _, _, answer => .handle answer

/-- A request for a block is answered with the block that its call was answered with. -/
theorem block?_reply (surface : Surface) {call : Call} (asks : call.size?.isSome)
    (answer : Option Nat)
    : (surface.reply call answer).block? = answer := by
  cases call <;> cases surface <;> cases answer <;> first | rfl | cases asks

section Serving

variable {H : Type} [BlockHeap H]

/-- Serving is one call of the heap and its reply, or an answer without a block that is the same
for every heap and leaves it alone.
-/
def ComesDownTo (surface : Surface) (call? : Option Call) (serve : H → Outcome H Reply) : Prop :=
  match call? with
  | some call => ∀ heap, serve heap = (call.perform heap).map (surface.reply call)
  | none => ∃ refusal : Reply, refusal.block? = none ∧ ∀ heap, serve heap = .answer refusal heap

theorem ComesDownTo.guard {surface : Surface} {refused : Prop} [Decidable refused] {call : Call}
    {serve : H → Outcome H Reply} (refusal : Reply) (noBlock : refusal.block? = none)
    (answered : refused → ∀ heap, serve heap = .answer refusal heap)
    (passed : ¬ refused → ∀ heap, serve heap = (call.perform heap).map (surface.reply call))
    : ComesDownTo surface (if refused then none else some call) serve := by
  by_cases stops : refused
  · rw [if_pos stops]
    exact ⟨refusal, noBlock, answered stops⟩
  · rw [if_neg stops]
    exact passed stops

theorem comesDownTo_serveTyped (request : Request)
    : ComesDownTo .typed (Bridge.call? request) (serveTyped request : H → Outcome H Reply) := by
  have granted (call : Call) (asks : call.size?.isSome) (outcome : Outcome H (Option Nat))
      : (outcome.map Bridge.granted).map Reply.ofTyped = outcome.map (reply .typed call) := by
    rcases outcome with ⟨fault | (_ | block), heap⟩ <;> cases call <;> first | rfl | cases asks
  cases request with
  | allocate size =>
      refine .guard (.refused .zeroSize) rfl ?_ ?_
      · intro zero heap
        rw [serveTyped, Bridge.tryAllocate, if_pos zero]
        rfl
      · intro positive heap
        rw [serveTyped, Bridge.tryAllocate, if_neg positive]
        exact granted (.allocate size) rfl _
  | allocateZeroed count size =>
      by_cases overflows : addressSpace ≤ count * size
      · rw [Bridge.call?, if_pos (Or.inl overflows)]
        refine ⟨.refused .sizeOverflow, rfl, fun heap => ?_⟩
        rw [serveTyped, Bridge.tryAllocateZeroed, if_pos overflows]
        rfl
      · refine .guard (.refused .zeroSize) rfl ?_ ?_
        · intro stops heap
          rw [serveTyped, Bridge.tryAllocateZeroed, if_neg overflows,
            if_pos (stops.resolve_left overflows)]
          rfl
        · intro passes heap
          rw [serveTyped, Bridge.tryAllocateZeroed, if_neg overflows,
            if_neg (not_or.mp passes).2]
          exact granted (.allocateZeroed (count * size)) rfl _
  | reallocate block size =>
      cases block with
      | none =>
          refine .guard (.refused .zeroSize) rfl ?_ ?_
          · intro zero heap
            rw [serveTyped, Bridge.tryReallocate, Bridge.tryAllocate, if_pos zero]
            rfl
          · intro positive heap
            rw [serveTyped, Bridge.tryReallocate, Bridge.tryAllocate, if_neg positive]
            exact granted (.allocate size) rfl _
      | some block =>
          refine .guard (.refused .zeroSize) rfl ?_ ?_
          · intro zero heap
            rw [serveTyped, Bridge.tryReallocate, if_pos zero]
            rfl
          · intro positive heap
            rw [serveTyped, Bridge.tryReallocate, if_neg positive]
            exact granted (.reallocate block size) rfl _
  | release block =>
      cases block with
      | none => exact ⟨.done, rfl, fun heap => rfl⟩
      | some block =>
          intro heap
          exact (Outcome.map_map (BlockHeap.release block heap) (fun _ => none)
            (reply .typed (.release block))).symm

/-- What is left of a typed answer without the reason for a refusal. -/
def forget : Reply → Reply
  | .refused _ => .handle none
  | reply => reply

theorem servePlain_eq (request : Request) (heap : H)
    : servePlain request heap = (serveTyped request heap).map forget := by
  have handles (outcome : Outcome H (Except Refusal Nat))
      : (outcome.map Bridge.handle).map Reply.handle
        = (outcome.map Reply.ofTyped).map forget := by
    rcases outcome with ⟨fault | (cause | block), heap⟩ <;> rfl
  cases request with
  | allocate size => exact handles (Bridge.tryAllocate size heap)
  | allocateZeroed count size => exact handles (Bridge.tryAllocateZeroed count size heap)
  | reallocate block size => exact handles (Bridge.tryReallocate block size heap)
  | release block =>
      exact (Outcome.map_map (Bridge.release block heap) (fun _ => Reply.done) forget).symm

theorem comesDownTo_servePlain {surface : Surface} (plain : surface ≠ .typed) (request : Request)
    : ComesDownTo surface (Bridge.call? request) (servePlain request : H → Outcome H Reply) := by
  have forgets (call : Call) (answer : Option Nat)
      : forget (reply .typed call answer) = surface.reply call answer := by
    cases call <;> cases surface <;> cases answer <;> first | rfl | exact absurd rfl plain
  have typed : ComesDownTo .typed (Bridge.call? request)
      (serveTyped request : H → Outcome H Reply) :=
    comesDownTo_serveTyped request
  cases reached : Bridge.call? request with
  | none =>
      rw [reached] at typed
      obtain ⟨refusal, noBlock, answered⟩ := typed
      refine ⟨forget refusal, ?_, ?_⟩
      · cases refusal <;> first | rfl | exact noBlock
      · intro heap
        rw [servePlain_eq, answered]
        rfl
  | some call =>
      rw [reached] at typed
      intro heap
      rw [servePlain_eq, typed heap, Outcome.map_map]
      simp only [forgets]

/-- A request with a layout is refused for want of a layout or of alignment, or it is a plain
request of the size of the layout.
-/
theorem serveLayout_eq (choice : LayoutChoice) (request : Request) (heap : H)
    : serveLayout choice request heap
      = match choice.layout? request.layoutSize with
        | none => .answer .noLayout heap
        | some chosen =>
            if request.Aligns ∧ BlockHeap.alignment H < chosen.alignment then
              .answer (.handle none) heap
            else servePlain (request.sizedBy chosen) heap := by
  have guarded (alignment : Nat) (passed : Outcome H (Option Nat))
      : (if BlockHeap.alignment H < alignment then .answer none heap else passed).map Reply.handle
        = if True ∧ BlockHeap.alignment H < alignment then .answer (.handle none) heap
          else passed.map Reply.handle := by
    simp only [true_and, apply_ite (Outcome.map Reply.handle), Outcome.map_answer]
  cases request with
  | allocate size =>
      simp only [serveLayout, Request.layoutSize, Bridge.allocateLayout_eq]
      cases choice.layout? size with
      | none => rfl
      | some chosen => exact guarded chosen.alignment _
  | allocateZeroed count size =>
      simp only [serveLayout, Request.layoutSize, Bridge.allocateZeroedLayout_eq]
      cases choice.layout? size with
      | none => rfl
      | some chosen => exact guarded chosen.alignment _
  | reallocate block size =>
      simp only [serveLayout, Request.layoutSize, Bridge.reallocateLayout_eq]
      cases choice.layout? 1 with
      | none => rfl
      | some chosen => exact guarded chosen.alignment _
  | release block =>
      simp only [serveLayout, Request.layoutSize]
      cases choice.layout? 1 <;> rfl

theorem layoutRequest?_eq (choice : LayoutChoice) (request : Request)
    : layoutRequest? H choice request
      = match choice.layout? request.layoutSize with
        | none => none
        | some chosen =>
            if request.Aligns ∧ BlockHeap.alignment H < chosen.alignment then none
            else some (request.sizedBy chosen) := by
  cases request with
  | allocate _ | allocateZeroed _ _ | reallocate _ _ =>
      simp only [layoutRequest?, aligned?, Request.layoutSize, Request.Aligns, true_and,
        Request.sizedBy]
  | release block =>
      simp only [layoutRequest?, Request.layoutSize, Request.Aligns, false_and, if_false,
        Request.sizedBy]
      cases choice.layout? 1 <;> rfl

theorem comesDownTo_serveLayout (choice : LayoutChoice) (request : Request)
    : ComesDownTo (.layout choice) ((layoutRequest? H choice request).bind Bridge.call?)
        (serveLayout choice request : H → Outcome H Reply) := by
  have served : (serveLayout choice request : H → Outcome H Reply) = _ :=
    funext (serveLayout_eq choice request)
  rw [served, layoutRequest?_eq]
  cases choice.layout? request.layoutSize with
  | none => exact ⟨.noLayout, rfl, fun heap => rfl⟩
  | some chosen =>
      by_cases beyond : request.Aligns ∧ BlockHeap.alignment H < chosen.alignment
      · simp only [if_pos beyond]
        exact ⟨.handle none, rfl, fun heap => rfl⟩
      · simp only [if_neg beyond]
        exact comesDownTo_servePlain (by simp) (request.sizedBy chosen)

theorem comesDownTo_servePrimitive (request : Request)
    : ComesDownTo .primitive (primitiveCall? request)
        (servePrimitive request : H → Outcome H Reply) := by
  have handles (call : Call) (asks : call.size?.isSome) (outcome : Outcome H (Option Nat))
      : outcome.map Reply.handle = outcome.map (reply .primitive call) := by
    rcases outcome with ⟨fault | (_ | block), heap⟩ <;> cases call <;> first | rfl | cases asks
  cases request with
  | allocate size => exact fun heap => handles (.allocate size) rfl _
  | allocateZeroed count size => exact fun heap => handles (.allocateZeroed size) rfl _
  | reallocate block size =>
      cases block with
      | none => exact ⟨.skipped, rfl, fun heap => rfl⟩
      | some block => exact fun heap => handles (.reallocate block size) rfl _
  | release block =>
      cases block with
      | none => exact ⟨.skipped, rfl, fun heap => rfl⟩
      | some block =>
          intro heap
          exact (Outcome.map_map (BlockHeap.release block heap) (fun _ => none)
            (reply .primitive (.release block))).symm

/-- On every surface a request comes down to its call, or to none. -/
theorem comesDownTo_call? (surface : Surface) (request : Request)
    : ComesDownTo surface (surface.call? H request)
        (surface.serve request : H → Outcome H Reply) := by
  cases surface with
  | typed => exact comesDownTo_serveTyped request
  | plain => exact comesDownTo_servePlain (by simp) request
  | layout choice => exact comesDownTo_serveLayout choice request
  | primitive => exact comesDownTo_servePrimitive request
  | linked => exact comesDownTo_servePlain (by simp) request
  | reentrant context => exact comesDownTo_servePlain (by simp) request

/-- A request that reaches the heap is answered with what its call answers. -/
theorem serve_reached {surface : Surface} {request : Request} {call : Call}
    (reached : surface.call? H request = some call) (heap : H)
    : surface.serve request heap = (call.perform heap).map (surface.reply call) := by
  have served : ComesDownTo surface (surface.call? H request) (surface.serve request) :=
    comesDownTo_call? surface request
  rw [reached] at served
  exact served heap

/-- Any other request is answered without the heap. -/
theorem serve_unreached {surface : Surface} {request : Request}
    (unreached : surface.call? H request = none)
    : ∃ refusal : Reply,
        refusal.block? = none ∧ ∀ heap : H, surface.serve request heap = .answer refusal heap := by
  have served : ComesDownTo surface (surface.call? H request)
      (surface.serve request : H → Outcome H Reply) :=
    comesDownTo_call? surface request
  rw [unreached] at served
  exact served

end Serving

theorem block?_bridgeCall? {request : Request} {call : Call}
    (reached : Bridge.call? request = some call)
    : call.block? = request.block? := by
  cases request with
  | allocate size | allocateZeroed count size =>
      obtain ⟨_, ⟨⟩⟩ := Option.ite_none_left_eq_some.mp reached
      rfl
  | reallocate block size =>
      cases block with
      | none | some block =>
          obtain ⟨_, ⟨⟩⟩ := Option.ite_none_left_eq_some.mp reached
          rfl
  | release block =>
      obtain ⟨_, rfl, rfl⟩ := Option.map_eq_some_iff.mp reached
      rfl

/-- A call is about the block that its request is about. -/
theorem block?_call? {H : Type} [BlockHeap H] {surface : Surface} {request : Request} {call : Call}
    (reached : surface.call? H request = some call)
    : call.block? = request.block? := by
  cases surface with
  | typed | plain | linked | reentrant _ => exact block?_bridgeCall? reached
  | layout choice =>
      obtain ⟨made, layoutReached, bridgeReached⟩ := Option.bind_eq_some_iff.mp reached
      rw [block?_bridgeCall? bridgeReached]
      rw [layoutRequest?_eq] at layoutReached
      split at layoutReached
      · cases layoutReached
      · obtain ⟨_, ⟨⟩⟩ := Option.ite_none_left_eq_some.mp layoutReached
        exact Request.block?_sizedBy ..
  | primitive =>
      cases request with
      | allocate size | allocateZeroed count size =>
          cases reached
          rfl
      | reallocate block size | release block =>
          obtain ⟨_, rfl, rfl⟩ := Option.map_eq_some_iff.mp reached
          rfl

end Surface

end Firmware
