import Firmware.Proofs.Heap.Calls

/-! Requests without their addresses.
What a surface makes of a request depends on whether it names a block and not on where the block is:
the call it comes down to (`Surface.call?_erase`), and the answer if there is no call
(`Surface.serve_eq_refusal`). So two heaps with the same alignment are asked alike, wherever their
blocks are.
-/

namespace Firmware

/-- The request with every block at address zero. -/
def Request.erase : Request → Request
  | .allocate size => .allocate size
  | .allocateZeroed count size => .allocateZeroed count size
  | .reallocate block size => .reallocate (block.map fun _ => 0) size
  | .release block => .release (block.map fun _ => 0)

/-- The call with every block at address zero. -/
def Call.erase : Call → Call
  | .allocate size => .allocate size
  | .allocateZeroed size => .allocateZeroed size
  | .reallocate _ size => .reallocate 0 size
  | .release _ => .release 0

theorem Call.size?_erase (call : Call) : call.erase.size? = call.size? := by
  cases call <;> rfl

theorem Bridge.call?_erase (request : Request)
    : Bridge.call? request.erase = (Bridge.call? request).map Call.erase := by
  cases request with
  | allocate size =>
      by_cases zero : size = 0 <;> simp [Request.erase, call?, zero, Call.erase]
  | allocateZeroed count size =>
      by_cases kept : addressSpace ≤ count * size ∨ count * size = 0
      · simp only [Request.erase, call?, if_pos kept, Option.map_none]
      · simp only [Request.erase, call?, if_neg kept, Option.map_some, Call.erase]
  | reallocate block size =>
      cases block <;> by_cases zero : size = 0 <;>
        simp [Request.erase, call?, zero, Call.erase]
  | release block => cases block <;> rfl

/-- The answer to a typed request that does not reach the heap. -/
def Bridge.refusal : Request → Reply
  | .allocate _ | .reallocate _ _ => .refused .zeroSize
  | .allocateZeroed count size =>
      if addressSpace ≤ count * size then .refused .sizeOverflow else .refused .zeroSize
  | .release _ => .done

namespace Surface

/-- The answer to a request that does not reach the heap. -/
def refusal (surface : Surface) (request : Request) : Reply :=
  match surface with
  | .typed => Bridge.refusal request
  | .plain | .linked | .reentrant _ => forget (Bridge.refusal request)
  | .layout choice =>
      if (choice.layout? request.layoutSize).isNone then .noLayout
      else forget (Bridge.refusal request)
  | .primitive => .skipped

/-- Without the reasons, a request for a block is answered with null. -/
theorem forget_refusal (request : Request)
    : forget (Bridge.refusal request) = if request.Aligns then .handle none else .done := by
  cases request with
  | allocateZeroed count size =>
      rw [Bridge.refusal]
      split <;> rfl
  | allocate _ | reallocate _ _ | release _ => rfl

theorem refusal_erase (surface : Surface) (request : Request)
    : surface.refusal request.erase = surface.refusal request := by
  cases request <;> cases surface <;> rfl

theorem reply_erase (surface : Surface) (call : Call) (answer : Option Nat)
    : surface.reply call.erase answer = surface.reply call answer := by
  cases call <;> cases surface <;> cases answer <;> rfl

theorem block?_refusal (surface : Surface) (request : Request)
    : (surface.refusal request).block? = none := by
  have untyped : (forget (Bridge.refusal request)).block? = none := by
    rw [forget_refusal]
    split <;> rfl
  cases surface with
  | typed =>
      cases request with
      | allocateZeroed count size =>
          simp only [refusal, Bridge.refusal]
          split <;> rfl
      | allocate _ | reallocate _ _ | release _ => rfl
  | plain | linked | reentrant _ => exact untyped
  | layout choice =>
      simp only [refusal]
      split
      · rfl
      · exact untyped
  | primitive => rfl

/-- A block that is asked for is handed out as it is. -/
theorem reply_some (surface : Surface) {call : Call} (asks : call.size?.isSome) (block : Nat)
    : surface.reply call (some block) = .handle (some block) := by
  cases call <;> cases surface <;> first | rfl | cases asks

section Serving

variable {H : Type} [BlockHeap H]

theorem serveTyped_unreached {request : Request} (unreached : Bridge.call? request = none)
    (heap : H)
    : serveTyped request heap = .answer (Bridge.refusal request) heap := by
  cases request with
  | allocate size =>
      have zero : size = 0 := by simpa [Bridge.call?] using unreached
      rw [serveTyped, Bridge.tryAllocate, if_pos zero]
      rfl
  | allocateZeroed count size =>
      rw [serveTyped, Bridge.tryAllocateZeroed]
      by_cases overflows : addressSpace ≤ count * size
      · rw [Bridge.refusal, if_pos overflows, if_pos overflows]
        rfl
      · have zero : count * size = 0 := by
          by_cases zero : count * size = 0
          · exact zero
          · rw [Bridge.call?, if_neg (not_or.mpr ⟨overflows, zero⟩)] at unreached
            cases unreached
        rw [Bridge.refusal, if_neg overflows, if_neg overflows, if_pos zero]
        rfl
  | reallocate block size =>
      have zero : size = 0 := by cases block <;> simpa [Bridge.call?] using unreached
      cases block with
      | none =>
          rw [serveTyped, Bridge.tryReallocate, Bridge.tryAllocate, if_pos zero]
          rfl
      | some block =>
          rw [serveTyped, Bridge.tryReallocate, if_pos zero]
          rfl
  | release block =>
      cases block with
      | none => rfl
      | some block => cases unreached

theorem servePlain_unreached {request : Request} (unreached : Bridge.call? request = none)
    (heap : H)
    : servePlain request heap = .answer (forget (Bridge.refusal request)) heap := by
  rw [servePlain_eq, serveTyped_unreached unreached]
  rfl

theorem serveLayout_unreached {choice : LayoutChoice} {request : Request}
    (unreached : (layoutRequest? H choice request).bind Bridge.call? = none) (heap : H)
    : serveLayout choice request heap = .answer (refusal (.layout choice) request) heap := by
  rw [serveLayout_eq, refusal]
  rw [layoutRequest?_eq] at unreached
  cases found : choice.layout? request.layoutSize with
  | none => rfl
  | some chosen =>
      simp only [found] at unreached ⊢
      by_cases beyond : request.Aligns ∧ BlockHeap.alignment H < chosen.alignment
      · rw [if_pos beyond, forget_refusal, if_pos beyond.1]
        rfl
      · rw [if_neg beyond] at unreached ⊢
        have sized : forget (Bridge.refusal (request.sizedBy chosen))
            = forget (Bridge.refusal request) := by
          rw [forget_refusal, forget_refusal]
          cases request <;> rfl
        rw [servePlain_unreached unreached, sized]
        rfl

/-- A request that does not reach the heap is answered with the surface's refusal. -/
theorem serve_eq_refusal {surface : Surface} {request : Request}
    (unreached : surface.call? H request = none) (heap : H)
    : surface.serve request heap = .answer (surface.refusal request) heap := by
  cases surface with
  | typed => exact serveTyped_unreached unreached heap
  | plain | linked | reentrant _ => exact servePlain_unreached unreached heap
  | layout choice => exact serveLayout_unreached unreached heap
  | primitive =>
      cases request with
      | allocate size | allocateZeroed count size => cases unreached
      | reallocate block size | release block =>
          cases block with
          | none => rfl
          | some block => cases unreached

end Serving

section Erasing

variable {H K : Type} [BlockHeap H] [BlockHeap K]

theorem layoutRequest?_erase (aligned : BlockHeap.alignment H = BlockHeap.alignment K)
    (choice : LayoutChoice) (request : Request)
    : layoutRequest? K choice request.erase
      = (layoutRequest? H choice request).map Request.erase := by
  rw [layoutRequest?_eq, layoutRequest?_eq, aligned]
  have size : request.erase.layoutSize = request.layoutSize := by cases request <;> rfl
  have aligns : request.erase.Aligns ↔ request.Aligns := by cases request <;> rfl
  rw [size]
  cases choice.layout? request.layoutSize with
  | none => rfl
  | some chosen =>
      have sized : request.erase.sizedBy chosen = (request.sizedBy chosen).erase := by
        cases request <;> rfl
      simp only [aligns, sized, apply_ite (Option.map Request.erase), Option.map_none,
        Option.map_some]

/-- Heaps with the same alignment are asked alike, wherever their blocks are. -/
theorem call?_erase (aligned : BlockHeap.alignment H = BlockHeap.alignment K) (surface : Surface)
    (request : Request)
    : surface.call? K request.erase = (surface.call? H request).map Call.erase := by
  cases surface with
  | typed | plain | linked | reentrant _ => exact Bridge.call?_erase request
  | layout choice =>
      simp only [call?, layoutRequest?_erase aligned]
      cases layoutRequest? H choice request with
      | none => rfl
      | some made => exact Bridge.call?_erase made
  | primitive =>
      cases request with
      | allocate size | allocateZeroed count size => rfl
      | reallocate block size | release block => cases block <;> rfl

end Erasing

/-- What kind of call a request comes down to. -/
inductive Makes : Request → Call → Prop where
  | allocate {asked size} : Makes (.allocate asked) (.allocate size)
  | allocateZeroed {count asked size} : Makes (.allocateZeroed count asked) (.allocateZeroed size)
  | reallocateNull {asked size} : Makes (.reallocate none asked) (.allocate size)
  | reallocate {block asked size} : Makes (.reallocate (some block) asked) (.reallocate block size)
  | release {block} : Makes (.release (some block)) (.release block)

theorem Makes.asks {request : Request} {call : Call} (makes : Makes request call)
    (aligns : request.Aligns)
    : call.size?.isSome := by
  cases makes with
  | release => exact aligns.elim
  | allocate | allocateZeroed | reallocateNull | reallocate => rfl

theorem makes_of_bridgeCall? {request : Request} {call : Call}
    (reached : Bridge.call? request = some call)
    : Makes request call := by
  cases request with
  | allocate size =>
      obtain ⟨_, ⟨⟩⟩ := Option.ite_none_left_eq_some.mp reached
      exact .allocate
  | allocateZeroed count size =>
      obtain ⟨_, ⟨⟩⟩ := Option.ite_none_left_eq_some.mp reached
      exact .allocateZeroed
  | reallocate block size =>
      cases block with
      | none =>
          obtain ⟨_, ⟨⟩⟩ := Option.ite_none_left_eq_some.mp reached
          exact .reallocateNull
      | some block =>
          obtain ⟨_, ⟨⟩⟩ := Option.ite_none_left_eq_some.mp reached
          exact .reallocate
  | release block =>
      obtain ⟨block, rfl, rfl⟩ := Option.map_eq_some_iff.mp reached
      exact .release

theorem makes_of_call? {H : Type} [BlockHeap H] {surface : Surface} {request : Request}
    {call : Call} (reached : surface.call? H request = some call)
    : Makes request call := by
  cases surface with
  | typed | plain | linked | reentrant _ => exact makes_of_bridgeCall? reached
  | layout choice =>
      obtain ⟨made, layoutReached, bridgeReached⟩ := Option.bind_eq_some_iff.mp reached
      have makes := makes_of_bridgeCall? bridgeReached
      rw [layoutRequest?_eq] at layoutReached
      split at layoutReached
      · cases layoutReached
      · obtain ⟨_, ⟨⟩⟩ := Option.ite_none_left_eq_some.mp layoutReached
        cases request with
        | allocate size =>
            cases makes
            exact .allocate
        | allocateZeroed count size =>
            cases makes
            exact .allocateZeroed
        | reallocate block size | release block => cases makes <;> constructor
  | primitive =>
      cases request with
      | allocate size | allocateZeroed count size =>
          cases reached
          constructor
      | reallocate block size | release block =>
          obtain ⟨_, rfl, rfl⟩ := Option.map_eq_some_iff.mp reached
          constructor

end Surface

end Firmware
