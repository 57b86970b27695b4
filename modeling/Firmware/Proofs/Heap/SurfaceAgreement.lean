import Firmware.Heap.Budget
import Firmware.Heap.Region
import Firmware.Proofs.Heap.HeapViews

/-! Every surface of the bridge drives the heap behind it in the same way.
Whatever surface carries a request, the heap is left the same and the answer is the same handle, so
a client that chooses its requests by the handles it got cannot tell the surfaces apart. Behind a
request stands one call with the arguments of the request, or none: a heap that writes its calls
down shows it. The main statement collects this for the heaps of the library
(`Surface.interchangeable_heaps`).
-/

namespace Firmware

--------------------------------------------------------------------------------
-- Requests on a surface, compared with typed requests
--------------------------------------------------------------------------------

namespace Request

/-- The bridge answers the request itself: nothing is asked for, the product does not fit the
address space, or there is no block to give back.
-/
def KeptBack : Request → Prop
  | .allocate size | .reallocate _ size => size = 0
  | .allocateZeroed count size => count * size = 0 ∨ addressSpace ≤ count * size
  | .release block => block = none

/-- The call is the request, with its own arguments. Zeroed blocks are asked for by their exact
size, and the null handle is resized by asking for a block.
-/
inductive Forwards : Request → Call → Prop where
  | allocate (size : Nat) : Forwards (.allocate size) (.allocate size)
  | allocateZeroed (count size : Nat)
    : Forwards (.allocateZeroed count size) (.allocateZeroed (count * size))
  | reallocateNull (size : Nat) : Forwards (.reallocate none size) (.allocate size)
  | reallocate (block size : Nat)
    : Forwards (.reallocate (some block) size) (.reallocate block size)
  | release (block : Nat) : Forwards (.release (some block)) (.release block)

end Request

theorem Bridge.forwards_of_call? {request : Request} {call : Call}
    (reached : Bridge.call? request = some call)
    : request.Forwards call := by
  cases request with
  | allocate size =>
      obtain ⟨_, ⟨⟩⟩ := Option.ite_none_left_eq_some.mp reached
      exact .allocate size
  | allocateZeroed count size =>
      obtain ⟨_, ⟨⟩⟩ := Option.ite_none_left_eq_some.mp reached
      exact .allocateZeroed count size
  | reallocate block size =>
      cases block with
      | none =>
          obtain ⟨_, ⟨⟩⟩ := Option.ite_none_left_eq_some.mp reached
          exact .reallocateNull size
      | some block =>
          obtain ⟨_, ⟨⟩⟩ := Option.ite_none_left_eq_some.mp reached
          exact .reallocate block size
  | release block =>
      obtain ⟨block, rfl, rfl⟩ := Option.map_eq_some_iff.mp reached
      exact .release block

theorem Bridge.call?_eq_none_iff {request : Request}
    : Bridge.call? request = none ↔ request.KeptBack := by
  cases request with
  | allocate size => simp [call?, Request.KeptBack]
  | allocateZeroed count size =>
      by_cases kept : addressSpace ≤ count * size ∨ count * size = 0
      · simp only [call?, Request.KeptBack, if_pos kept, true_iff]
        exact kept.symm
      · simp only [call?, Request.KeptBack, if_neg kept, reduceCtorEq, false_iff]
        exact fun other => kept other.symm
  | reallocate block size => cases block <;> simp [call?, Request.KeptBack]
  | release block => simp [call?, Request.KeptBack]

namespace Surface

/-- The surface can put the request to a heap of type `H`. A layout has to exist, to ask for no
more alignment than the heap guarantees, and to have the size that is asked for, of one element;
on a resize or a release its size does not matter, and on a release nothing does.
-/
def Carries (H : Type) [BlockHeap H] (surface : Surface) (request : Request) : Prop :=
  match surface with
  | .typed | .plain | .linked | .reentrant _ => True
  | .layout choice =>
      ∃ layout,
        choice.layout? request.layoutSize = some layout
        ∧ (request.Aligns → layout.alignment ≤ BlockHeap.alignment H)
        ∧ request.sizedBy layout = request
  | .primitive => False

section Serving

variable {H : Type} [BlockHeap H]

/-- Every layout within the alignment of the heap carries each request of its size; a release is
carried by every layout.
-/
theorem carries_layout {layout : Layout} {request : Request}
    (within : request.Aligns → layout.alignment ≤ BlockHeap.alignment H)
    : (Surface.layout ⟨layout.alignment, some layout.size⟩).Carries H (request.sizedBy layout) := by
  have possible : layout.alignment.isPowerOfTwo ∧ layout.size + layout.alignment ≤ largestExtent :=
    ⟨layout.powerOfTwo, layout.size_le⟩
  refine ⟨layout, dif_pos possible, ?_, ?_⟩
  · intro aligns
    cases request <;> exact within aligns
  · cases request <;> rfl

/-- A request that is carried is served as on the typed surface, but for the reason of a refusal.
-/
theorem serve_carried {surface : Surface} {request : Request} (carried : surface.Carries H request)
    (untyped : surface ≠ .typed) (heap : H)
    : surface.serve request heap = (Surface.typed.serve request heap).map forget := by
  cases surface with
  | typed => exact absurd rfl untyped
  | plain | linked | reentrant _ => exact servePlain_eq request heap
  | layout choice =>
      obtain ⟨chosen, found, within, sameSize⟩ := carried
      have aligned : ¬ (request.Aligns ∧ BlockHeap.alignment H < chosen.alignment) :=
        fun beyond => Nat.not_lt.mpr (within beyond.1) beyond.2
      have plain : serveLayout choice request heap = servePlain request heap := by
        simp only [serveLayout_eq, found, if_neg aligned, sameSize]
      exact plain.trans (servePlain_eq request heap)
  | primitive => exact carried.elim

/-- A layout that asks for too much alignment is refused without the heap, and does not keep a
block from being released.
-/
theorem serve_overaligned {choice : LayoutChoice} {request : Request} {chosen : Layout}
    (found : choice.layout? request.layoutSize = some chosen)
    (beyond : BlockHeap.alignment H < chosen.alignment) (heap : H)
    : (Surface.layout choice).serve request heap
      = if request.Aligns then .answer (.handle none) heap
        else Surface.typed.serve request heap := by
  have served := serveLayout_eq choice request heap
  simp only [found, beyond, and_true] at served
  refine served.trans ?_
  cases request <;> rfl

/-- A request that is carried reaches the heap as the call that the bridge makes for it. -/
theorem call?_carried {surface : Surface} {request : Request} (carried : surface.Carries H request)
    : surface.call? H request = Bridge.call? request := by
  cases surface with
  | typed | plain | linked | reentrant _ => rfl
  | layout choice =>
      obtain ⟨chosen, found, within, sameSize⟩ := carried
      have aligned : ¬ (request.Aligns ∧ BlockHeap.alignment H < chosen.alignment) :=
        fun beyond => Nat.not_lt.mpr (within beyond.1) beyond.2
      simp only [call?, layoutRequest?_eq, found, if_neg aligned, sameSize, Option.bind_some]
  | primitive => exact carried.elim

/-- So does a release with a layout that asks for too much alignment, and no other request with such
a layout reaches it.
-/
theorem call?_overaligned {choice : LayoutChoice} {request : Request} {chosen : Layout}
    (found : choice.layout? request.layoutSize = some chosen)
    (beyond : BlockHeap.alignment H < chosen.alignment)
    : (Surface.layout choice).call? H request
      = if request.Aligns then none else Bridge.call? request := by
  simp only [call?, layoutRequest?_eq, found, beyond, and_true]
  cases request <;> rfl

theorem block?_forget (reply : Reply) : (forget reply).block? = reply.block? := by
  cases reply <;> rfl

/-- Typed requests are never answered with the null handle. -/
theorem forget_eq_null_iff {request : Request} {heap : H} {reply : Reply}
    (answered : (Surface.typed.serve request heap).result = .ok reply)
    : forget reply = .handle none ↔ ∃ cause, reply = .refused cause := by
  have typed (outcome : Outcome H (Except Refusal Nat))
      (same : (outcome.map Reply.ofTyped).result = .ok reply)
      : forget reply = .handle none ↔ ∃ cause, reply = .refused cause := by
    rcases outcome with ⟨fault | (cause | block), heap⟩
    · cases same
    · cases same
      exact ⟨fun _ => ⟨cause, rfl⟩, fun _ => rfl⟩
    · cases same
      simp [forget, Reply.ofTyped]
  cases request with
  | allocate size => exact typed (Bridge.tryAllocate size heap) answered
  | allocateZeroed count size => exact typed (Bridge.tryAllocateZeroed count size heap) answered
  | reallocate block size => exact typed (Bridge.tryReallocate block size heap) answered
  | release block =>
      have done : reply = .done := by
        change ((Bridge.release block heap).map fun _ => Reply.done).result = .ok reply at answered
        revert answered
        rcases Bridge.release block heap with ⟨fault | _, after⟩
        · intro impossible
          cases impossible
        · rintro ⟨⟩
          rfl
      simp [done, forget]

end Serving

end Surface

--------------------------------------------------------------------------------
-- Clients that can choose between surfaces
--------------------------------------------------------------------------------

namespace Surface

section Clients

variable {H : Type} [BlockHeap H]

/-- What a client gets to see of its requests, with the heap that each of them leaves. It chooses a
request by the handles that it was answered with before, and each request is put on the surface
that its route says. A fault is the end.
-/
def serveClient (client : List (Option Nat) → Request) (answers : List (Option Nat))
    (routes : List (Request → Surface)) (heap : H)
    : List (Outcome H (Option Nat)) :=
  match routes with
  | [] => []
  | route :: rest =>
      let request := client answers
      let outcome := ((route request).serve request heap).map Reply.block?
      outcome :: match outcome.result with
        | .error _ => []
        | .ok answer => serveClient client (answers ++ [answer]) rest outcome.heap

/-- A request that is carried is answered with the same handle on every surface, and leaves the same
heap.
-/
theorem map_block?_serve {surface : Surface} {request : Request}
    (carried : surface.Carries H request) (heap : H)
    : (surface.serve request heap).map Reply.block?
      = (Surface.typed.serve request heap).map Reply.block? := by
  by_cases typed : surface = .typed
  · rw [typed]
  · rw [serve_carried carried typed, Outcome.map_map]
    simp only [block?_forget]

/-- A client cannot tell two lists of routes apart, by induction on the routes. -/
theorem serveClient_eq {client : List (Option Nat) → Request} {answers : List (Option Nat)}
    {left right : List (Request → Surface)} (sameLength : left.length = right.length)
    (leftCarries : ∀ route ∈ left, ∀ request, (route request).Carries H request)
    (rightCarries : ∀ route ∈ right, ∀ request, (route request).Carries H request) (heap : H)
    : serveClient client answers left heap = serveClient client answers right heap := by
  induction left generalizing answers right heap with
  | nil =>
      cases right with
      | nil => rfl
      | cons _ _ => cases sameLength
  | cons leftRoute leftRest ih =>
      cases right with
      | nil => cases sameLength
      | cons rightRoute rightRest =>
          obtain ⟨leftCarried, leftRestCarries⟩ := List.forall_mem_cons.mp leftCarries
          obtain ⟨rightCarried, rightRestCarries⟩ := List.forall_mem_cons.mp rightCarries
          have sameOutcome := (map_block?_serve (leftCarried (client answers)) heap).trans
            (map_block?_serve (rightCarried (client answers)) heap).symm
          simp only [serveClient, sameOutcome]
          congr 1
          split
          · rfl
          · exact ih (Nat.succ.inj sameLength) leftRestCarries rightRestCarries _

end Clients

/-- What the surfaces of a heap have in common. -/
structure Interchangeable (H : Type) [BlockHeap H] : Prop where
  /-- Whatever a client asks for, it gets the same handles on all surfaces that carry its requests,
  and every request leaves the same heap.
  -/
  sameRuns
    : ∀ client (left right : List (Request → Surface)) (heap : H),
        left.length = right.length →
        (∀ route ∈ left ++ right, ∀ request, (route request).Carries H request) →
        serveClient client [] left heap = serveClient client [] right heap
  /-- Layouts of up to eight bytes of alignment carry every request of their size, and all layouts
  carry releases.
  -/
  layouts
    : ∀ (layout : Layout) (request : Request),
        layout.alignment ≤ 8 ∨ ¬ request.Aligns →
        (Surface.layout ⟨layout.alignment, some layout.size⟩).Carries H (request.sizedBy layout)
  /-- The null handle stands for the refusals of typed requests, and for nothing else. -/
  null
    : ∀ (surface : Surface) (request : Request) (heap : H),
        surface.Carries H request →
        surface ≠ .typed →
        ((surface.serve request heap).result = .ok (.handle none)
          ↔ ∃ cause, (Surface.typed.serve request heap).result = .ok (.refused cause))
  /-- Layouts that ask for more than eight bytes of alignment are refused without the heap; only
  blocks are still released.
  -/
  overaligned
    : ∀ (choice : LayoutChoice) (request : Request) (chosen : Layout) (heap : H),
        choice.layout? request.layoutSize = some chosen →
        8 < chosen.alignment →
        (Surface.layout choice).serve request heap
          = (if request.Aligns then .answer (.handle none) heap
            else Surface.typed.serve request heap)
        ∧ (Surface.layout choice).call? H request
          = if request.Aligns then none else Bridge.call? request
  /-- A request reaches the heap as one call at most. -/
  oneCall
    : ∀ (surface : Surface) (request : Request) (recorded : Recorded H),
        surface.serve request recorded
          = (surface.serve request recorded.heap).mapHeap fun heap =>
              ⟨heap, recorded.calls ++ (surface.call? H request).toList⟩
  /-- Unless the bridge keeps it back, this is the call for the request itself. -/
  sameCall
    : ∀ (surface : Surface) (request : Request),
        surface.Carries H request →
        (surface.call? H request = none ↔ request.KeptBack)
        ∧ ∀ call, surface.call? H request = some call → request.Forwards call

/-- The null handle answers a carried request exactly where the typed request is refused. -/
theorem serve_eq_null_iff {H : Type} [BlockHeap H] {surface : Surface} {request : Request}
    (carried : surface.Carries H request) (untyped : surface ≠ .typed) (heap : H)
    : (surface.serve request heap).result = .ok (.handle none)
      ↔ ∃ cause, (Surface.typed.serve request heap).result = .ok (.refused cause) := by
  rw [serve_carried carried untyped]
  cases answered : (Surface.typed.serve request heap).result with
  | error fault => simp [answered, Except.map]
  | ok reply =>
      have null := forget_eq_null_iff answered
      simpa [answered, Except.map] using null

theorem interchangeable {H : Type} [BlockHeap H] (aligned : BlockHeap.alignment H = 8)
    : Interchangeable H where
  sameRuns _ _ _ heap sameLength carries :=
    have ⟨leftCarries, rightCarries⟩ := List.forall_mem_append.mp carries
    serveClient_eq sameLength leftCarries rightCarries heap
  layouts layout request within :=
    carries_layout fun aligns => aligned.symm ▸ within.resolve_right (not_not_intro aligns)
  null _ _ heap carried untyped := serve_eq_null_iff carried untyped heap
  overaligned _ _ _ heap found beyond :=
    have beyond := aligned.symm ▸ beyond
    ⟨serve_overaligned found beyond heap, call?_overaligned found beyond⟩
  oneCall := Recorded.serve_eq
  sameCall _ _ carried := by
    rw [call?_carried carried]
    exact ⟨Bridge.call?_eq_none_iff, fun _ => Bridge.forwards_of_call?⟩

/-- The surfaces of the region heap, of the budget heap over any host, and of a budget heap on loan
are interchangeable; and what is asked of a heap on loan is asked of its owner.
-/
theorem interchangeable_heaps (S : Type) [HostAllocator S]
    : Interchangeable Region
      ∧ Interchangeable (BudgetHeap S)
      ∧ Interchangeable (Lent (BudgetHeap S))
      ∧ ∀ (surface : Surface) (request : Request) (lent : Lent (BudgetHeap S)),
          surface.serve request lent = (surface.serve request lent.owner).mapHeap Lent.mk := by
  refine ⟨interchangeable rfl, interchangeable rfl, interchangeable rfl, ?_⟩
  intro surface request lent
  rw [← (Lent.heapView (BudgetHeap S)).serve]
  rfl

end Surface

end Firmware
