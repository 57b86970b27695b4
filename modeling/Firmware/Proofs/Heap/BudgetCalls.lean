import Firmware.Heap.Budget
import Firmware.Proofs.Heap.Calls
import Mathlib.Logic.Function.Basic

/-! What each call can do to a budget heap.
The result of a call and the heap that it leaves are one of a few effects
(`BudgetHeap.effect_perform`), each with the answer of the host that it follows from. What an effect
does to the recorded sizes is the update of one or two entries (`BudgetHeap.sizeOf?_track`,
`BudgetHeap.sizeOf?_untrack`).
-/

namespace Firmware

/-- Whether the block that a call draws from the host is to be zeroed, and its size. -/
def Call.draws? : Call → Option (Bool × Nat)
  | .allocate size => some (false, size)
  | .allocateZeroed size => some (true, size)
  | .reallocate _ _ | .release _ => none

theorem Call.size?_of_draws? {call : Call} {zeroed : Bool} {size : Nat}
    (draws : call.draws? = some (zeroed, size))
    : call.size? = some size := by
  cases call <;> cases draws <;> rfl

theorem Call.block?_of_draws? {call : Call} {zeroed : Bool} {size : Nat}
    (draws : call.draws? = some (zeroed, size))
    : call.block? = none := by
  cases call <;> cases draws <;> rfl

namespace BudgetHeap

variable {S : Type}

--------------------------------------------------------------------------------
-- Recorded sizes
--------------------------------------------------------------------------------

theorem mem_without {live : List (Nat × Nat)} {block : Nat} {entry : Nat × Nat}
    : entry ∈ without live block ↔ entry ∈ live ∧ entry.1 ≠ block := by
  simp [without]

theorem lookup_without_self (live : List (Nat × Nat)) (block : Nat)
    : (without live block).lookup block = none := by
  apply List.lookup_eq_none_iff.mpr
  intro entry member
  have different := (mem_without.mp member).2
  exact bne_iff_ne.mpr different.symm

theorem lookup_without_of_ne (live : List (Nat × Nat)) {block address : Nat}
    (different : address ≠ block)
    : (without live block).lookup address = live.lookup address := by
  induction live with
  | nil => rfl
  | cons entry rest ih =>
      obtain ⟨first, size⟩ := entry
      by_cases dropped : first = block
      · have shorter : without ((first, size) :: rest) block = without rest block := by
          simp [without, dropped]
        have passed : (address == first) = false := by simpa [dropped] using different
        rw [shorter, ih, List.lookup_cons, passed]
      · have kept : without ((first, size) :: rest) block
            = (first, size) :: without rest block := by
          simp [without, dropped]
        rw [kept, List.lookup_cons, List.lookup_cons, ih]

theorem sizeOf?_untrack (heap : BudgetHeap S) (block size : Nat)
    : (heap.untrack block size).sizeOf? = Function.update heap.sizeOf? block none := by
  funext address
  by_cases same : address = block
  · subst address
    rw [Function.update_self]
    exact lookup_without_self heap.live block
  · rw [Function.update_of_ne same]
    exact lookup_without_of_ne heap.live same

theorem sizeOf?_track (heap : BudgetHeap S) (block size : Nat)
    : (heap.track block size).sizeOf? = Function.update heap.sizeOf? block (some size) := by
  funext address
  by_cases same : address = block
  · subst address
    rw [Function.update_self]
    exact List.lookup_cons_self
  · have passed : (address == block) = false := beq_false_of_ne same
    rw [Function.update_of_ne same, sizeOf?, track, List.lookup_cons, passed]
    exact lookup_without_of_ne heap.live same

theorem sizeOf?_untrack_apply (heap : BudgetHeap S) (block size address : Nat)
    : (heap.untrack block size).sizeOf? address
      = if block = address then none else heap.sizeOf? address := by
  rw [sizeOf?_untrack, Function.update_apply]
  simp only [eq_comm]

theorem sizeOf?_track_apply (heap : BudgetHeap S) (block size address : Nat)
    : (heap.track block size).sizeOf? address
      = if block = address then some size else heap.sizeOf? address := by
  rw [sizeOf?_track, Function.update_apply]
  simp only [eq_comm]

--------------------------------------------------------------------------------
-- Effects
--------------------------------------------------------------------------------

section Effects

variable [HostAllocator S]

/-- The outcomes that a call can have. -/
inductive Effect (heap : BudgetHeap S) : Call → Outcome (BudgetHeap S) (Option Nat) → Prop where
  /-- The budget is exceeded, or there is nothing to resize. The host is not asked. -/
  | refused {call} (asks : call.size?.isSome) : Effect heap call (.answer none heap.counted)
  /-- No block can be as large as the one that is drawn, although the budget has room for it. -/
  | drawStopped {call zeroed size} (draws : call.draws? = some (zeroed, size))
    (fits : heap.Fits size) (impossible : ¬ HasLayout size)
    : Effect heap call (.stop .invalidLayout heap.counted)
  | drawRefused {call zeroed size host} (draws : call.draws? = some (zeroed, size))
    (asked : HostAllocator.allocate (hostSize size) zeroed heap.host = (none, host))
    : Effect heap call (.answer none { heap.counted with host })
  | drawn {call zeroed size block host} (draws : call.draws? = some (zeroed, size))
    (fits : heap.Fits size) (possible : HasLayout size)
    (asked : HostAllocator.allocate (hostSize size) zeroed heap.host = (some block, host))
    : Effect heap call (.answer (some block) ({ heap.counted with host }.track block size))
  /-- No block can be as large as the old one is recorded to be. -/
  | resizeStopped {block size old} (live : heap.sizeOf? block = some old)
    (impossible : ¬ HasLayout old)
    : Effect heap (.reallocate block size) (.stop .invalidLayout heap.counted)
  | resizeRefused {block size old host} (live : heap.sizeOf? block = some old)
    (asked : HostAllocator.resize block (hostSize old) (hostSize size) heap.host = (none, host))
    : Effect heap (.reallocate block size) (.answer none { heap.counted with host })
  | resized {block size old moved host} (live : heap.sizeOf? block = some old)
    (fits : old < size → heap.Fits (size - old)) (possible : HasLayout old)
    (asked
      : HostAllocator.resize block (hostSize old) (hostSize size) heap.host = (some moved, host))
    : Effect heap (.reallocate block size)
        (.answer (some moved)
          (({ heap.counted with host }.untrack block old).track moved size))
  | unknown {block} (dead : heap.sizeOf? block = none)
    : Effect heap (.release block)
        (.answer none { heap.counted with refused := heap.refused + 1 })
  /-- The block is forgotten before it shows that there is no layout to release it with. -/
  | releaseStopped {block size} (live : heap.sizeOf? block = some size)
    (impossible : ¬ HasLayout size)
    : Effect heap (.release block) (.stop .invalidLayout (heap.counted.untrack block size))
  | released {block size} (live : heap.sizeOf? block = some size) (possible : HasLayout size)
    : Effect heap (.release block)
        (.answer none {
          heap.counted.untrack block size with
          host := HostAllocator.release block (hostSize size) heap.host
        })

theorem effect_take (heap : BudgetHeap S) {call : Call} {zeroed : Bool} {size : Nat}
    (draws : call.draws? = some (zeroed, size)) (asks : call.size?.isSome)
    : heap.Effect call (take zeroed size heap) := by
  by_cases fits : heap.counted.Fits size
  · by_cases possible : HasLayout size
    · simp only [take, fits, possible, not_true_eq_false, if_false]
      rcases asked : HostAllocator.allocate (hostSize size) zeroed heap.counted.host with
        ⟨_ | block, host⟩
      · exact .drawRefused draws asked
      · exact .drawn draws fits possible asked
    · simp only [take, fits, possible, not_true_eq_false, not_false_eq_true, if_false, if_true]
      exact .drawStopped draws fits possible
  · simp only [take, fits, not_false_eq_true, if_true]
    exact .refused asks

theorem effect_reallocate (heap : BudgetHeap S) (block size : Nat)
    : heap.Effect (.reallocate block size) (reallocate block size heap) := by
  rw [reallocate]
  cases live : heap.counted.sizeOf? block with
  | none => exact .refused rfl
  | some old =>
      by_cases exceeds : old < size ∧ ¬ heap.counted.Fits (size - old)
      · simp only [exceeds, not_false_eq_true, and_self, if_true]
        exact .refused rfl
      · have fits : old < size → heap.Fits (size - old) := fun grows =>
          not_not.mp (not_and.mp exceeds grows)
        simp only [exceeds, if_false]
        by_cases possible : HasLayout old
        · simp only [possible, not_true_eq_false, if_false]
          rcases asked : HostAllocator.resize block (hostSize old) (hostSize size)
            heap.counted.host with ⟨_ | moved, host⟩
          · exact .resizeRefused live asked
          · exact .resized live fits possible asked
        · simp only [possible, not_false_eq_true, if_true]
          exact .resizeStopped live possible

theorem effect_release (heap : BudgetHeap S) (block : Nat)
    : heap.Effect (.release block) ((release block heap).map fun _ => none) := by
  rw [release]
  cases live : heap.counted.sizeOf? block with
  | none => exact .unknown live
  | some size =>
      by_cases possible : HasLayout size
      · simp only [possible, not_true_eq_false, if_false]
        exact .released live possible
      · simp only [possible, not_false_eq_true, if_true]
        exact .releaseStopped live possible

/-- Every call has one of the effects. -/
theorem effect_perform (call : Call) (heap : BudgetHeap S)
    : heap.Effect call (call.perform heap) := by
  cases call with
  | allocate size => exact heap.effect_take rfl rfl
  | allocateZeroed size => exact heap.effect_take rfl rfl
  | reallocate block size => exact heap.effect_reallocate block size
  | release block => exact heap.effect_release block

end Effects

end BudgetHeap

end Firmware
