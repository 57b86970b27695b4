import Firmware.Heap.Region
import Firmware.Proofs.Heap.Calls

/-! The primitives of the region heap, one step at a time.
Between two steps of a call an interrupt may run other calls. A stage is what a call remembers in
the meantime, and `Stage.next` is its next step: a header is inspected, wiped or written, an extent
is taken from the pool or given back, or bytes are cleared or copied. A call whose steps follow each
other undisturbed is the primitive itself (`Stage.steps_entry`).
-/

namespace Firmware

/-- Where a call stands. -/
inductive Stage where
  /-- Nothing was done yet. Taking an extent is the first step of a call for a fresh block, and
  inspecting the header that of a call about a block.
  -/
  | entry (call : Call)
  /-- The extent of a new block is taken, and has to be cleared. -/
  | clear (start size : Nat)
  /-- The extent of a new block is taken and filled, and the header has to be written. -/
  | stamp (start size : Nat)
  /-- The block is live, and its tag has to be wiped, for a new size or to release it. -/
  | retire (block old : Nat) (resize : Option Nat)
  /-- The tag is wiped, and the extent has to be given back. -/
  | free (block old : Nat)
  /-- The tag is wiped, and an extent for the new size has to be taken. -/
  | reserve (block old size : Nat)
  /-- There is no room for the new size, and the old header has to be written again. -/
  | restore (block old : Nat)
  /-- The extent for the new size is taken, and the old bytes have to be copied. -/
  | copy (block old start size : Nat)
  /-- The bytes are copied, and the old extent has to be given back. -/
  | vacate (block old start size : Nat)
  /-- The call is answered. -/
  | done (answer : Option Nat)
deriving DecidableEq, Repr

namespace Stage

/-- Takes the extent for a block of `size` bytes, if there is room for it. -/
def takeThen (size : Nat) (found : Nat → Stage) (otherwise : Stage) (region : Region)
    : Outcome Region Stage :=
  match BlockHeader.rawSize? size with
  | none => .answer otherwise region
  | some raw =>
      match region.reserve? raw with
      | none => .answer otherwise region
      | some (start, reserved) => .answer (found start) reserved

/-- The next step of a call. -/
def next (stage : Stage) (region : Region) : Outcome Region Stage :=
  match stage with
  | .entry (.allocate size) => takeThen size (.stamp · size) (.done none) region
  | .entry (.allocateZeroed size) => takeThen size (.clear · size) (.done none) region
  | .entry (.reallocate block size) =>
      match BlockHeader.rawSize? size, region.inspect block with
      | some _, some old => .answer (.retire block old (some size)) region
      | _, _ => .answer (.done none) region
  | .entry (.release block) =>
      match region.inspect block with
      | none => .answer (.done none) region
      | some old => .answer (.retire block old none) region
  | .clear start size =>
      .answer (.stamp start size) (region.clear start (size + BlockHeader.size))
  | .stamp start size =>
      .answer (.done (some (BlockHeader.blockOf start))) (region.stamp start size)
  | .retire block old resize =>
      let retired := region.retire (BlockHeader.rawOf block)
      match resize with
      | none => .answer (.free block old) retired
      | some size => .answer (.reserve block old size) retired
  | .free block old =>
      (region.relinquish (BlockHeader.rawOf block) (old + BlockHeader.size)).map
        fun _ => .done none
  | .reserve block old size =>
      takeThen size (.copy block old · size) (.restore block old) region
  | .restore block old => .answer (.done none) (region.stamp (BlockHeader.rawOf block) old)
  | .copy block old start size =>
      .answer (.vacate block old start size)
        (region.copy (BlockHeader.rawOf block) start
          (min (old + BlockHeader.size) (size + BlockHeader.size)))
  | .vacate block old start size =>
      (region.relinquish (BlockHeader.rawOf block) (old + BlockHeader.size)).map
        fun _ => .stamp start size
  | .done answer => .answer (.done answer) region

/-- The size of the block that the next step takes an extent for. -/
def seeks? : Stage → Option Nat
  | .entry (.allocate size) | .entry (.allocateZeroed size) | .reserve _ _ size => some size
  | _ => none

/-- Where a call stands once it is told that there is no room. -/
def refused : Stage → Stage
  | .entry _ => .done none
  | .reserve block old _ => .restore block old
  | stage => stage

/-- The most steps that a call can still take. -/
def remaining : Stage → Nat
  | .entry _ => 6
  | .retire _ _ _ => 5
  | .reserve _ _ _ => 4
  | .copy _ _ _ _ => 3
  | .vacate _ _ _ _ | .clear _ _ => 2
  | .stamp _ _ | .free _ _ | .restore _ _ => 1
  | .done _ => 0

theorem eq_done_of_remaining {stage : Stage} (finished : stage.remaining = 0)
    : ∃ answer, stage = .done answer := by
  cases stage with
  | done answer => exact ⟨answer, rfl⟩
  | entry | clear | stamp | retire | free | reserve | restore | copy | vacate => cases finished

/-- A number of steps with nothing in between; a fault is the end. -/
def steps : Nat → Stage → Region → Outcome Region Stage
  | 0, stage, region => .answer stage region
  | count + 1, stage, region =>
      match stage.next region with
      | ⟨.ok following, region⟩ => steps count following region
      | ⟨.error fault, region⟩ => .stop fault region

section Steps

variable {stage following : Stage} {region after : Region}

theorem steps_succ (taken : stage.next region = .answer following after) (count : Nat)
    : stage.steps (count + 1) region = following.steps count after := by
  rw [steps, taken]
  rfl

theorem steps_of_stop {fault : HeapFault} (taken : stage.next region = .stop fault after)
    (count : Nat)
    : stage.steps (count + 1) region = .stop fault after := by
  rw [steps, taken]
  rfl

theorem steps_done (count : Nat) (answer : Option Nat) (region : Region)
    : (Stage.done answer).steps count region = .answer (.done answer) region := by
  induction count with
  | zero => rfl
  | succ count ih => exact (steps_succ rfl count).trans ih

theorem steps_of_done {answer : Option Nat}
    (taken : stage.next region = .answer (.done answer) after) (count : Nat)
    : stage.steps (count + 1) region = .answer (.done answer) after :=
  (steps_succ taken count).trans (steps_done count answer after)

end Steps

--------------------------------------------------------------------------------
-- Undisturbed calls
--------------------------------------------------------------------------------

theorem steps_allocate (size : Nat) (region : Region)
    : (Stage.entry (.allocate size)).steps 6 region = (region.allocate size).map .done := by
  rw [Region.allocate]
  cases fits : BlockHeader.rawSize? size with
  | none =>
      have stops : (entry (.allocate size)).next region = .answer (.done none) region := by
        simp only [next, takeThen, fits]
      exact steps_of_done stops 5
  | some raw =>
      rcases reserved : region.reserve? raw with _ | ⟨target, taken⟩
      · have stops : (entry (.allocate size)).next region = .answer (.done none) region := by
          simp only [next, takeThen, fits, reserved]
        simp only [reserved]
        exact steps_of_done stops 5
      · have takes : (entry (.allocate size)).next region = .answer (.stamp target size) taken := by
          simp only [next, takeThen, fits, reserved]
        simp only [reserved]
        exact (steps_succ takes 5).trans (steps_of_done rfl 4)

theorem steps_allocateZeroed (size : Nat) (region : Region)
    : (Stage.entry (.allocateZeroed size)).steps 6 region
      = (region.allocateZeroed size).map .done := by
  rw [Region.allocateZeroed]
  cases fits : BlockHeader.rawSize? size with
  | none =>
      have stops : (entry (.allocateZeroed size)).next region = .answer (.done none) region := by
        simp only [next, takeThen, fits]
      exact steps_of_done stops 5
  | some raw =>
      obtain rfl : raw = size + BlockHeader.size := (BlockHeader.rawSize?_eq_some_iff.mp fits).2
      rcases reserved : region.reserve? (size + BlockHeader.size) with _ | ⟨target, taken⟩
      · have stops : (entry (.allocateZeroed size)).next region = .answer (.done none) region := by
          simp only [next, takeThen, fits, reserved]
        simp only [reserved]
        exact steps_of_done stops 5
      · have takes : (entry (.allocateZeroed size)).next region
            = .answer (.clear target size) taken := by
          simp only [next, takeThen, fits, reserved]
        simp only [reserved]
        exact (steps_succ takes 5).trans ((steps_succ rfl 4).trans (steps_of_done rfl 3))

/-- The steps of a move, once the extent for the new size is taken. -/
theorem steps_copy (block old target size : Nat) (region : Region)
    : let copied := region.copy (BlockHeader.rawOf block) target
        (min (old + BlockHeader.size) (size + BlockHeader.size))
      let released := copied.relinquish (BlockHeader.rawOf block) (old + BlockHeader.size)
      (Stage.copy block old target size).steps 3 region
      = match released.result with
        | .ok _ =>
            .answer (.done (some (BlockHeader.blockOf target))) (released.heap.stamp target size)
        | .error fault => .stop fault released.heap := by
  intro copied released
  rw [steps_succ rfl]
  rcases found : released with ⟨fault | _, after⟩
  · have stops : (vacate block old target size).next copied = .stop fault after :=
      congrArg (Outcome.map _) found
    exact steps_of_stop stops 1
  · have vacates : (vacate block old target size).next copied
        = .answer (.stamp target size) after :=
      congrArg (Outcome.map _) found
    exact (steps_succ vacates 1).trans (steps_of_done rfl 0)

theorem steps_reallocate (block size : Nat) (region : Region)
    : (Stage.entry (.reallocate block size)).steps 6 region
      = (region.reallocate block size).map .done := by
  rw [Region.reallocate]
  cases fits : BlockHeader.rawSize? size with
  | none =>
      have stops : (entry (.reallocate block size)).next region = .answer (.done none) region := by
        simp only [next, fits]
      exact steps_of_done stops 5
  | some raw =>
      obtain rfl : raw = size + BlockHeader.size := (BlockHeader.rawSize?_eq_some_iff.mp fits).2
      cases live : region.inspect block with
      | none =>
          have stops : (entry (.reallocate block size)).next region
              = .answer (.done none) region := by
            simp only [next, fits, live]
          exact steps_of_done stops 5
      | some old =>
          have inspects : (entry (.reallocate block size)).next region
              = .answer (.retire block old (some size)) region := by
            simp only [next, fits, live]
          refine (steps_succ inspects 5).trans ((steps_succ rfl 4).trans ?_)
          rcases reserved : (region.retire (BlockHeader.rawOf block)).reserve?
            (size + BlockHeader.size) with _ | ⟨target, taken⟩
          · have stops : (reserve block old size).next (region.retire (BlockHeader.rawOf block))
                = .answer (.restore block old) (region.retire (BlockHeader.rawOf block)) := by
              simp only [next, takeThen, fits, reserved]
            simp only [reserved]
            exact (steps_succ stops 3).trans (steps_of_done rfl 2)
          · have takes : (reserve block old size).next (region.retire (BlockHeader.rawOf block))
                = .answer (.copy block old target size) taken := by
              simp only [next, takeThen, fits, reserved]
            simp only [reserved]
            refine (steps_succ takes 3).trans ((steps_copy block old target size taken).trans ?_)
            rcases (taken.copy (BlockHeader.rawOf block) target
                (min (old + BlockHeader.size) (size + BlockHeader.size))).relinquish
              (BlockHeader.rawOf block) (old + BlockHeader.size) with ⟨_ | _, _⟩ <;> rfl

theorem steps_release (block : Nat) (region : Region)
    : (Stage.entry (.release block)).steps 6 region
      = (region.release block).map fun _ => .done none := by
  rw [Region.release]
  cases live : region.inspect block with
  | none =>
      have stops : (entry (.release block)).next region = .answer (.done none) region := by
        simp only [next, live]
      exact steps_of_done stops 5
  | some old =>
      have inspects : (entry (.release block)).next region
          = .answer (.retire block old none) region := by
        simp only [next, live]
      refine (steps_succ inspects 5).trans ((steps_succ rfl 4).trans ?_)
      simp only
      rcases released : (region.retire (BlockHeader.rawOf block)).relinquish
          (BlockHeader.rawOf block) (old + BlockHeader.size) with ⟨fault | _, after⟩
      · have stops : (free block old).next (region.retire (BlockHeader.rawOf block))
            = .stop fault after :=
          congrArg (Outcome.map _) released
        exact steps_of_stop stops 3
      · have frees : (free block old).next (region.retire (BlockHeader.rawOf block))
            = .answer (.done none) after :=
          congrArg (Outcome.map _) released
        exact steps_of_done frees 3

/-- The steps of a call, with nothing in between, are the primitive that is called. -/
theorem steps_entry (call : Call) (region : Region)
    : (Stage.entry call).steps 6 region = (call.perform region).map .done := by
  cases call with
  | allocate size => exact steps_allocate size region
  | allocateZeroed size => exact steps_allocateZeroed size region
  | reallocate block size => exact steps_reallocate block size region
  | release block => exact (steps_release block region).trans (Outcome.map_map ..).symm

end Stage

end Firmware
