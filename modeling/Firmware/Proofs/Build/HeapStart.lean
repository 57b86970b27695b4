import Firmware.Proofs.Build.Acceptance
import Firmware.Proofs.Heap.SessionSteps
import Mathlib.Order.Bounds.Defs

/-! Whether the heap of an accepted configuration starts.
Validation asks for a heap that is not empty and leaves some of the board's memory. Setting up the
region asks for room for one hole. So accepted heaps of fewer than sixteen bytes do not start, and
all others do: they grant a request for all their usable bytes but those of one header
(`Configuration.heap_start_of_accepted`).
-/

namespace Firmware

--------------------------------------------------------------------------------
-- Requests to a region
--------------------------------------------------------------------------------

/-- Somewhere in the pool there is room for a block exactly if some hole fits. -/
theorem Pool.isSome_place?_iff {pool : Pool} {size : Nat}
    : (pool.place? size).isSome
      ↔ size < BlockHeader.sizeLimit
        ∧ ∃ hole ∈ pool.holes, Fits (extentSize (size + BlockHeader.size)) hole := by
  by_cases limited : size < BlockHeader.sizeLimit
  · rw [place?, BlockHeader.rawSize?, if_pos limited, Option.bind_some, take?, Option.isSome_map,
      Option.isSome_iff_ne_none, ne_eq, takeFirst?_eq_none_iff]
    simp [limited]
  · simp [place?, BlockHeader.rawSize?, limited]

/-- The sizes of the blocks that a region would grant. -/
def Region.granted (region : Region) : Set Nat :=
  { size | ∃ block after, region.allocate size = .answer (some block) after }

/-- A block is granted exactly if there is room for it. -/
theorem Region.mem_granted_iff {region : Region} {size : Nat}
    : size ∈ region.granted ↔ (region.pool.place? size).isSome := by
  rw [granted, Set.mem_ofPred_eq]
  cases placed : region.pool.place? size with
  | none => simp [allocate_of_no_place placed, Outcome.answer]
  | some place =>
      have limited := (Pool.place?_eq_some_iff.mp placed).1
      simp only [allocate, BlockHeader.rawSize?, if_pos limited, reserve?_of_place placed,
        Option.isSome_some, iff_true]
      exact ⟨_, _, rfl⟩

--------------------------------------------------------------------------------
-- Fresh regions
--------------------------------------------------------------------------------

namespace Pool

theorem roundDown_le (n : Nat) : roundDown n ≤ n :=
  Nat.div_mul_le_self ..

/-- The pool over a region of `size` bytes at `start` of which nothing is taken. -/
def fresh (start size : Nat) : Pool where
  bottom := start
  size := roundDown size
  holes := [⟨start, roundDown size⟩]

/-- At an aligned address all that is asked for is room for one hole. -/
theorem init?_of_aligned {start size : Nat} (aligned : start % 8 = 0)
    : init? start size
      = if size < leastHole then .error .regionTooSmall else .ok (fresh start size) := by
  have sameStart : roundUp start = start := by
    simp only [roundUp]
    omega
  have sameUsable : size - (start - start) = size := by omega
  have roomy : ¬ size < leastHole → ¬ roundDown size < leastHole := by
    simp only [leastHole, roundDown]
    omega
  simp only [init?, sameStart, sameUsable]
  by_cases small : size < leastHole
  · rw [if_pos small, if_pos small]
  · rw [if_neg small, if_neg small, if_neg (roomy small)]
    rfl

/-- The extent of the largest block in a fresh region is the whole region. -/
theorem extentSize_roundDown {size : Nat} (roomy : leastHole ≤ size)
    : extentSize (roundDown size - BlockHeader.size + BlockHeader.size) = roundDown size := by
  simp only [extentSize, roundUp, roundDown, leastHole, BlockHeader.size] at *
  omega

end Pool

theorem Region.init?_of_aligned {memory : Memory} {start size : Nat} (aligned : start % 8 = 0)
    : init? memory start size
      = if size < Pool.leastHole then .error .regionTooSmall
        else
          .ok
            { memory := Pool.storeNodes memory (Pool.fresh start size).holes
              pool := Pool.fresh start size } := by
  rw [init?, Pool.init?_of_aligned aligned]
  split <;> rfl

/-- A fresh pool with room for one hole has room for a block of all its bytes but those of the
header, as far as a header can record it, and for no larger block.
-/
theorem Region.granted_of_fresh {region : Region} {start size : Nat}
    (fresh : region.pool = Pool.fresh start size) (roomy : Pool.leastHole ≤ size)
    (limited : size < BlockHeader.sizeLimit)
    : IsGreatest region.granted (Pool.roundDown size - BlockHeader.size) := by
  have bounded := Pool.roundDown_le size
  have holes : region.pool.holes = [⟨start, Pool.roundDown size⟩] := congrArg Pool.holes fresh
  constructor
  · rw [mem_granted_iff, Pool.isSome_place?_iff, holes]
    have whole := (Pool.extentSize_roundDown roomy).symm
    exact ⟨by omega, _, List.mem_singleton_self _, Or.inl whole⟩
  · intro request granted
    rw [mem_granted_iff, Pool.isSome_place?_iff, holes] at granted
    obtain ⟨_, hole, member, fits⟩ := granted
    obtain rfl := List.mem_singleton.mp member
    have covered := Pool.le_extentSize (request + BlockHeader.size)
    simp only [Pool.Fits] at fits
    omega

--------------------------------------------------------------------------------
-- Accepted configurations
--------------------------------------------------------------------------------

namespace Configuration

variable {configuration : Configuration} {features : FeatureSet}

/-- A heap that leaves some of a board's memory has a size that headers can record. -/
theorem Admitted.heapSize_lt (admitted : configuration.Admitted features)
    (board : configuration.target ≠ .host)
    : configuration.heapSize < BlockHeader.sizeLimit := by
  have fits := admitted.heapFits
  cases target : configuration.target with
  | host => exact absurd target board
  | stm32f412 | stm32f446 | wgm160p =>
      rw [target] at fits
      have below := fits _ rfl
      simp only [Target.kibibytes] at below
      simp only [BlockHeader.sizeLimit]
      omega

/-- The heap of an accepted configuration for a board starts if and only if there is room for one
hole in it. Then a request for more than no bytes is granted, and the largest one that is takes the
whole region.
-/
theorem heap_start_of_accepted (accepted : configuration.validate features = .ok ())
    (board : configuration.target ≠ .host) {start : Nat} (aligned : start % 8 = 0)
    (memory : Memory)
    : let size := configuration.constants.heapSize
      let largest := Pool.roundDown size - BlockHeader.size
      (size < Pool.leastHole → Region.init? memory start size = .error .regionTooSmall)
      ∧ (Pool.leastHole ≤ size →
          0 < largest
          ∧ ∃ region,
              Region.init? memory start size = .ok region
              ∧ IsGreatest region.granted largest) := by
  intro size largest
  rw [Region.init?_of_aligned aligned]
  refine ⟨fun small => if_pos small, fun roomy => ?_⟩
  have limited : size < BlockHeader.sizeLimit :=
    (validate_eq_ok_iff.mp accepted).heapSize_lt board
  refine ⟨?_, _, if_neg (Nat.not_lt.mpr roomy), Region.granted_of_fresh rfl roomy limited⟩
  simp only [Pool.leastHole] at roomy
  simp only [largest, Pool.roundDown, BlockHeader.size]
  omega

/-- A heap of twenty bytes starts, and its largest block has eight. -/
theorem heap_start_of_twenty_bytes
    : let configuration : Configuration := { target := .stm32f446, heapSize := 20 }
      configuration.validate { board := some .stm32f446 } = .ok ()
      ∧ ∃ region,
          Region.init? (fun _ => 7) 0x20000408 configuration.constants.heapSize = .ok region
          ∧ IsGreatest region.granted 8 :=
  have accepted := rfl
  ⟨accepted, ((heap_start_of_accepted accepted (by decide) (by decide) _).2 (by decide)).2⟩

/-- A heap of eight bytes is accepted, and does not start. -/
theorem accepted_heap_too_small
    : let configuration : Configuration := { target := .stm32f412, heapSize := 8 }
      let start := 0x20000000
      configuration.validate { board := some .stm32f412 } = .ok ()
      ∧ configuration.target ≠ .host
      ∧ start % 8 = 0
      ∧ start + configuration.constants.heapSize ≤ addressSpace
      ∧ Region.init? (fun _ => 0) start configuration.constants.heapSize
        = .error .regionTooSmall :=
  ⟨rfl, by decide, by decide, by decide, rfl⟩

end Configuration

end Firmware
