import Firmware.Heap.Pool
import Mathlib.Algebra.GroupWithZero.Nat
import Mathlib.Data.List.Pairwise
import Mathlib.Data.List.Sort

/-! Extents as sets of addresses.
A list of extents in address order with room between neighbours is the only such list for the
addresses it covers (`Separated.eq_of_covers_iff`): its members are the maximal runs of covered
addresses (`Separated.mem_iff_maximalRun`).
-/

namespace Firmware

/-- The address lies in the extent. -/
def Extent.Contains (extent : Extent) (address : Nat) : Prop :=
  extent.start ≤ address ∧ address < extent.stop

/-- The extents share no address: one of them ends before the other starts. -/
def Extent.Apart (left right : Extent) : Prop :=
  left.stop ≤ right.start ∨ right.stop ≤ left.start

/-- The left extent ends before the right one starts, and they do not touch. -/
def Extent.Before (left right : Extent) : Prop := left.stop < right.start

/-- The extent lies on multiples of eight and has room for a hole. -/
structure Extent.Regular (extent : Extent) : Prop where
  startAligned : extent.start % 8 = 0
  sizeAligned : extent.size % 8 = 0
  least : Pool.leastHole ≤ extent.size

instance : Std.Symm Extent.Apart where
  symm _ _ := Or.symm

instance : Std.Irrefl Extent.Before where
  irrefl extent := by
    simp only [Extent.Before, Extent.stop]
    omega

instance : Std.Antisymm Extent.Before where
  antisymm left right before after := by
    simp only [Extent.Before, Extent.stop] at before after
    omega

theorem Extent.Regular.pos {extent : Extent} (regular : extent.Regular) : 0 < extent.size :=
  Nat.lt_of_lt_of_le (by decide) regular.least

theorem Extent.contains_start {extent : Extent} (positive : 0 < extent.size)
    : extent.Contains extent.start :=
  ⟨Nat.le_refl _, Nat.lt_add_of_pos_right positive⟩

/-- Extents that are not apart have an address in common, the later of their starts. -/
theorem Extent.apart_of_no_common {left right : Extent} (leftPositive : 0 < left.size)
    (rightPositive : 0 < right.size)
    (noCommon : ∀ address, left.Contains address → ¬ right.Contains address)
    : left.Apart right := by
  by_contra overlapping
  simp only [Extent.Apart, not_or, Nat.not_le] at overlapping
  rcases Nat.le_total left.start right.start with order | order
  · exact noCommon right.start ⟨order, overlapping.1⟩ (Extent.contains_start rightPositive)
  · exact noCommon left.start (Extent.contains_start leftPositive) ⟨order, overlapping.2⟩

theorem Extent.Apart.not_contains {left right : Extent} (apart : left.Apart right) {address : Nat}
    (inside : left.Contains address)
    : ¬ right.Contains address := by
  simp only [Extent.Contains, Extent.Apart] at *
  omega

/-- Some extent of the list holds the address. -/
def Covers (extents : List Extent) (address : Nat) : Prop :=
  ∃ extent ∈ extents, extent.Contains address

/-- The extents stand in address order, and no two of them touch. -/
def Separated (extents : List Extent) : Prop := extents.Pairwise Extent.Before

@[simp] theorem covers_nil (address : Nat) : ¬ Covers [] address := by
  simp [Covers]

@[simp] theorem covers_cons (extent : Extent) (rest : List Extent) (address : Nat)
    : Covers (extent :: rest) address ↔ extent.Contains address ∨ Covers rest address := by
  simp [Covers]

@[simp] theorem covers_append (left right : List Extent) (address : Nat)
    : Covers (left ++ right) address ↔ Covers left address ∨ Covers right address := by
  simp [Covers, or_and_right, exists_or]

theorem covers_of_mem {extents : List Extent} {extent : Extent} (member : extent ∈ extents)
    {address : Nat} (inside : extent.Contains address)
    : Covers extents address :=
  ⟨extent, member, inside⟩

/-- The addresses covered do not depend on the order of the extents. -/
theorem covers_perm {left right : List Extent} (perm : left.Perm right) (address : Nat)
    : Covers left address ↔ Covers right address := by
  simp only [Covers, perm.mem_iff]

--------------------------------------------------------------------------------
-- Maximal runs
--------------------------------------------------------------------------------

/-- The extent is a run of addresses with a property that can be continued on neither side. -/
structure MaximalRun (held : Nat → Prop) (run : Extent) : Prop where
  positive : 0 < run.size
  inside : ∀ address, run.Contains address → held address
  startsHere : ∀ address, address + 1 = run.start → ¬ held address
  stopsHere : ¬ held run.stop

theorem maximalRun_congr {left right : Nat → Prop} (same : ∀ address, left address ↔ right address)
    {run : Extent}
    : MaximalRun left run ↔ MaximalRun right run := by
  rw [funext fun address => propext (same address)]

/-- Two members of a separated list are the same one, or there is room between them. -/
theorem Separated.trichotomy {extents : List Extent} (separated : Separated extents)
    {left right : Extent} (leftMember : left ∈ extents) (rightMember : right ∈ extents)
    : left = right ∨ left.Before right ∨ right.Before left := by
  by_cases same : left = right
  · exact Or.inl same
  · have : Std.Symm fun l r : Extent => l.Before r ∨ r.Before l := ⟨fun _ _ => Or.symm⟩
    have related : extents.Pairwise fun l r : Extent => l.Before r ∨ r.Before l :=
      separated.imp Or.inl
    exact Or.inr (related.forall leftMember rightMember same)

/-- A member of a separated list is a maximal run of covered addresses. -/
theorem Separated.maximalRun {extents : List Extent} (separated : Separated extents)
    {run : Extent} (member : run ∈ extents) (positive : 0 < run.size)
    : MaximalRun (Covers extents) run where
  positive := positive
  inside _ held := covers_of_mem member held
  startsHere := by
    rintro address next ⟨other, otherMember, held⟩
    rcases separated.trichotomy member otherMember with rfl | before | after
    all_goals
      simp only [Extent.Contains, Extent.Before, Extent.stop] at *
      omega
  stopsHere := by
    rintro ⟨other, otherMember, held⟩
    rcases separated.trichotomy member otherMember with rfl | before | after
    all_goals
      simp only [Extent.Contains, Extent.Before, Extent.stop] at *
      omega

/-- The members of a separated list are exactly the maximal runs of covered addresses: a run
starts inside some member, and neither can be longer than the other.
-/
theorem Separated.mem_iff_maximalRun {extents : List Extent} (separated : Separated extents)
    (positive : ∀ extent ∈ extents, 0 < extent.size) {run : Extent}
    : run ∈ extents ↔ MaximalRun (Covers extents) run := by
  constructor
  · intro member
    exact separated.maximalRun member (positive run member)
  · intro maximal
    obtain ⟨extent, member, startInside⟩ :=
      maximal.inside run.start (Extent.contains_start maximal.positive)
    have whole := separated.maximalRun member (positive extent member)
    have sameStart : extent.start = run.start := by
      by_contra different
      have earlier : extent.Contains (run.start - 1) := by
        simp only [Extent.Contains] at *
        omega
      have next : run.start - 1 + 1 = run.start := by
        have below := startInside.1
        omega
      exact maximal.startsHere _ next (covers_of_mem member earlier)
    have sameSize : extent.size = run.size := by
      rcases Nat.lt_trichotomy extent.size run.size with shorter | same | longer
      · have inRun : run.Contains extent.stop := by
          simp only [Extent.Contains, Extent.stop]
          omega
        exact absurd (maximal.inside _ inRun) whole.stopsHere
      · exact same
      · have inExtent : extent.Contains run.stop := by
          simp only [Extent.Contains, Extent.stop]
          omega
        exact absurd (covers_of_mem member inExtent) maximal.stopsHere
    have same : extent = run := by
      rw [Extent.mk.injEq, sameStart, sameSize]
      exact ⟨rfl, rfl⟩
    exact same ▸ member

/-- Separated lists that cover the same addresses are equal, by comparing their maximal runs. -/
theorem Separated.eq_of_covers_iff {left right : List Extent} (leftSeparated : Separated left)
    (rightSeparated : Separated right) (leftPositive : ∀ extent ∈ left, 0 < extent.size)
    (rightPositive : ∀ extent ∈ right, 0 < extent.size)
    (same : ∀ address, Covers left address ↔ Covers right address)
    : left = right := by
  refine leftSeparated.eq_of_mem_iff rightSeparated ?_
  intro extent
  rw [leftSeparated.mem_iff_maximalRun leftPositive,
    rightSeparated.mem_iff_maximalRun rightPositive, maximalRun_congr same]

end Firmware
