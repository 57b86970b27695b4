import Firmware.Proofs.Heap.StoredWords
import Mathlib.Data.List.Induction
import Mathlib.Logic.Pairwise

/-! Headers that do not overlap are independent of each other.
Memory with headers is written by header operations and by anything else that spares the headers.
An operation leaves the bytes it does not touch (`perform_of_untouched`), so the header at an offset
is what the last header operation at this offset made of it (`inspect_after`), whatever happened
elsewhere. Wiping a header and writing it again is no change (`stamp_retired`).
-/

namespace Firmware

open BlockHeader

/-- What is done to memory that holds headers. -/
inductive HeaderOperation where
  | stamp (raw usable : Nat)
  | retire (raw : Nat)
  /-- Bytes of something else are written. -/
  | write (start : Nat) (bytes : List UInt8)
deriving DecidableEq, Repr

namespace HeaderOperation

/-- Memory after an operation. -/
def perform (memory : Memory) : HeaderOperation → Memory
  | stamp raw usable => BlockHeader.stamp memory raw usable
  | retire raw => BlockHeader.retire memory raw
  | write start bytes => memory.overwrite start bytes.length fun i => bytes.getD i 0

/-- Memory after operations in order. -/
def after (memory : Memory) (operations : List HeaderOperation) : Memory :=
  operations.foldl perform memory

/-- The offset of the header that is named. -/
def raw? : HeaderOperation → Option Nat
  | stamp raw _ | retire raw => some raw
  | write .. => none

/-- The address lies in the header that is named, or among the bytes that are written. -/
def Touches (address : Nat) : HeaderOperation → Prop
  | stamp raw _ | retire raw => raw ≤ address ∧ address < raw + size
  | write start bytes => start ≤ address ∧ address < start + bytes.length

/-- Header operations name one of the offsets, and other writes touch no header there. -/
def Respects (offsets : Set Nat) : HeaderOperation → Prop
  | stamp raw _ | retire raw => raw ∈ offsets
  | write start bytes => ∀ raw ∈ offsets, ∀ i, i < size → ¬ (write start bytes).Touches (raw + i)

/-- The last header operation at an offset. -/
def last? (raw : Nat) (operations : List HeaderOperation) : Option HeaderOperation :=
  operations.reverse.find? fun operation => operation.raw? = some raw

/-- The usable size that a header operation leaves on record; none if the block is not live. -/
def recorded : HeaderOperation → Option Nat
  | stamp _ usable => some (usable % sizeLimit)
  | retire _ | write .. => none

theorem last?_append_singleton (raw : Nat) (operations : List HeaderOperation)
    (operation : HeaderOperation)
    : last? raw (operations ++ [operation])
      = if operation.raw? = some raw then some operation else last? raw operations := by
  rw [last?, List.reverse_append, List.reverse_singleton, List.singleton_append, List.find?_cons]
  by_cases named : operation.raw? = some raw
  · rw [decide_eq_true named, if_pos named]
  · rw [decide_eq_false named, if_neg named, last?]

theorem raw?_of_last? {raw : Nat} {operations : List HeaderOperation}
    {operation : HeaderOperation} (last : last? raw operations = some operation)
    : operation.raw? = some raw := by
  have chosen := List.find?_some last
  exact of_decide_eq_true chosen

/-- A size is on record if and only if the header was stamped with it last. -/
theorem recorded_eq_some_iff {raw size : Nat} {operations : List HeaderOperation}
    : (last? raw operations).bind recorded = some size
      ↔ ∃ usable, last? raw operations = some (stamp raw usable) ∧ size = usable % sizeLimit := by
  cases last : last? raw operations with
  | none => simp
  | some operation =>
      have named := raw?_of_last? last
      cases operation with
      | stamp offset usable =>
          obtain rfl : offset = raw := Option.some.inj named
          simp [recorded, eq_comm]
      | retire offset => simp [recorded]
      | write start bytes => cases named

/-- Nothing is on record if and only if the header was never written, or wiped last. -/
theorem recorded_eq_none_iff {raw : Nat} {operations : List HeaderOperation}
    : (last? raw operations).bind recorded = none
      ↔ last? raw operations = none ∨ last? raw operations = some (retire raw) := by
  cases last : last? raw operations with
  | none => simp
  | some operation =>
      have named := raw?_of_last? last
      cases operation with
      | stamp offset usable => simp [recorded]
      | retire offset =>
          obtain rfl : offset = raw := Option.some.inj named
          simp [recorded]
      | write start bytes => cases named

--------------------------------------------------------------------------------
-- One operation
--------------------------------------------------------------------------------

theorem perform_of_untouched {memory : Memory} {operation : HeaderOperation} {address : Nat}
    (untouched : ¬ operation.Touches address)
    : perform memory operation address = memory address := by
  cases operation with
  | stamp raw usable =>
      simp only [Touches, size] at untouched
      exact stamp_of_outside (by omega)
  | retire raw =>
      simp only [Touches, size] at untouched
      exact retire_of_outside (by omega)
  | write start bytes =>
      simp only [Touches] at untouched
      have outside : address < start ∨ start + bytes.length ≤ address := by omega
      rw [perform, Memory.overwrite_of_outside outside]

/-- An operation that names a header decides what is read there. -/
theorem inspect_perform_of_named {memory : Memory} {operation : HeaderOperation} {raw : Nat}
    (named : operation.raw? = some raw)
    : inspect (perform memory operation) (blockOf raw) = operation.recorded := by
  cases operation with
  | stamp offset usable =>
      obtain rfl : offset = raw := Option.some.inj named
      exact inspect_stamp memory offset usable
  | retire offset =>
      obtain rfl : offset = raw := Option.some.inj named
      exact inspect_retire memory offset
  | write start bytes => cases named

/-- A header that is wiped and written again with the size it had is as it was, byte for byte. -/
theorem stamp_retired {memory : Memory} {raw usable : Nat}
    (live : inspect memory (blockOf raw) = some usable)
    : BlockHeader.stamp (BlockHeader.retire memory raw) raw usable = memory := by
  have undone := stamp_retire live
  rwa [rawOf_blockOf] at undone

section

variable {offsets : Set Nat}
  (apart : offsets.Pairwise fun raw other => raw + size ≤ other ∨ other + size ≤ raw)

include apart

/-- An operation that does not name a header leaves it as it is. -/
theorem inspect_perform_of_unnamed {memory : Memory} {operation : HeaderOperation} {raw : Nat}
    (respects : operation.Respects offsets) (member : raw ∈ offsets)
    (unnamed : operation.raw? ≠ some raw)
    : inspect (perform memory operation) (blockOf raw) = inspect memory (blockOf raw) := by
  refine inspect_congr fun i short => perform_of_untouched ?_
  cases operation with
  | stamp offset usable | retire offset =>
      have distinct : offset ≠ raw := fun same => unnamed (congrArg some same)
      have separate := apart respects member distinct
      simp only [Touches, size] at *
      omega
  | write start bytes => exact respects raw member i short

--------------------------------------------------------------------------------
-- Many operations
--------------------------------------------------------------------------------

/-- What is read at an offset, by induction on the operations from the last one back: it is what the
last header operation there left, and what was in memory at first if there was none.
-/
theorem inspect_after {memory : Memory} {operations : List HeaderOperation} {raw : Nat}
    (respected : ∀ operation ∈ operations, operation.Respects offsets) (member : raw ∈ offsets)
    : inspect (after memory operations) (blockOf raw)
      = (last? raw operations).elim (inspect memory (blockOf raw)) recorded := by
  induction operations using List.reverseRecOn with
  | nil => rfl
  | append_singleton operations operation ih =>
      have earlier : ∀ operation ∈ operations, operation.Respects offsets := by
        intro operation member
        exact respected operation (List.mem_append_left _ member)
      rw [last?_append_singleton, after, List.foldl_append]
      by_cases named : operation.raw? = some raw
      · rw [if_pos named]
        exact inspect_perform_of_named named
      · rw [if_neg named, ← ih earlier]
        exact inspect_perform_of_unnamed apart (respected operation (by simp)) member named

theorem inspect_after_of_dead {memory : Memory} {operations : List HeaderOperation} {raw : Nat}
    (respected : ∀ operation ∈ operations, operation.Respects offsets) (member : raw ∈ offsets)
    (dead : memory.load raw 4 ≠ liveTag)
    : inspect (after memory operations) (blockOf raw) = (last? raw operations).bind recorded := by
  have unread : inspect memory (blockOf raw) = none := by
    rw [inspect, rawOf_blockOf, if_neg dead]
  rw [inspect_after apart respected member, unread]
  cases last? raw operations <;> rfl

end

--------------------------------------------------------------------------------
-- Main statement
--------------------------------------------------------------------------------

/-- The raw block and the usable size behind a block, if it is live. -/
def locate (memory : Memory) (block : Nat) : Option (Nat × Nat) :=
  (inspect memory block).map fun usable => (rawOf block, usable)

/-- Headers at offsets that lie far enough apart are a map from offsets to sizes. What is located at
one of them is what the last header operation there put on record, and nothing if there was none or
it wiped the tag. A header operation changes no byte outside its header. Wiping a header and writing
it again leaves memory as it was, right after the header was written and at any later time.
-/
theorem last_operation_decides {memory : Memory} {offsets : Set Nat}
    {operations : List HeaderOperation}
    (apart : offsets.Pairwise fun raw other => raw + size ≤ other ∨ other + size ≤ raw)
    (dead : ∀ raw ∈ offsets, memory.load raw 4 ≠ liveTag)
    (respected : ∀ operation ∈ operations, operation.Respects offsets)
    : let reached := after memory operations
      (∀ raw ∈ offsets, ∀ block bytes,
          locate reached (blockOf raw) = some (block, bytes)
          ↔ block = raw
            ∧ ∃ usable,
                last? raw operations = some (stamp raw usable) ∧ bytes = usable % sizeLimit)
      ∧ (∀ raw ∈ offsets,
          locate reached (blockOf raw) = none
          ↔ last? raw operations = none ∨ last? raw operations = some (retire raw))
      ∧ (∀ (before : Memory) (raw usable address : Nat),
          address < raw ∨ raw + size ≤ address
          → BlockHeader.stamp before raw usable address = before address
            ∧ BlockHeader.retire before raw address = before address)
      ∧ (∀ (before : Memory) (raw usable : Nat),
          usable < sizeLimit
          → let stamped := BlockHeader.stamp before raw usable
            BlockHeader.stamp (BlockHeader.retire stamped raw) raw usable = stamped)
      ∧ ∀ raw ∈ offsets, ∀ usable, usable < sizeLimit →
          last? raw operations = some (stamp raw usable)
          → BlockHeader.stamp (BlockHeader.retire reached raw) raw usable = reached := by
  intro reached
  have read : ∀ raw ∈ offsets,
      inspect reached (blockOf raw) = (last? raw operations).bind HeaderOperation.recorded :=
    fun raw member => inspect_after_of_dead apart respected member (dead raw member)
  refine ⟨?_, ?_, ?_, ?_, ?_⟩
  · intro raw member block bytes
    rw [← recorded_eq_some_iff, ← read raw member, locate, rawOf_blockOf]
    constructor
    · intro located
      obtain ⟨usable, live, same⟩ := Option.map_eq_some_iff.mp located
      cases same
      exact ⟨rfl, live⟩
    · rintro ⟨rfl, live⟩
      rw [live, Option.map_some]
  · intro raw member
    rw [locate, read raw member, Option.map_eq_none_iff, recorded_eq_none_iff]
  · intro before raw usable address outside
    refine ⟨stamp_of_outside outside, retire_of_outside ?_⟩
    simp only [size] at outside
    omega
  · intro before raw usable fits
    refine stamp_retired ?_
    rw [inspect_stamp, Nat.mod_eq_of_lt fits]
  · intro raw member usable fits last
    refine stamp_retired ?_
    rw [read raw member, last, Option.bind_some, HeaderOperation.recorded, Nat.mod_eq_of_lt fits]

/-- Three headers, two of them side by side and none aligned. The live tag is written as data in
front of the third, the first is stamped with a size beyond the range of a header, and the third is
stamped again after it was wiped.
-/
theorem last_operation_decides_of_neighbours
    : let memory : Memory := fun _ => 0xAA
      let offsets : Set Nat := { raw | raw ∈ [17, 25, 41] }
      let operations : List HeaderOperation :=
        [.stamp 25 40, .stamp 17 0x100000005, .write 33 [0x1C, 0xA1, 0x0C, 0xB1], .retire 25,
          .stamp 41 7, .retire 41, .write 37 [0x1C, 0xA1, 0x0C, 0xB1], .stamp 41 9]
      let reached := after memory operations
      offsets.Pairwise (fun raw other => raw + size ≤ other ∨ other + size ≤ raw)
      ∧ (∀ raw ∈ offsets, memory.load raw 4 ≠ liveTag)
      ∧ (∀ operation ∈ operations, operation.Respects offsets)
      ∧ locate reached (blockOf 17) = some (17, 5)
      ∧ locate reached (blockOf 25) = none
      ∧ locate reached (blockOf 41) = some (41, 9)
      ∧ BlockHeader.stamp (BlockHeader.retire reached 41) 41 9 = reached := by
  intro memory offsets operations reached
  have first : 17 ∈ offsets := by simp [offsets]
  have second : 25 ∈ offsets := by simp [offsets]
  have third : 41 ∈ offsets := by simp [offsets]
  have apart : offsets.Pairwise (fun raw other => raw + size ≤ other ∨ other + size ≤ raw) := by
    have listed
        : ∀ raw ∈ [17, 25, 41], ∀ other ∈ [17, 25, 41],
            raw ≠ other → raw + size ≤ other ∨ other + size ≤ raw := by
      decide
    exact fun raw member other otherMember => listed raw member other otherMember
  have dead : ∀ raw ∈ offsets, memory.load raw 4 ≠ liveTag := by
    intro raw member
    have uniform : memory.load raw 4 = memory.load 0 4 := Memory.load_congr fun _ _ => rfl
    rw [uniform]
    decide
  have respected : ∀ operation ∈ operations, operation.Respects offsets := by
    have before
        : ∀ raw ∈ [17, 25, 41], ∀ i, i < size → ¬ (33 ≤ raw + i ∧ raw + i < 33 + 4) := by
      decide
    have behind
        : ∀ raw ∈ [17, 25, 41], ∀ i, i < size → ¬ (37 ≤ raw + i ∧ raw + i < 37 + 4) := by
      decide
    simp only [operations, List.forall_mem_cons, Respects, first, second, third, true_and,
      List.not_mem_nil, false_implies, implies_true, and_true]
    exact ⟨before, behind⟩
  obtain ⟨live, wiped, _, _, restored⟩ := last_operation_decides apart dead respected
  refine ⟨apart, dead, respected, ?_, ?_, ?_, ?_⟩
  · exact (live 17 first 17 5).mpr ⟨rfl, 0x100000005, by decide, by decide⟩
  · exact (wiped 25 second).mpr (Or.inr (by decide))
  · exact (live 41 third 41 9).mpr ⟨rfl, 9, by decide, by decide⟩
  · exact restored 41 third 9 (by decide) (by decide)

end HeaderOperation

end Firmware
