import Firmware.Memory

/-! Headers in front of the blocks of the region heap.
A header is two little-endian words of four bytes: a tag that says whether the block is live, and
the usable size. Main statements: a stamped header reads back (`inspect_stamp`), a retired one
does not (`inspect_retire`), and neither touches a byte outside its own eight
(`stamp_of_outside`, `retire_of_outside`).
-/

namespace Firmware.BlockHeader

/-- The number of bytes a header takes. -/
def size : Nat := 8

/-- The tag of a live block. -/
def liveTag : Nat := 0xB10CA11C

/-- The tag of a block that went back to the pool. -/
def retiredTag : Nat := 0

/-- The sizes a header can record lie below this number. -/
def sizeLimit : Nat := 0x100000000

/-- The bytes needed for `usable` bytes and their header, if the header can record the size. -/
def rawSize? (usable : Nat) : Option Nat :=
  if usable < sizeLimit then some (usable + size) else none

/-- Marks the raw block at `raw` as live with `usable` bytes; the size is cut to four bytes. -/
def stamp (memory : Memory) (raw usable : Nat) : Memory :=
  (memory.store raw 4 liveTag).store (raw + 4) 4 usable

/-- Wipes the tag of the raw block at `raw` and leaves its size. -/
def retire (memory : Memory) (raw : Nat) : Memory :=
  memory.store raw 4 retiredTag

/-- The usable part of the raw block at `raw`. -/
def blockOf (raw : Nat) : Nat := raw + size

/-- The raw block in front of the usable part at `block`. -/
def rawOf (block : Nat) : Nat := block - size

/-- The usable size of the block at `block`; `none` if its header is not live. -/
def inspect (memory : Memory) (block : Nat) : Option Nat :=
  if memory.load (rawOf block) 4 = liveTag then some (memory.load (rawOf block + 4) 4) else none

@[simp] theorem rawOf_blockOf (raw : Nat) : rawOf (blockOf raw) = raw :=
  Nat.add_sub_cancel raw size

theorem rawSize?_eq_some_iff {usable raw : Nat}
    : rawSize? usable = some raw ↔ usable < sizeLimit ∧ raw = usable + 8 := by
  by_cases fits : usable < sizeLimit
  · rw [rawSize?, if_pos fits, Option.some.injEq]
    simp only [sizeLimit, size] at *
    omega
  · rw [rawSize?, if_neg fits]
    simp only [sizeLimit] at *
    simp only [reduceCtorEq, fits, false_and]

--------------------------------------------------------------------------------
-- What a header operation leaves
--------------------------------------------------------------------------------

/-- A stamped block is live, and its size reads back modulo the range of the header. -/
theorem inspect_stamp (memory : Memory) (raw usable : Nat)
    : inspect (stamp memory raw usable) (blockOf raw) = some (usable % sizeLimit) := by
  have tag : (stamp memory raw usable).load raw 4 = liveTag := by
    rw [stamp, Memory.load_store_of_outside (by omega), Memory.load_store]
    decide
  have recorded : (stamp memory raw usable).load (raw + 4) 4 = usable % sizeLimit := by
    rw [stamp, Memory.load_store]
    rfl
  rw [inspect, rawOf_blockOf, if_pos tag, recorded]

/-- A retired block is not live. -/
theorem inspect_retire (memory : Memory) (raw : Nat)
    : inspect (retire memory raw) (blockOf raw) = none := by
  have tag : (retire memory raw).load raw 4 = 0 := by
    rw [retire, Memory.load_store]
    decide
  rw [inspect, rawOf_blockOf, if_neg (by rw [tag]; decide)]

theorem stamp_of_outside {memory : Memory} {raw usable address : Nat}
    (outside : address < raw ∨ raw + 8 ≤ address)
    : stamp memory raw usable address = memory address := by
  have past : address < raw + 4 ∨ raw + 4 + 4 ≤ address := by omega
  have before : address < raw ∨ raw + 4 ≤ address := by omega
  rw [stamp, Memory.store, Memory.overwrite_of_outside past, Memory.store,
    Memory.overwrite_of_outside before]

theorem retire_of_outside {memory : Memory} {raw address : Nat}
    (outside : address < raw ∨ raw + 4 ≤ address)
    : retire memory raw address = memory address :=
  Memory.overwrite_of_outside outside

/-- Whether a block is live, and with which size, is decided by its eight header bytes. -/
theorem inspect_congr {left right : Memory} {raw : Nat}
    (agree : ∀ i, i < 8 → left (raw + i) = right (raw + i))
    : inspect left (blockOf raw) = inspect right (blockOf raw) := by
  have tag : left.load raw 4 = right.load raw 4 :=
    Memory.load_congr fun i inside => agree i (by omega)
  have recorded : left.load (raw + 4) 4 = right.load (raw + 4) 4 :=
    Memory.load_congr fun i inside => by
      have next := agree (4 + i) (by omega)
      rwa [← Nat.add_assoc] at next
  simp only [inspect, rawOf_blockOf, tag, recorded]

end Firmware.BlockHeader
