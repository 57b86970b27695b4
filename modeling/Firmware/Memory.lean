/-! Byte-addressed memory.
A memory is a total function from addresses to bytes, so two memories are equal when they hold
the same bytes, and a store is a function update. Words are little-endian.
Main statements: what each store leaves at every address (`overwrite_apply`, `store_apply`), and
that a stored word reads back modulo its width (`load_store`).
-/

namespace Firmware

/-- The number of addresses of the 64-bit address space. -/
def addressSpace : Nat := 0x10000000000000000

/-- The largest number of bytes that one object can take: half of the address space. -/
def largestExtent : Nat := addressSpace / 2

/-- The contents of the address space; addresses are natural numbers. -/
abbrev Memory := Nat → UInt8

namespace Memory

/-- Replaces `count` bytes from `start` on: byte number `i` becomes `value i`. -/
def overwrite (memory : Memory) (start count : Nat) (value : Nat → UInt8)
    : Memory :=
  fun address =>
    if start ≤ address ∧ address < start + count then value (address - start)
    else memory address

/-- The number of values that `width` bytes can hold. -/
def wordValues : (width : Nat) → Nat
  | 0 => 1
  | width + 1 => 256 * wordValues width

/-- Byte number `i` of `value` in little-endian order. -/
def wordByte (value i : Nat) : UInt8 :=
  UInt8.ofNat (value / wordValues i)

/-- Stores the low `width` bytes of `value` at `start`. -/
def store (memory : Memory) (start width value : Nat) : Memory :=
  memory.overwrite start width (wordByte value)

/-- The word of `width` bytes at `start`. -/
def load (memory : Memory) (start : Nat) : Nat → Nat
  | 0 => 0
  | width + 1 => (memory start).toNat + 256 * load memory (start + 1) width

/-- Copies `count` bytes from `source` to `target`; the two ranges do not overlap. -/
def copy (memory : Memory) (source target count : Nat) : Memory :=
  memory.overwrite target count (fun i => memory (source + i))

/-- Sets `count` bytes from `start` on to `byte`. -/
def fill (memory : Memory) (start count : Nat) (byte : UInt8) : Memory :=
  memory.overwrite start count (fun _ => byte)

/-- The `count` bytes from `start` on. -/
def read (memory : Memory) (start count : Nat) : List UInt8 :=
  (List.range count).map (fun i => memory (start + i))

--------------------------------------------------------------------------------
-- Stores, seen byte by byte
--------------------------------------------------------------------------------

theorem overwrite_apply (memory : Memory) (start count : Nat) (value : Nat → UInt8)
    (address : Nat)
    : memory.overwrite start count value address
      = if start ≤ address ∧ address < start + count then value (address - start)
        else memory address :=
  rfl

theorem overwrite_of_outside {memory : Memory} {start count : Nat} {value : Nat → UInt8}
    {address : Nat} (outside : address < start ∨ start + count ≤ address)
    : memory.overwrite start count value address = memory address :=
  if_neg (by omega)

theorem overwrite_of_inside {memory : Memory} {start count : Nat} {value : Nat → UInt8}
    {i : Nat} (inside : i < count)
    : memory.overwrite start count value (start + i) = value i := by
  have covered : start ≤ start + i ∧ start + i < start + count := by omega
  rw [overwrite_apply, if_pos covered, Nat.add_sub_cancel_left]

theorem store_apply (memory : Memory) (start width value : Nat) (address : Nat)
    : memory.store start width value address
      = if start ≤ address ∧ address < start + width then wordByte value (address - start)
        else memory address :=
  rfl

--------------------------------------------------------------------------------
-- Words
--------------------------------------------------------------------------------

/-- A load depends on the bytes of its word only. -/
theorem load_congr {left right : Memory} {start width : Nat}
    (agree : ∀ i, i < width → left (start + i) = right (start + i))
    : left.load start width = right.load start width := by
  induction width generalizing start with
  | zero => rfl
  | succ width ih =>
    have first := agree 0 (by omega)
    have later : left.load (start + 1) width = right.load (start + 1) width :=
      ih fun i inside => by
        have next := agree (i + 1) (by omega)
        rwa [show start + (i + 1) = start + 1 + i by omega] at next
    simp only [load, later]
    simp only [Nat.add_zero] at first
    rw [first]

/-- Bytes laid down in little-endian order read back as the number modulo its width. -/
theorem load_wordBytes {memory : Memory} {start width value : Nat}
    (laid : ∀ i, i < width → memory (start + i) = wordByte value i)
    : memory.load start width = value % wordValues width := by
  induction width generalizing start value with
  | zero => simp [load, wordValues, Nat.mod_one]
  | succ width ih =>
    have first := laid 0 (by omega)
    have later : memory.load (start + 1) width = (value / 256) % wordValues width :=
      ih fun i inside => by
        have next := laid (i + 1) (by omega)
        rw [show start + (i + 1) = start + 1 + i by omega] at next
        rw [next, wordByte, wordByte, wordValues, Nat.div_div_eq_div_mul]
    simp only [Nat.add_zero, wordByte, wordValues, Nat.div_one] at first
    have low : (UInt8.ofNat value).toNat = value % 256 := UInt8.toNat_ofNat'
    rw [load, later, first, low, wordValues, Nat.mod_mul]

theorem load_store (memory : Memory) (start width value : Nat)
    : (memory.store start width value).load start width = value % wordValues width :=
  load_wordBytes fun _ inside => overwrite_of_inside inside

theorem load_store_of_outside {memory : Memory} {start width value other count : Nat}
    (outside : other + count ≤ start ∨ start + width ≤ other)
    : (memory.store start width value).load other count = memory.load other count :=
  load_congr fun i inside =>
    have apart : other + i < start ∨ start + width ≤ other + i := by omega
    overwrite_of_outside apart

theorem length_read (memory : Memory) (start count : Nat)
    : (memory.read start count).length = count := by
  simp [read]

end Memory

end Firmware
