import Firmware.Crc

/-! Checksums taken bit by bit.
The register of a checksum takes one bit of a message at a time (`takeBit`). A byte that is taken
through a table leaves the register as its eight bits do (`foldl_takeBit_byte`), and the fixed
table holds what the generated one holds (`staticTable_eq`), so both engines compute the same
checksum, and a message may be cut into pieces anywhere (`engines_take_bits`).
-/

namespace Firmware.Crc

--------------------------------------------------------------------------------
-- One bit at a time
--------------------------------------------------------------------------------

/-- The low bits of a number, the lowest first. -/
def lowBits (count n : Nat) : List Bool := (List.range count).map n.testBit

/-- The bits of a message in the order in which they are taken in. -/
def messageBits (bytes : List UInt8) : List Bool := bytes.flatMap fun byte => lowBits 8 byte.toNat

/-- Takes one bit into a register: the lowest bit is shifted out, and the polynomial is subtracted
if the two differ.
-/
def takeBit (register : UInt32) (bit : Bool) : UInt32 :=
  if register.toNat.testBit 0 = bit then register >>> 1 else (register >>> 1) ^^^ 0xEDB88320

/-- Continues a running checksum over the bits of a message. -/
def bitwise (running : UInt32) (bytes : List UInt8) : UInt32 :=
  ~~~ (messageBits bytes).foldl takeBit (~~~ running)

theorem lowBits_succ (count n : Nat)
    : lowBits (count + 1) n = n.testBit 0 :: lowBits count (n / 2) := by
  rw [lowBits, List.range_succ_eq_map, List.map_cons, List.map_map]
  congr 2
  funext i
  exact Nat.testBit_succ n i

theorem lowBits_congr {count m n : Nat} (agree : ∀ i, i < count → m.testBit i = n.testBit i)
    : lowBits count m = lowBits count n :=
  List.map_congr_left fun i member => agree i (List.mem_range.mp member)

theorem lowest_iff (value : UInt32) : value &&& 1 = 1 ↔ value.toNat.testBit 0 = true := by
  have lowest : (value &&& 1).toNat = value.toNat % 2 := by
    rw [UInt32.toNat_and]
    exact Nat.and_one_is_mod value.toNat
  rw [← UInt32.toNat_inj, lowest, Nat.testBit_zero, decide_eq_true_iff]
  rfl

/-- A number that is added to the register before a shift is its lowest bit taken in, and its other
bits added to what is left.
-/
theorem shift_xor (register n : UInt32)
    : shift (register ^^^ n) = takeBit register (n.toNat.testBit 0) ^^^ (n >>> 1) := by
  simp only [takeBit, shift, lowest_iff, UInt32.toNat_xor, Nat.testBit_xor, UInt32.shiftRight_xor]
  have swap : (register >>> 1) ^^^ (n >>> 1) ^^^ polynomial
      = (register >>> 1) ^^^ polynomial ^^^ (n >>> 1) := by
    ac_rfl
  cases register.toNat.testBit 0 <;> cases n.toNat.testBit 0
  case false.false | true.true => rfl
  case false.true | true.false => exact swap

/-- The low bits of a number taken in one by one, by induction on how many they are. -/
theorem foldl_takeBit (count : Nat) (register n : UInt32)
    : (lowBits count n.toNat).foldl takeBit register
      = shiftTimes count (register ^^^ n) ^^^ UInt32.ofNat (n.toNat >>> count) := by
  induction count generalizing register n with
  | zero =>
      rw [Nat.shiftRight_zero, UInt32.ofNat_toNat, shiftTimes, UInt32.xor_assoc, UInt32.xor_self,
        UInt32.xor_zero]
      rfl
  | succ count ih =>
      have rest : (n >>> 1).toNat = n.toNat / 2 := UInt32.toNat_shiftRight n 1
      rw [lowBits_succ, List.foldl_cons, ← rest, ih, ← shift_xor, rest, shiftTimes,
        Nat.shiftRight_succ_inside]

--------------------------------------------------------------------------------
-- One byte at a time
--------------------------------------------------------------------------------

theorem staticTable_toList
    : staticTable.toList = (List.range 256).map fun i => shiftTimes 8 (UInt32.ofNat i) := by
  decide +kernel

/-- The fixed table is the one that is generated from the polynomial. -/
theorem staticTable_eq : staticTable = generatedTable := by
  refine Vector.ext fun i inTable => ?_
  have inList : i < staticTable.toList.length := by simpa using inTable
  have listed : staticTable.toList[i] = shiftTimes 8 (UInt32.ofNat i) := by
    simp only [staticTable_toList, List.getElem_map, List.getElem_range]
  rw [Vector.getElem_toList] at listed
  rw [listed, generatedTable, Vector.getElem_ofFn]

theorem table_eq (engine : Engine) : engine.table = generatedTable := by
  cases engine with
  | static => exact staticTable_eq
  | generated => rfl

theorem shiftRight_byte (byte : UInt8) : byte.toNat >>> 8 = 0 :=
  Nat.shiftRight_eq_zero byte.toNat 8 byte.toNat_lt

/-- Shifting a number out is taking in its low bits, with its other bits added to what is left. -/
theorem shiftTimes_eq (count : Nat) (n : UInt32)
    : shiftTimes count n
      = (lowBits count n.toNat).foldl takeBit 0 ^^^ UInt32.ofNat (n.toNat >>> count) := by
  rw [foldl_takeBit, UInt32.zero_xor, UInt32.xor_assoc, UInt32.xor_self, UInt32.xor_zero]

theorem get_generatedTable (byte : UInt8)
    : generatedTable.get ⟨byte.toNat, byte.toNat_lt⟩
      = (lowBits 8 byte.toNat).foldl takeBit 0 := by
  have inTable : byte.toNat < 256 := byte.toNat_lt
  have entry : generatedTable[byte.toNat] = shiftTimes 8 (UInt32.ofNat byte.toNat) :=
    Vector.getElem_ofFn inTable
  have value : (UInt32.ofNat byte.toNat).toNat = byte.toNat :=
    UInt32.toNat_ofNat_of_lt' (Nat.lt_trans inTable (by decide))
  rw [shiftTimes_eq, value, shiftRight_byte] at entry
  exact entry.trans UInt32.xor_zero

/-- A byte taken through the table leaves the register as its eight bits do: the table holds what
the low byte of the register and the byte come to, and the rest of the register is shifted down.
-/
theorem foldl_takeBit_byte (engine : Engine) (register : UInt32) (byte : UInt8)
    : (lowBits 8 byte.toNat).foldl takeBit register = step engine.table register byte := by
  have sum : (register ^^^ byte.toUInt32).toNat = register.toNat ^^^ byte.toNat := by
    rw [UInt32.toNat_xor, UInt8.toNat_toUInt32]
  have low : lowBits 8 (register ^^^ byte.toUInt32).toNat
      = lowBits 8 (register.toUInt8 ^^^ byte).toNat := by
    refine lowBits_congr fun i short => ?_
    rw [sum, Nat.testBit_xor, UInt8.toNat_xor, UInt32.toNat_toUInt8, Nat.testBit_xor,
      Nat.testBit_mod_two_pow, decide_eq_true short, Bool.true_and]
  have high : UInt32.ofNat ((register ^^^ byte.toUInt32).toNat >>> 8) = register >>> 8 := by
    have shifted : (register >>> 8).toNat = register.toNat >>> 8 :=
      UInt32.toNat_shiftRight register 8
    rw [sum, Nat.shiftRight_xor_distrib, shiftRight_byte, Nat.xor_zero, ← shifted,
      UInt32.ofNat_toNat]
  calc (lowBits 8 byte.toNat).foldl takeBit register
      = shiftTimes 8 (register ^^^ byte.toUInt32) := by
        rw [← UInt8.toNat_toUInt32, foldl_takeBit, UInt8.toNat_toUInt32, shiftRight_byte]
        exact UInt32.xor_zero
    _ = (lowBits 8 (register.toUInt8 ^^^ byte).toNat).foldl takeBit 0 ^^^ (register >>> 8) := by
        rw [shiftTimes_eq, low, high]
    _ = step engine.table register byte := by
        rw [step, table_eq, get_generatedTable]

--------------------------------------------------------------------------------
-- Messages
--------------------------------------------------------------------------------

/-- A message taken through the table leaves the register as its bits do, by induction on it. -/
theorem foldl_takeBit_message (engine : Engine) (register : UInt32) (bytes : List UInt8)
    : (messageBits bytes).foldl takeBit register = bytes.foldl (step engine.table) register := by
  induction bytes generalizing register with
  | nil => rfl
  | cons byte rest ih =>
      rw [messageBits, List.flatMap_cons, List.foldl_append, foldl_takeBit_byte engine,
        List.foldl_cons]
      exact ih _

theorem update_eq_bitwise (engine : Engine) (running : UInt32) (bytes : List UInt8)
    : update engine running bytes = bitwise running bytes := by
  rw [update, updateWith, bitwise, foldl_takeBit_message engine]

/-- The complement at the end of a piece is undone at the start of the next one. -/
theorem bitwise_append (running : UInt32) (bytes more : List UInt8)
    : bitwise (bitwise running bytes) more = bitwise running (bytes ++ more) := by
  simp only [bitwise, messageBits, UInt32.not_not, List.flatMap_append, List.foldl_append]

/-- Continues a running checksum over the pieces of a message, each with an engine of its own. -/
def updatePieces (running : UInt32) (pieces : List (Engine × List UInt8)) : UInt32 :=
  pieces.foldl (fun running piece => update piece.1 running piece.2) running

theorem updatePieces_eq_bitwise (running : UInt32) (pieces : List (Engine × List UInt8))
    : updatePieces running pieces = bitwise running (pieces.flatMap Prod.snd) := by
  induction pieces generalizing running with
  | nil => exact UInt32.not_not.symm
  | cons piece rest ih =>
      rw [List.flatMap_cons, ← bitwise_append, ← ih, ← update_eq_bitwise piece.1]
      rfl

--------------------------------------------------------------------------------
-- Main statement
--------------------------------------------------------------------------------

/-- Either engine continues a running checksum by the bits of the message, the register starting
and ending complemented. So the two engines agree, a checksum of two pieces is that of the message
they make up, and the checksum of a message is the running checksum over any pieces of it, whichever
engine takes which piece.
-/
theorem engines_take_bits (engine other : Engine) (running : UInt32) (bytes more : List UInt8)
    (pieces : List (Engine × List UInt8))
    : update engine running bytes = bitwise running bytes
      ∧ update engine running bytes = update other running bytes
      ∧ update other (update engine running bytes) more = update engine running (bytes ++ more)
      ∧ updatePieces running pieces = update engine running (pieces.flatMap Prod.snd)
      ∧ updatePieces 0 pieces = checksum engine (pieces.flatMap Prod.snd) := by
  refine ⟨update_eq_bitwise .., ?_, ?_, ?_, ?_⟩
  · rw [update_eq_bitwise, update_eq_bitwise]
  · rw [update_eq_bitwise, update_eq_bitwise, update_eq_bitwise, bitwise_append]
  · rw [updatePieces_eq_bitwise, update_eq_bitwise]
  · rw [updatePieces_eq_bitwise, checksum, update_eq_bitwise]

/-- The published check value: the checksum of the digits from 1 to 9. -/
example : checksum .static [49, 50, 51, 52, 53, 54, 55, 56, 57] = 0xCBF43926 := by decide +kernel

end Firmware.Crc
