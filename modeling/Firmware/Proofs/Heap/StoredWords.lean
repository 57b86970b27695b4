import Firmware.Heap.BlockHeader
import Firmware.Proofs.Heap.Extents

/-! What words, headers and hole nodes leave in memory.
A header that was wiped can be written again byte for byte (`stamp_retire`). Hole nodes touch the
holes only (`storeNodes_of_uncovered`) and never put the first byte of a live tag at a multiple
of eight (`storeNodes_tagFree`): sizes and addresses of holes are multiples of eight, that byte
is not.
-/

namespace Firmware

namespace Memory

/-- The byte does not start a live tag, since it is a multiple of eight. -/
def TagFree (memory : Memory) (address : Nat) : Prop := (memory address).toNat % 8 = 0

/-- A loaded word has the bytes that it was loaded from. -/
theorem wordByte_load (memory : Memory) (start : Nat) {width i : Nat} (inside : i < width)
    : wordByte (memory.load start width) i = memory (start + i) := by
  induction width generalizing start i with
  | zero => cases inside
  | succ width ih =>
      have low := UInt8.toNat_lt (memory start)
      cases i with
      | zero =>
          apply UInt8.toNat.inj
          simp only [wordByte, wordValues, load, Nat.div_one, UInt8.toNat_ofNat', Nat.add_zero]
          omega
      | succ i =>
          have later := ih (start + 1) (Nat.lt_of_succ_lt_succ inside)
          rw [show start + (i + 1) = start + 1 + i by omega, ← later, wordByte, wordByte, load,
            wordValues, ← Nat.div_div_eq_div_mul]
          congr 2
          omega

/-- A store of a multiple of eight at a multiple of eight keeps every such byte tag-free. -/
theorem store_tagFree {memory : Memory} {start width value address : Nat} (short : width ≤ 8)
    (startAligned : start % 8 = 0) (valueAligned : value % 8 = 0) (aligned : address % 8 = 0)
    (free : memory.TagFree address)
    : (memory.store start width value).TagFree address := by
  by_cases inside : start ≤ address ∧ address < start + width
  · obtain rfl : address = start := by omega
    simp only [TagFree, store_apply, if_pos inside, Nat.sub_self, wordByte, wordValues,
      Nat.div_one, UInt8.toNat_ofNat']
    omega
  · rw [TagFree, store_apply, if_neg inside]
    exact free

theorem read_congr {left right : Memory} {start otherStart count : Nat}
    (agree : ∀ i, i < count → left (start + i) = right (otherStart + i))
    : left.read start count = right.read otherStart count :=
  List.map_congr_left fun i member => agree i (List.mem_range.mp member)

theorem read_eq_replicate {memory : Memory} {start count : Nat} {byte : UInt8}
    (all : ∀ i, i < count → memory (start + i) = byte)
    : memory.read start count = List.replicate count byte :=
  List.eq_replicate_iff.mpr ⟨length_read .., by simpa [read] using all⟩

theorem take_read (memory : Memory) (start count n : Nat)
    : (memory.read start count).take n = memory.read start (min n count) := by
  rw [read, ← List.map_take, List.take_range, read]

theorem read_append (memory : Memory) (start count more : Nat)
    : memory.read start (count + more)
      = memory.read start count ++ memory.read (start + count) more := by
  simp only [read, List.range_add, List.map_append, List.map_map]
  congr 2
  funext i
  exact congrArg memory (Nat.add_assoc ..).symm

theorem drop_read (memory : Memory) (start count more : Nat)
    : (memory.read start (count + more)).drop count = memory.read (start + count) more := by
  rw [read_append, List.drop_left' (length_read ..)]

theorem read_overwritten {memory : Memory} {start : Nat} {bytes : List UInt8}
    : (memory.overwrite start bytes.length fun i => bytes.getD i 0).read start bytes.length
      = bytes := by
  refine List.ext_getElem (length_read ..) fun i short inBytes => ?_
  simp [read, overwrite_of_inside inBytes, inBytes]

/-- Reading a range after a part of it was overwritten: the range comes apart into what lies before
the part, the part, and what lies behind it.
-/
theorem read_overwrite {memory : Memory} {start count offset : Nat} {bytes : List UInt8}
    (inside : offset + bytes.length ≤ count)
    : (memory.overwrite (start + offset) bytes.length fun i => bytes.getD i 0).read start count
      = (memory.read start count).take offset ++ bytes
        ++ (memory.read start count).drop (offset + bytes.length) := by
  obtain ⟨rest, rfl⟩ := Nat.exists_eq_add_of_le inside
  have fits : offset ≤ offset + bytes.length + rest := by omega
  rw [take_read, Nat.min_eq_left fits, drop_read, read_append, read_append, read_overwritten]
  congr 1
  · congr 1
    refine read_congr fun i short => overwrite_of_outside ?_
    omega
  · refine read_congr fun i short => overwrite_of_outside ?_
    omega

end Memory

--------------------------------------------------------------------------------
-- Headers
--------------------------------------------------------------------------------

namespace BlockHeader

theorem blockOf_rawOf {block : Nat} (afterHeader : size ≤ block) : blockOf (rawOf block) = block :=
  Nat.sub_add_cancel afterHeader

/-- Whether a block is live, and with which size, is decided by the bytes in front of it. -/
theorem inspect_congr_front {left right : Memory} {block : Nat} (afterHeader : size ≤ block)
    (agree : ∀ address, rawOf block ≤ address → address < block → left address = right address)
    : inspect left block = inspect right block := by
  rw [← blockOf_rawOf afterHeader]
  refine inspect_congr fun i short => agree _ (Nat.le_add_right ..) ?_
  simp only [rawOf, size] at *
  omega

theorem load_of_inspect {memory : Memory} {block usable : Nat}
    (live : inspect memory block = some usable)
    : memory.load (rawOf block) 4 = liveTag ∧ memory.load (rawOf block + 4) 4 = usable := by
  rw [inspect] at live
  split at live
  · next tagged => exact ⟨tagged, Option.some.inj live⟩
  · cases live

/-- A block whose header starts with a multiple of eight is not live. -/
theorem inspect_of_tagFree {memory : Memory} {block : Nat}
    (free : memory.TagFree (rawOf block))
    : inspect memory block = none := by
  rw [inspect, if_neg]
  intro tagged
  have first : Memory.wordByte (memory.load (rawOf block) 4) 0 = memory (rawOf block) :=
    Memory.wordByte_load memory (rawOf block) (by decide)
  rw [tagged] at first
  rw [Memory.TagFree, ← first] at free
  exact absurd free (by decide)

/-- Writing the old header again undoes wiping its tag: the wiped bytes were those of the live
tag, and the size was left in place.
-/
theorem stamp_retire {memory : Memory} {block usable : Nat}
    (live : inspect memory block = some usable)
    : stamp (retire memory (rawOf block)) (rawOf block) usable = memory := by
  obtain ⟨tagged, recorded⟩ := load_of_inspect live
  funext address
  simp only [stamp, Memory.store_apply]
  by_cases inSize : rawOf block + 4 ≤ address ∧ address < rawOf block + 4 + 4
  · have short : address - (rawOf block + 4) < 4 := by omega
    rw [if_pos inSize, ← recorded, Memory.wordByte_load memory _ short,
      Nat.add_sub_cancel' inSize.1]
  rw [if_neg inSize]
  by_cases inTag : rawOf block ≤ address ∧ address < rawOf block + 4
  · have short : address - rawOf block < 4 := by omega
    rw [if_pos inTag, ← tagged, Memory.wordByte_load memory _ short, Nat.add_sub_cancel' inTag.1]
  · rw [if_neg inTag, retire_of_outside (by omega)]

/-- A header leaves the usable bytes behind it alone. -/
theorem stamp_usable (memory : Memory) (raw usable i : Nat)
    : stamp memory raw usable (blockOf raw + i) = memory (blockOf raw + i) :=
  stamp_of_outside <| by
    simp only [blockOf, size]
    omega

theorem retire_usable (memory : Memory) {block : Nat} (afterHeader : size ≤ block) (i : Nat)
    : retire memory (rawOf block) (block + i) = memory (block + i) :=
  retire_of_outside <| by
    simp only [rawOf, size] at *
    omega

theorem retire_tagFree (memory : Memory) (raw : Nat) : (retire memory raw).TagFree raw := by
  have inside : raw ≤ raw ∧ raw < raw + 4 := by omega
  simp only [Memory.TagFree, retire, Memory.store_apply, if_pos inside, Nat.sub_self]
  decide

end BlockHeader

--------------------------------------------------------------------------------
-- Hole nodes
--------------------------------------------------------------------------------

namespace Pool

/-- The address that the node before these holes links to. -/
def nextStart : List Extent → Nat
  | [] => 0
  | hole :: _ => hole.start

/-- Memory holds the node of every hole: its size, and a link to the next hole. -/
def NodesStored (memory : Memory) : List Extent → Prop
  | [] => True
  | hole :: rest =>
      memory.load hole.start 8 = hole.size % addressSpace
      ∧ memory.load (hole.start + 8) 8 = nextStart rest % addressSpace
      ∧ NodesStored memory rest

theorem storeNodes_cons (memory : Memory) (hole : Extent) (rest : List Extent)
    : storeNodes memory (hole :: rest)
      = storeNodes (storeNode memory hole (nextStart rest)) rest := by
  cases rest <;> rfl

theorem storeNode_of_outside {memory : Memory} {hole : Extent} {next address : Nat}
    (outside : address < hole.start ∨ hole.start + leastHole ≤ address)
    : storeNode memory hole next address = memory address := by
  simp only [leastHole] at outside
  have notLink : address < hole.start + 8 ∨ hole.start + 8 + 8 ≤ address := by omega
  have notSize : address < hole.start ∨ hole.start + 8 ≤ address := by omega
  rw [storeNode, Memory.store, Memory.overwrite_of_outside notLink, Memory.store,
    Memory.overwrite_of_outside notSize]

theorem storeNode_of_not_contains {memory : Memory} {hole : Extent} {next address : Nat}
    (regular : hole.Regular) (outside : ¬ hole.Contains address)
    : storeNode memory hole next address = memory address := by
  refine storeNode_of_outside ?_
  have least := regular.least
  simp only [Extent.Contains, Extent.stop] at outside
  omega

theorem storeNode_tagFree {memory : Memory} {hole : Extent} {next address : Nat}
    (regular : hole.Regular) (nextAligned : next % 8 = 0) (aligned : address % 8 = 0)
    (free : memory.TagFree address)
    : (storeNode memory hole next).TagFree address := by
  have startAligned := regular.startAligned
  refine Memory.store_tagFree (Nat.le_refl 8) (by omega) nextAligned aligned ?_
  exact Memory.store_tagFree (Nat.le_refl 8) startAligned regular.sizeAligned aligned free

/-- The nodes of holes lie in the holes, by induction on the holes. -/
theorem storeNodes_of_uncovered {memory : Memory} {holes : List Extent} {address : Nat}
    (regular : ∀ hole ∈ holes, hole.Regular) (outside : ¬ Covers holes address)
    : storeNodes memory holes address = memory address := by
  induction holes generalizing memory with
  | nil => rfl
  | cons hole rest ih =>
      rw [covers_cons, not_or] at outside
      rw [storeNodes_cons, ih (fun other member => regular other (by simp [member])) outside.2,
        storeNode_of_not_contains (regular hole (by simp)) outside.1]

theorem nextStart_mod {holes : List Extent} (regular : ∀ hole ∈ holes, hole.Regular)
    : nextStart holes % 8 = 0 := by
  cases holes with
  | nil => rfl
  | cons hole rest => exact (regular hole (by simp)).startAligned

/-- The nodes of holes start no live tag, by induction on the holes. -/
theorem storeNodes_tagFree {memory : Memory} {holes : List Extent} {address : Nat}
    (regular : ∀ hole ∈ holes, hole.Regular) (aligned : address % 8 = 0)
    (free : memory.TagFree address)
    : (storeNodes memory holes).TagFree address := by
  induction holes generalizing memory with
  | nil => exact free
  | cons hole rest ih =>
      have restRegular := fun other member => regular other (List.mem_cons_of_mem hole member)
      rw [storeNodes_cons]
      exact ih restRegular
        (storeNode_tagFree (regular hole (by simp)) (nextStart_mod restRegular) aligned free)

/-- Stored nodes depend on the bytes of the holes only. -/
theorem NodesStored.congr {left right : Memory} {holes : List Extent}
    (stored : NodesStored left holes) (regular : ∀ hole ∈ holes, hole.Regular)
    (agree : ∀ address, Covers holes address → right address = left address)
    : NodesStored right holes := by
  induction holes with
  | nil => trivial
  | cons hole rest ih =>
      obtain ⟨sizeStored, linkStored, restStored⟩ := stored
      have least := (regular hole (by simp)).least
      simp only [leastHole] at least
      have inHole : ∀ i, i < 16 → right (hole.start + i) = left (hole.start + i) := by
        intro i short
        refine agree _ ⟨hole, by simp, ?_⟩
        simp only [Extent.Contains, Extent.stop]
        omega
      refine ⟨?_, ?_, ?_⟩
      · rw [← sizeStored]
        exact Memory.load_congr fun i short => inHole i (by omega)
      · rw [← linkStored]
        refine Memory.load_congr fun i short => ?_
        rw [Nat.add_assoc]
        exact inHole (8 + i) (by omega)
      · refine ih restStored (fun other member => regular other (by simp [member])) ?_
        intro address held
        exact agree address ((covers_cons ..).mpr (Or.inr held))

/-- Storing the nodes of separated holes leaves all of them in memory: the nodes that are written
later lie in later holes.
-/
theorem storeNodes_stored {memory : Memory} {holes : List Extent}
    (regular : ∀ hole ∈ holes, hole.Regular) (separated : Separated holes)
    : NodesStored (storeNodes memory holes) holes := by
  induction holes generalizing memory with
  | nil => trivial
  | cons hole rest ih =>
      obtain ⟨holeBefore, restSeparated⟩ := List.pairwise_cons.mp separated
      have restRegular := fun other member => regular other (List.mem_cons_of_mem hole member)
      have least := (regular hole (by simp)).least
      simp only [leastHole] at least
      have kept : ∀ i, i < 16 →
          storeNodes (storeNode memory hole (nextStart rest)) rest (hole.start + i)
            = storeNode memory hole (nextStart rest) (hole.start + i) := by
        intro i short
        refine storeNodes_of_uncovered restRegular ?_
        rintro ⟨other, member, held⟩
        have order := holeBefore other member
        simp only [Extent.Before, Extent.Contains, Extent.stop] at *
        omega
      rw [storeNodes_cons]
      refine ⟨?_, ?_, ih restRegular restSeparated⟩
      · rw [Memory.load_congr fun i short => kept i (by omega), storeNode,
          Memory.load_store_of_outside (by omega), Memory.load_store]
        rfl
      · have keptLink : ∀ i, i < 8 →
            storeNodes (storeNode memory hole (nextStart rest)) rest (hole.start + 8 + i)
              = storeNode memory hole (nextStart rest) (hole.start + 8 + i) := by
          intro i short
          rw [Nat.add_assoc]
          exact kept (8 + i) (by omega)
        rw [Memory.load_congr keptLink, storeNode, Memory.load_store]
        rfl

end Pool

end Firmware
