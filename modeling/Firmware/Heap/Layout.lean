import Firmware.Memory

/-! Layouts: the size and alignment with which typed code asks for memory. -/

namespace Firmware

/-- A size and an alignment that a block can have: the alignment is a power of two, and the size
rounded up to it does not pass half of the address space. -/
structure Layout where
  size : Nat
  alignment : Nat
  powerOfTwo : alignment.isPowerOfTwo
  size_le : size + alignment ≤ largestExtent

namespace Layout

/-- The layout of `size` bytes aligned to `alignment`, if there is one. -/
def ofSize? (size alignment : Nat) : Option Layout :=
  if proof : alignment.isPowerOfTwo ∧ size + alignment ≤ largestExtent then
    some { size, alignment, powerOfTwo := proof.1, size_le := proof.2 }
  else none

/-- The text of the error for a layout that does not exist. -/
def invalidMessage : String := "invalid parameters to Layout::from_size_align"

end Layout

end Firmware
