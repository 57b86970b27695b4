/-! Hexadecimal text of natural numbers. -/

namespace Firmware.Hexadecimal

/-- The upper-case digits of a number, with zeros in front up to the given width. A longer number
keeps all its digits. -/
def padded (width n : Nat) : List Char :=
  ((Nat.toDigits 16 n).map Char.toUpper).leftpad width '0'

end Firmware.Hexadecimal
