import Firmware.Text.Decimal
import Firmware.Text.Utf8

/-! Pins, and the serial peripheral that a board dedicates to diagnostics. -/

namespace Firmware

/-- A pin of a board: a bank, named by a character, and a number in it. -/
structure Pin where
  bank : Char
  index : UInt8
deriving DecidableEq, Repr

/-- A serial peripheral with its pins and its speed in baud. -/
structure DebugUart where
  peripheral : String
  tx : Pin
  rx : Pin
  baudRate : Nat
deriving DecidableEq, Repr

namespace Pin

/-- The name of a pin as text: `P`, the bank, and the number. -/
def text (pin : Pin) : List Char :=
  'P' :: pin.bank :: Decimal.digits pin.index.toNat

/-- The name of a pin as it goes over a serial line, piece by piece: the bank is encoded on its
own. -/
def pieces (pin : Pin) : List (List UInt8) :=
  [Utf8.ofString "P", Utf8.encodeChar pin.bank, Utf8.encode (Decimal.digits pin.index.toNat)]

end Pin

end Firmware
