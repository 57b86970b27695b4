import Firmware.Build.Target
import Firmware.Text.Hexadecimal

/-! The linker script of a board: where its memory lies, and how much there is of it.
Origins are written with eight hexadecimal digits, sizes in kibibytes.
-/

namespace Firmware.LinkerScript

/-- The line of a memory area. -/
def line (name : String) (area : MemoryArea) : List Char :=
  name.toList ++ " : ORIGIN = 0x".toList ++ Hexadecimal.padded 8 area.origin
    ++ ", LENGTH = ".toList ++ Decimal.digits (area.size / 1024) ++ ['K']

/-- The text of a linker script. -/
def text (map : MemoryMap) : String :=
  String.ofList <|
    "MEMORY\n\x7b\n".toList ++ line "FLASH" map.flash ++ ['\n'] ++ line "RAM" map.ram
      ++ "\n\x7d\n".toList

end Firmware.LinkerScript
