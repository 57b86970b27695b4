import Firmware.Pin

/-! What firmware is built for: the supported boards, or the host that runs its tests. -/

namespace Firmware

/-- A build target. -/
inductive Target where
  | stm32f412
  | stm32f446
  | wgm160p
  /-- Not a board: builds for testing. -/
  | host
deriving DecidableEq, Repr

/-- A range of a board's memory. -/
structure MemoryArea where
  origin : Nat
  size : Nat
deriving DecidableEq, Repr

/-- Where the memory of a board lies. -/
structure MemoryMap where
  flash : MemoryArea
  ram : MemoryArea
deriving DecidableEq, Repr

namespace Target

/-- All targets, boards first. -/
def all : List Target := [stm32f412, stm32f446, wgm160p, host]

/-- The name of a target in configuration files. -/
def name : Target → String
  | stm32f412 => "Stm32F412"
  | stm32f446 => "Stm32F446"
  | wgm160p => "Wgm160P"
  | host => "Host"

/-- The name of a target in messages, and of the feature that enables a board. -/
def featureName : Target → String
  | stm32f412 => "stm32f412"
  | stm32f446 => "stm32f446"
  | wgm160p => "wgm160p"
  | host => "host"

/-- The peripheral that a board dedicates to diagnostics. -/
def debugUart : Target → Option DebugUart
  | stm32f412 | stm32f446 =>
    some { peripheral := "USART2", tx := ⟨'a', 2⟩, rx := ⟨'a', 3⟩, baudRate := 115200 }
  | wgm160p =>
    some { peripheral := "USART0", tx := ⟨'e', 10⟩, rx := ⟨'e', 11⟩, baudRate := 115200 }
  | host => none

/-- The number of bytes in `n` kibibytes. -/
def kibibytes (n : Nat) : Nat := n * 1024

/-- Where the memory of a board lies; the host has no map. -/
def memoryMap : Target → Option MemoryMap
  | stm32f412 =>
    some { flash := ⟨0x08000000, kibibytes 1024⟩, ram := ⟨0x20000000, kibibytes 256⟩ }
  | stm32f446 =>
    some { flash := ⟨0x08000000, kibibytes 512⟩, ram := ⟨0x20000000, kibibytes 128⟩ }
  | wgm160p =>
    some { flash := ⟨0x00000000, kibibytes 1024⟩, ram := ⟨0x20000000, kibibytes 128⟩ }
  | host => none

theorem isSome_memoryMap_iff {target : Target}
    : target.memoryMap.isSome ↔ target ≠ .host := by
  cases target <;> simp [memoryMap]

end Target

end Firmware
