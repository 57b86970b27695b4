import Firmware.Build.Configuration
import Firmware.Crc
import Firmware.Log.Serial

/-! Images: what the parts of the firmware take from the constants they are compiled with. -/

namespace Firmware

namespace Constants

/-- The settings of the log of an image. -/
def logSettings (constants : Constants) : LogSettings where
  level := constants.maxLogLevel
  colored := constants.logColor

/-- The checksum engine of an image. -/
def checksumEngine (constants : Constants) : Crc.Engine :=
  Crc.Engine.ofBuild constants.staticTable

end Constants

/-- The images that are built from known configurations. -/
inductive Image where
  /-- The image for the host. -/
  | host
  | stm32f412
  | stm32f446
  | wgm160p
deriving DecidableEq, Repr

/-- The configuration of an image. -/
def Image.configuration : Image → Configuration
  | host => {}
  | stm32f412 =>
    { target := .stm32f412, heapSize := 16384, logging := { level := .warn, color := true }
      errno := true, table := .static }
  | stm32f446 =>
    { target := .stm32f446, heapSize := 4096, logging := { level := .trace, color := true } }
  | wgm160p => { target := .wgm160p }

end Firmware
