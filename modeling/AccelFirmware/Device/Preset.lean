import AccelFirmware.Device.Basic

/-!
# Built-in devices
-/

namespace AccelFirmware

namespace Device

def ai84 : Device where
  name := "ai84"
  family := .ai84
  apbBase := 0x50100000
  cnnBase := 0
  groupStride := 0x00100000
  ctlRegister := 0
  groupCount := 4
  powerController := .bbfc
  modernSim := false
  requireOneshotClear := false
  requireSemaLpwken := false
  clocks := ⟨96, 48, none⟩
  companion := none

def ai85 : Device where
  name := "ai85"
  family := .ai85
  apbBase := 0x50000000
  cnnBase := 0x00100000
  groupStride := 0x00400000
  ctlRegister := 0
  groupCount := 4
  powerController := .bbfc
  modernSim := true
  requireOneshotClear := true
  requireSemaLpwken := false
  clocks := ⟨100, 50, none⟩
  companion := some ⟨0x10080000, 0x2001c000⟩

def ai87 : Device where
  name := "ai87"
  family := .ai87
  apbBase := 0x50000000
  cnnBase := 0x00100000
  groupStride := 0x00400000
  ctlRegister := 0
  groupCount := 4
  powerController := .gcfr
  modernSim := true
  requireOneshotClear := false
  requireSemaLpwken := true
  clocks := ⟨120, 60, some 200⟩
  companion := some ⟨0x10300000, 0x20051000⟩

end Device

structure Preset where
  device : Device
  summary : String
  deriving DecidableEq, Repr

namespace Preset

def all : List Preset :=
  [⟨.ai84, "First-generation CNN accelerator (legacy SDK, single core)"⟩,
   ⟨.ai85, "Dual-core Cortex-M4 + RISC-V, BBFC power control"⟩,
   ⟨.ai87, "Dual-core Cortex-M4 + RISC-V, GCFR power control, PLL"⟩]

def find? (name : String) : Option Device :=
  (all.find? (·.device.name == name)).map (·.device)

end Preset

/-- A device to start a file of one's own from. -/
def Device.template (name : String) : Device := { ai85 with name }

end AccelFirmware
