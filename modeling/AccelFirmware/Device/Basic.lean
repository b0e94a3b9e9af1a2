/-!
# Devices

The fixed facts of one microcontroller with an accelerator: where its register file lies, which controller gates its
groups, how fast its clocks run. Addresses are 32-bit words and wrap; `Device.issues` tells when they would.
-/

namespace AccelFirmware

/-- The accelerator generation, which chooses between the older and the current bring-up. -/
inductive Family where
  | ai84
  | ai85
  | ai87
  deriving DecidableEq, Repr

namespace Family

def all : List Family := [.ai84, .ai85, .ai87]

def name : Family → String
  | .ai84 => "ai84"
  | .ai85 => "ai85"
  | .ai87 => "ai87"

def title : Family → String
  | .ai84 => "Ai84"
  | .ai85 => "Ai85"
  | .ai87 => "Ai87"

def isLegacy : Family → Bool
  | .ai84 => true
  | _ => false

end Family

inductive PowerController where
  | bbfc
  | gcfr
  deriving DecidableEq, Repr

namespace PowerController

def all : List PowerController := [.bbfc, .gcfr]

def name : PowerController → String
  | .bbfc => "bbfc"
  | .gcfr => "gcfr"

def block : PowerController → String
  | .bbfc => "MXC_BBFC"
  | .gcfr => "MXC_GCFR"

def header : PowerController → String
  | .bbfc => "bbfc_regs.h"
  | .gcfr => "gcfr_regs.h"

end PowerController

/-- Clock speeds in MHz, for comments in the generated code. -/
structure ClockSpeeds where
  ipo : UInt32
  apb : UInt32
  pll : Option UInt32
  deriving DecidableEq, Repr

/-- Where the companion core finds its code, from the flash cache and from SRAM. -/
structure CompanionMemory where
  codeOrigin : UInt32
  sramOrigin : UInt32
  deriving DecidableEq, Repr

structure Device where
  name : String
  family : Family
  /-- Base of the bus window with the register file. -/
  apbBase : UInt32
  /-- Offset of the control block in that window. -/
  cnnBase : UInt32
  /-- Distance between two groups. -/
  groupStride : UInt32
  ctlRegister : UInt32
  groupCount : UInt8
  powerController : PowerController
  /-- Whether simulations run the current environment, which follows the SDK. -/
  modernSim : Bool
  /-- Whether the interrupt handler also clears the enable bit in one-shot runs. -/
  requireOneshotClear : Bool
  /-- Whether waking the companion takes the low-power bit of the semaphore. -/
  requireSemaLpwken : Bool
  clocks : ClockSpeeds
  companion : Option CompanionMemory
  deriving DecidableEq, Repr

namespace Device

def supportsPll (d : Device) : Bool := d.clocks.pll.isSome

def hasCompanion (d : Device) : Bool := d.companion.isSome

def baseAddress (d : Device) : UInt32 := d.apbBase + d.cnnBase

def ctlAddress (d : Device) (group : UInt8) : UInt32 :=
  d.baseAddress + d.groupStride * group.toUInt32 + d.ctlRegister * 4

def allGroups (d : Device) : UInt32 :=
  if d.groupCount < 32 then (1 <<< d.groupCount.toUInt32) - 1 else 0xffffffff

end Device

end AccelFirmware
