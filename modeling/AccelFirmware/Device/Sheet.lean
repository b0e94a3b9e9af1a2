import AccelFirmware.Device.Basic
import AccelFirmware.Text.Numeral

/-!
# Device sheets

A device described in plain text, group by group.
-/

namespace AccelFirmware

namespace Device

def truth : Bool → String
  | true => "true"
  | false => "false"

def wordText (w : UInt32) : String := "0x" ++ hexWide 8 w.toNat

def groupLines (d : Device) : List String :=
  (List.range d.groupCount.toNat).map fun g =>
    "    group " ++ decimal g ++ " ctl: " ++ wordText (d.ctlAddress (UInt8.ofNat g))

def pllLine (d : Device) : String :=
  match d.clocks.pll with
  | some speed => "  PLL: " ++ decimal speed.toNat ++ " MHz"
  | none => "  PLL: none"

def companionLine (d : Device) : String :=
  match d.companion with
  | some m =>
      "  Companion core:       yes (flash " ++ wordText m.codeOrigin ++ ", sram " ++ wordText m.sramOrigin ++ ")"
  | none => "  Companion core:       no"

def sheet (d : Device) : List String :=
  ["=== Device: " ++ d.name ++ " ===",
   "Family: " ++ d.family.title,
   "",
   "--- Accelerator ---",
   "  CNN base:       " ++ wordText d.baseAddress,
   "  Groups:         " ++ decimal d.groupCount.toNat,
   "  Group stride:   " ++ wordText d.groupStride] ++
  d.groupLines ++
  ["  Power control:  " ++ d.powerController.block ++ " (" ++ d.powerController.header ++ ")",
   "",
   "--- Clocks ---",
   "  IPO: " ++ decimal d.clocks.ipo.toNat ++ " MHz",
   "  APB: " ++ decimal d.clocks.apb.toNat ++ " MHz",
   d.pllLine,
   "",
   "--- Features ---",
   "  Modern simulation:    " ++ truth d.modernSim,
   "  One-shot clear:       " ++ truth d.requireOneshotClear,
   "  Semaphore wake bit:   " ++ truth d.requireSemaLpwken,
   d.companionLine]

end Device

end AccelFirmware
