import AccelFirmware.Device.Basic
import AccelFirmware.Text.Blank
import AccelFirmware.Text.Numeral

/-!
# Consistency of a device

Every way in which a device can be inconsistent, each with its condition, severity and wording. A device is usable when
none of its issues is an error.
-/

namespace AccelFirmware

inductive Severity where
  | error
  | warning
  deriving DecidableEq, Repr

inductive DeviceIssue where
  | emptyName
  | groupCount (count : UInt8)
  | misaligned
  | zeroStride
  | addressOverflow
  | legacyPowerController
  | legacyCompanion
  | legacyModernSim
  | zeroOrigin
  | unusedLpwken
  | zeroClock
  deriving DecidableEq, Repr

namespace DeviceIssue

def severity : DeviceIssue → Severity
  | .legacyModernSim | .unusedLpwken => .warning
  | _ => .error

def message : DeviceIssue → String
  | .emptyName => "device name is empty"
  | .groupCount count => "group count " ++ decimal count.toNat ++ " is out of range (expected 1..=16)"
  | .misaligned => "apb-base, cnn-base and group-stride must be word aligned"
  | .zeroStride => "group-stride is 0 but the device has more than one group"
  | .addressOverflow => "group control registers overflow the 32-bit address space"
  | .legacyPowerController => "ai84-family parts have no GCFR power controller"
  | .legacyCompanion => "ai84-family parts have no companion core"
  | .legacyModernSim => "modern-sim is set on an ai84-family part; legacy simulation paths will be skipped"
  | .zeroOrigin => "companion code and SRAM origins must be non-zero"
  | .unusedLpwken => "require-sema-lpwken has no effect without a companion core"
  | .zeroClock => "clock labels must be non-zero"

end DeviceIssue

/-! ## Checked words -/

/-- A sum that still fits in a word. -/
def addChecked (a b : UInt32) : Option UInt32 :=
  if a.toNat + b.toNat < UInt32.size then some (a + b) else none

def mulChecked (a b : UInt32) : Option UInt32 :=
  if a.toNat * b.toNat < UInt32.size then some (a * b) else none

namespace Device

/-- The highest group; group zero when there is none. -/
def lastGroup (d : Device) : UInt8 :=
  if d.groupCount = 0 then 0 else d.groupCount - 1

/-- The control register of the last group, `none` if a step towards it leaves the address space. -/
def lastCtl? (d : Device) : Option UInt32 := do
  let base ← addChecked d.apbBase d.cnnBase
  let group ← addChecked base (← mulChecked d.groupStride d.lastGroup.toUInt32)
  addChecked group (← mulChecked d.ctlRegister 4)

/-- Whether a device has an issue, in the order of reports. -/
def findings (d : Device) : List (DeviceIssue × Bool) :=
  [(.emptyName, allBlank d.name),
   (.groupCount d.groupCount, d.groupCount = 0 || d.groupCount > 16),
   (.misaligned, d.apbBase % 4 ≠ 0 || d.cnnBase % 4 ≠ 0 || d.groupStride % 4 ≠ 0),
   (.zeroStride, d.groupCount > 1 && d.groupStride = 0),
   (.addressOverflow, d.lastCtl?.isNone),
   (.legacyPowerController, d.family = .ai84 && d.powerController = .gcfr),
   (.legacyCompanion, d.family = .ai84 && d.companion.isSome),
   (.legacyModernSim, d.family = .ai84 && d.modernSim),
   (.zeroOrigin, d.companion.any fun m => m.codeOrigin = 0 || m.sramOrigin = 0),
   (.unusedLpwken, d.requireSemaLpwken && d.companion.isNone),
   (.zeroClock, d.clocks.ipo = 0 || d.clocks.apb = 0)]

def issues (d : Device) : List DeviceIssue :=
  (d.findings.filter (·.2)).map (·.1)

def errors (d : Device) : List DeviceIssue :=
  d.issues.filter (·.severity = .error)

def warnings (d : Device) : List DeviceIssue :=
  d.issues.filter (·.severity = .warning)

end Device

end AccelFirmware
