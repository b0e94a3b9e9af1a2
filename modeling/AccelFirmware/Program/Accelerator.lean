import AccelFirmware.Program.Completion
import AccelFirmware.Program.Core
import AccelFirmware.Program.Gpio

/-!
# Switching the accelerator on and off

Power, clock and interrupt of the accelerator. The combined layout has the code in `main`; the split layout has it in
`cnn_enable()` and `cnn_disable()`, which take the clock as parameters and are called from `main`.
-/

namespace AccelFirmware.Plan

variable (p : Plan)

/-! ## On -/

def measureBasePower : List Operation :=
  [callEmitted "cnn_disable" [] (some "Disable clock and power to CNN"),
   .comment "Enable primary clock",
   callProvided "MXC_SYS_ClockSourceEnable" ["MXC_SYS_CLOCK_IPO"],
   .blank,
   .statement "printf(\"Measuring system base power...\\n\");",
   .statement "SYS_START;",
   match p.config.topology with
   | .companion => callProvided "MXC_TMR_Delay" ["MXC_TMR0", "1000000"]
   | .singleCore | .armHost => callProvided "MXC_Delay" ["SEC(1)"],
   .statement "SYS_COMPLETE;"]

/-- The clock that `main` asks for: its speed in MHz and its selector. -/
def requestedClock : UInt32 × String :=
  match p.device.clocks.pll with
  | some pll =>
      if p.config.pll then (pll, ClockSource.ito.selector) else (p.device.clocks.apb, ClockSource.pclk.selector)
  | none => (p.device.clocks.apb, ClockSource.pclk.selector)

def enableCall : List Operation :=
  [.comment "Enable peripheral, enable CNN interrupt, turn on CNN clock",
   .comment ("CNN clock: " ++ decimal p.requestedClock.1.toNat ++ " MHz div 1"),
   callEmitted "cnn_enable" [p.requestedClock.2, (ClockDivider.fixed 1).selector]]

def enableSignature : Signature := ⟨"int", "cnn_enable", "uint32_t clock_source, uint32_t clock_divider"⟩

def enableClock : List Operation :=
  if p.config.isSplit then selectClock .parameter .parameter none p.device
  else if p.config.pll then selectClock .ito (.fixed 1) (some "CNN clock: PLL div 1") p.device
  else selectClock .pclk (.fixed 1) (some "CNN clock: APB div 1") p.device

/-- Power, clock and interrupt, in this order. -/
def enableBody : List Operation :=
  p.powerUp ++ [.blank] ++ p.enableClock ++
  [callProvided "MXC_SYS_ClockEnable" ["MXC_SYS_PERIPH_CLOCK_CNN"] (some "Enable CNN clock"), .blank] ++
  p.completionVector

def acceleratorBringUp : List Action :=
  if p.sdkRuntime then
    (if p.config.measureEnergy then [.push .main p.measureBasePower] else []) ++
    (if p.config.isSplit then
      [.push .main p.enableCall, .function .api enableSignature p.enableBody (some "CNN_OK")]
     else [.push .main p.enableBody]) ++
    p.boostOn ++ [.push .main [.blank]]
  else []

/-! ## Off -/

def shutdown : List Operation :=
  (if p.sdkRuntime then
    [.comment "Disable CNN clock", callProvided "MXC_SYS_ClockDisable" ["MXC_SYS_PERIPH_CLOCK_CNN"], .blank]
   else []) ++
  powerSequence p.device.powerController .down p.mask

def disableFunction : Action := .function .api (.status "cnn_disable") p.shutdown (some "CNN_OK")

def acceleratorShutdown : List Action :=
  if p.config.isSplit then
    [.push .main [callEmitted "cnn_disable" [] (some "Shut down CNN clock, disable peripheral"), .blank],
     p.disableFunction]
  else [.push .main p.shutdown]

end AccelFirmware.Plan
