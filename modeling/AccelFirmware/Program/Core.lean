import AccelFirmware.ClockSwitch
import AccelFirmware.PowerDomain
import AccelFirmware.Program.Plan

/-!
# Cores

Bring-up of the core that the program runs on, the boot of the companion core by its host, and the handoff between the two
at the end of `main`.
-/

namespace AccelFirmware

/-! ## Oscillator trim -/

/-- The key register that opens the trim registers. -/
def trimKey : UInt32 := 0x40000c00

/-- The trim register that the two slower oscillators share. -/
def trimShared : UInt32 := 0x40005420

/-- The limit register of the 96 MHz oscillator. -/
def trimLimit : UInt32 := 0x40005440

/-- The trim register of the 96 MHz oscillator. -/
def trimFast : UInt32 := 0x40006c04

def readAt (address : UInt32) : String := "*((volatile uint32_t *) 0x" ++ hexWide 8 address.toNat ++ ")"

namespace ClockTrim

variable (t : ClockTrim)

/-- Replaces the fields that are given in the shared register. -/
def sharedWrites : List Operation :=
  if t.hirc8m.isSome || t.hirc.isSome then
    [.statement ("trim = " ++ readAt trimShared ++ ";")] ++
    (match t.hirc8m with
     | none => []
     | some value =>
         [.statement "trim &= ~0xffff;",
          .statement ("trim |= 0x" ++ hex value.toNat ++ ";") (some "HIRC8M (7.3728 MHz) trim")]) ++
    (match t.hirc with
     | none => []
     | some value =>
         [.statement "trim &= ~(0x1ff << 22);",
          .statement ("trim |= 0x" ++ hex value.toNat ++ " << 22;") (some "HIRC (60 MHz) trim")]) ++
    [writeAt trimShared .assign "trim"]
  else []

def fastWrites : List Operation :=
  match t.hirc96m with
  | none => []
  | some value =>
      [.statement ("trim = " ++ readAt trimLimit ++ " & ~(0x1ff << 15);"),
       writeAt trimLimit .assign "trim | (0xff << 15)" (some "HILIM"),
       writeAt trimFast .assign ("0x" ++ hex value.toNat) (some "HIRC96M (100 MHz) trim")]

def operations : List Operation :=
  [.comment "Manual clock trim override:", writeAt trimKey .assign "1" (some "Set TME")] ++
  t.sharedWrites ++ t.fastWrites ++
  [writeAt trimKey .assign "0" (some "Clear TME"), .blank]

end ClockTrim

/-! ## Debugger -/

def debuggerDelay (seconds : UInt32) : List Operation :=
  [.comment "DO NOT DELETE THIS LINE:",
   callProvided "MXC_Delay" ["SEC(" ++ decimal seconds.toNat ++ ")"] (some "Let debugger interrupt if needed")]

namespace Plan

variable (p : Plan)

/-! ## Core clocks -/

def enablePll : List Operation :=
  if p.config.pll then
    [writeNamed "MXC_GCR->ito_ctrl" .setBits "MXC_F_GCR_ITO_CTRL_EN" (some "Enable PLL (ITO)")]
  else []

def trimOperations : List Operation :=
  if p.appliesTrim then (p.config.clockTrim.map ClockTrim.operations).getD [] else []

def sdkCoreClock : List Operation :=
  if p.device.family.isLegacy then
    [callProvided "icache_enable", .blank, callProvided "SYS_ClockEnable" ["SYS_PERIPH_CLOCK_AI"]]
  else
    [callProvided "MXC_ICC_Enable" ["MXC_ICC0"] (some "Enable cache"), .blank] ++
    p.trimOperations ++
    [.comment ("Switch to " ++ decimal p.device.clocks.ipo.toNat ++ " MHz clock"),
     callProvided "MXC_SYS_Clock_Select" ["MXC_SYS_CLOCK_IPO"]] ++
    p.enablePll ++
    [callProvided "SystemCoreClockUpdate"]

def powerUp : List Operation := powerSequence p.device.powerController .up p.mask

/-- Power and clock of the accelerator, which older simulations bring up with the core. -/
def simulationPowerUp : List Operation :=
  [.blank] ++ p.powerUp ++ [.blank] ++
  match p.device.powerController with
  | .gcfr =>
      selectClock .pclk (.fixed 1) (some "CNN clock: APB div 1") p.device ++
      [writeNamed "MXC_GCR->pclkdis0" .keepBits "~MXC_F_GCR_PCLKDIS0_CNN" (some "Enable CNN clock")]
  | .bbfc =>
      [writeNamed "MXC_GCR->pckdiv" .assign "0x00010000" (some "CNN clock 96M div 2"),
       writeNamed "MXC_GCR->perckcn" .keepBits "~0x2000000" (some "Enable CNN clock")]

def simulationOscillator : List Operation :=
  match p.device.powerController with
  | .gcfr =>
      [writeNamed "MXC_GCR->clkctrl" .setBits "MXC_F_GCR_CLKCTRL_IPO_EN"
         (some "Enable internal primary osc (IPO)")] ++
      p.enablePll ++
      [.waitUntil "(MXC_GCR->clkctrl & MXC_F_GCR_CLKCTRL_IPO_RDY) == 0" (some "Wait for osc"),
       writeNamed "MXC_GCR->clkctrl" .setBits "MXC_S_GCR_CLKCTRL_SYSCLK_SEL_IPO" (some "Select osc")]
  | .bbfc =>
      [writeNamed "MXC_GCR->clkcn" .setBits "MXC_F_GCR_CLKCN_HIRC96M_EN" (some "Enable 96M"),
       .waitUntil "(MXC_GCR->clkcn & MXC_F_GCR_CLKCN_HIRC96M_RDY) == 0" (some "Wait for 96M"),
       writeNamed "MXC_GCR->clkcn" .setBits "MXC_S_GCR_CLKCN_CLKSEL_HIRC96" (some "Select 96M")]

def simulationCoreClock : List Operation :=
  [callProvided "icache_enable", .blank] ++
  if p.device.family.isLegacy then
    [writeNamed "MXC_GCR->perckcn1" .keepBits "~0x20" (some "Enable CNN clock")]
  else
    [writeAt trimKey .assign "0x00000001" (some "Set TME"),
     writeAt trimFast .assign "0x000001a0" (some "96M trim"),
     writeAt trimKey .assign "0x00000000" (some "Clear TME"), .blank] ++
    p.simulationOscillator ++
    if p.device.modernSim then [] else p.simulationPowerUp

/-! ## The companion core -/

def bootAddress (m : CompanionMemory) : List Operation :=
  let note := some "Set RISC-V boot address"
  if p.config.bootFromFlashCache then
    if p.sdk then [.blank, writeNamed "MXC_FCR->urvbootaddr" .assign "(uint32_t) &__FlashStart_" note]
    else
      [writeNamed (if p.device.modernSim then "MXC_FCR->urvbootaddr" else "MXC_NBBFC->reg4") .assign
        ("0x" ++ hexWide 8 m.codeOrigin.toNat) note]
  else if p.device.modernSim then
    [writeNamed "MXC_FCR->urvbootaddr" .assign ("0x" ++ hexWide 8 m.sramOrigin.toNat) note]
  else []

/-- The control register of the companion's memory in older simulations. -/
def memoryControl : UInt32 := 0x40000814

def exclusiveMemory : List Operation :=
  if !p.config.exclusiveSram then []
  else if p.sdk || p.device.modernSim then
    [writeNamed "MXC_FCR->urvctrl" .setBits "0x00000001" (some "Exclusive SRAM access for RISC-V")]
  else
    [writeAt memoryControl .setBits "0x00000001" (some "Exclusive SRAM access for RISC-V (MXC_NBBFC->reg5)")]

/-- Starts the clock of the companion, after the handler for its signal where there is one. -/
def releaseCompanion : List Operation :=
  if p.hostsWakeHandler then
    [callProvided "MXC_SYS_ClockEnable" ["MXC_SYS_PERIPH_CLOCK_SMPHR"] (some "Enable Semaphore clock"),
     .installVector "RISCV_IRQn" "WakeISR" (some "Set wakeup ISR")] ++
    (if p.sdk && p.config.debugWait > 0 then [.blank] ++ debuggerDelay p.config.debugWait ++ [.blank] else []) ++
    [callProvided "MXC_SYS_ClockEnable" ["MXC_SYS_PERIPH_CLOCK_CPU1"] (some "Enable RISC-V clock")]
  else
    [writeNamed "MXC_GCR->perckcn1" .keepBits "~MXC_F_GCR_PERCKCN1_CPU1" (some "Enable RISC-V clock")]

def bootCompanion (m : CompanionMemory) : List Operation :=
  p.bootAddress m ++ p.exclusiveMemory ++ p.releaseCompanion

/-! ## Bring-up -/

def coreClock : List Operation := if p.sdk then p.sdkCoreClock else p.simulationCoreClock

def debuggerPause : List Operation :=
  if p.sdk && p.config.debugWait > 0 then
    [.blank, .statement "printf(\"Waiting...\\n\");", .blank] ++ debuggerDelay p.config.debugWait
  else []

def companionBringUp : List Operation :=
  (if p.config.jtagDebug && p.embedded then [callProvided "Debug_Init" [] (some "Set up RISCV JTAG")] else []) ++
  if p.config.bootFromFlashCache then
    (if p.embedded then [callProvided "MXC_ICC_Enable" ["MXC_ICC1"] (some "Enable cache")]
     else [callProvided "icache1_enable", callProvided "invalidate_icache1"]) ++ [.blank]
  else []

/-- A host needs the memory of its companion by the time it boots it. -/
def coreBringUp : List Action :=
  match p.config.topology with
  | .singleCore => [.push .main (p.coreClock ++ p.debuggerPause ++ [.blank])]
  | .armHost =>
      match p.device.companion with
      | none => [.push .main p.coreClock, .refuse .dualCore p.device.name]
      | some m => [.push .main (p.coreClock ++ p.bootCompanion m ++ [.blank])]
  | .companion => [.push .main p.companionBringUp]

/-! ## Handoff -/

def deepSleep : List Operation :=
  (if p.device.requireSemaLpwken then
    [writeNamed "MXC_PWRSEQ->lppwen" .setBits "0x400" (some "CPU1WKEN=1")] else []) ++
  [if p.embedded then callProvided "MXC_LP_ClearWakeStatus" else callEmitted "_MXC_LP_ClearWakeStatus",
   writeNamed "SCB->SCR" .setBits "SCB_SCR_SLEEPDEEP_Msk" (some "SLEEPDEEP=1")]

/-- The host sleeps until the companion is done, the companion signals that it is. -/
def handoff : List Operation :=
  match p.config.topology with
  | .singleCore => []
  | .armHost =>
      (if p.config.sleep then p.deepSleep else []) ++ [.statement "__WFI();" (some "Let RISC-V run")]
  | .companion =>
      if p.sdkRuntime then
        [.blank, .comment "Signal the Cortex-M4",
         writeNamed "MXC_SEMA->irq0" .assign "MXC_F_SEMA_IRQ0_EN | MXC_F_SEMA_IRQ0_CM4_IRQ"]
      else []

end Plan

end AccelFirmware
