import AccelFirmware.Device.Basic
import AccelFirmware.Operation.Basic
import AccelFirmware.Text.Numeral

/-!
# The accelerator clock

Source and divider of the accelerator clock share a register with fields of other clocks, so a switch clears both fields
and sets them in one write. The PLL has to report ready before it is selected.
-/

namespace AccelFirmware

inductive ClockSource where
  /-- The bus clock, stable at once. -/
  | pclk
  | ito
  /-- Chosen at run time by the parameter `clock_source`. -/
  | parameter
  deriving DecidableEq, Repr

inductive ClockDivider where
  | fixed (divider : UInt8)
  | parameter
  deriving DecidableEq, Repr

def ClockSource.selector : ClockSource → String
  | .pclk => "MXC_S_GCR_PCLKDIV_CNNCLKSEL_PCLK"
  | .ito => "MXC_S_GCR_PCLKDIV_CNNCLKSEL_ITO"
  | .parameter => "clock_source"

def ClockDivider.selector : ClockDivider → String
  | .fixed divider => "MXC_S_GCR_PCLKDIV_CNNCLKDIV_DIV" ++ decimal divider.toNat
  | .parameter => "clock_divider"

/-- The condition of the wait for the PLL. -/
def pllNotReady : String :=
  "(MXC_GCR->ito_ctrl & MXC_F_GCR_ITO_CTRL_RDY) != MXC_F_GCR_ITO_CTRL_RDY"

def pllSymbol : String := "MXC_F_GCR_PCLKDIV_CNNCLKSEL_ITO"

/-- The wait in front of a switch to a source. A source chosen at run time can be the PLL only where there is one. -/
def ClockSource.readyWait (device : Device) : ClockSource → List Operation
  | .pclk => []
  | .ito => [.waitUntil pllNotReady]
  | .parameter =>
      if device.supportsPll then
        [.guarded ("clock_source == " ++ pllSymbol) (.waitUntil pllNotReady (some "Wait for PLL"))]
      else []

def clockRegister : Register := .named "MXC_GCR->pclkdiv"

/-- What is kept of the clock register, and what is set in it. -/
def clockSelection (source : ClockSource) (divider : ClockDivider) : String :=
  "(MXC_GCR->pclkdiv & ~(MXC_F_GCR_PCLKDIV_CNNCLKDIV | MXC_F_GCR_PCLKDIV_CNNCLKSEL))\n| " ++ divider.selector
    ++ " | " ++ source.selector

def selectClock (source : ClockSource) (divider : ClockDivider) (comment : Option String) (device : Device) :
    List Operation :=
  (comment.map Operation.comment).toList ++ source.readyWait device
    ++ [.write clockRegister .assign (clockSelection source divider)]

end AccelFirmware
