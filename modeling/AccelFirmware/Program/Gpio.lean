import AccelFirmware.Program.Plan

/-!
# Output pins

Pins driven by a program: the failure indicator, and the switch of the boost circuit. The split layout has functions for
the boost circuit whether or not a pin is configured.
-/

namespace AccelFirmware

inductive Level where
  | high
  | low
  deriving DecidableEq, Repr

def Level.driver : Level → String
  | .high => "MXC_GPIO_OutSet"
  | .low => "MXC_GPIO_OutClr"

/-- Configures a pin as an output and drives it. -/
def drivePin (port mask : String) (level : Level) : List Operation :=
  [.declare "mxc_gpio_cfg_t gpio_out;",
   .statement ("gpio_out.port = " ++ port ++ ";"),
   .statement ("gpio_out.mask = " ++ mask ++ ";"),
   .statement "gpio_out.pad = MXC_GPIO_PAD_NONE;",
   .statement "gpio_out.func = MXC_GPIO_FUNC_OUT;",
   callProvided "MXC_GPIO_Config" ["&gpio_out"],
   callProvided level.driver ["gpio_out.port", "gpio_out.mask"]]

namespace BoostPin

variable (b : BoostPin)

def portName : String := "MXC_GPIO" ++ decimal b.port.toNat

def pinName : String := "MXC_GPIO_PIN_" ++ decimal b.pin.toNat

end BoostPin

def boostParameters : String := "mxc_gpio_regs_t *port, uint32_t pin"

def boostFunction (name : String) (level : Level) : Action :=
  .function .api ⟨"int", name, boostParameters⟩ (drivePin "port" "pin" level) (some "CNN_OK")

namespace Plan

variable (p : Plan)

def boostOn : List Action :=
  if p.config.isSplit then
    boostFunction "cnn_boost_enable" .high ::
      match p.config.boost with
      | none => []
      | some b =>
          [.push .main
            [callEmitted "cnn_boost_enable" [b.portName, b.pinName] (some "Turn on the boost circuit")]]
  else
    match p.config.boost with
    | none => []
    | some b =>
        [.push .main
          (.blank ::
           .comment ("Configure P" ++ decimal b.port.toNat ++ "." ++ decimal b.pin.toNat
             ++ ", turn on the CNN Boost") ::
           drivePin b.portName b.pinName .high)]

/-- Switches the boost circuit off, unless the program runs forever. -/
def boostOff : List Action :=
  (if p.config.isSplit then [boostFunction "cnn_boost_disable" .low] else []) ++
  if p.config.forever then []
  else
    match p.config.boost with
    | none => []
    | some b =>
        [.push .main
          (if p.config.isSplit then
            [callEmitted "cnn_boost_disable" [b.portName, b.pinName] (some "Turn off the boost circuit"), .blank]
          else
            [.comment "Turn off the CNN Boost",
             callProvided "MXC_GPIO_OutClr" ["gpio_out.port", "gpio_out.mask"], .blank])]

end Plan

end AccelFirmware
