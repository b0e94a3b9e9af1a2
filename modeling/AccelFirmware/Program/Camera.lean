import AccelFirmware.Program.Plan

/-!
# The camera interface
-/

namespace AccelFirmware.Plan

variable (p : Plan)

def cameraRegister : String :=
  if p.device.modernSim then "MXC_PCIF->ctrl" else "MXC_CAMERAIF0->ctrl"

def cameraFields (c : Camera) : List String :=
  ["MXC_S_CAMERAIF_CTRL_READ_MODE_SINGLE_IMG",
   "MXC_S_CAMERAIF_CTRL_DATA_WIDTH_" ++ decimal c.format.dataWidth ++ "BIT"] ++
  (if p.device.modernSim then ["MXC_F_CAMERAIF_CTRL_PCIF_SYS"]
   else ["MXC_S_CAMERAIF_CTRL_DS_TIMING_EN_DIS", "MXC_S_CAMERAIF_CTRL_PCIF_SYS_EN_EN"]) ++
  if c.channels = 3 then [if p.device.modernSim then "MXC_F_CAMERAIF_CTRL_THREE_CH_EN" else "(1<<30)"] else []

def camera : List Operation :=
  match p.config.camera with
  | none => []
  | some c =>
      [callProvided "enable_pcif_clock" [] (some "Enable camera clock"),
       callProvided "set_pcif_gpio_altf",
       .blank,
       .comment ("Enable " ++ c.format.label ++ " format single image in external timing mode"),
       writeNamed p.cameraRegister .assign (" +\n".intercalate (p.cameraFields c)),
       .blank]

end AccelFirmware.Plan
