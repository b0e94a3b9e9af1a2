import AccelFirmware.Configuration.Axis
import AccelFirmware.Group

/-!
# Configurations

`Settings` holds a value for every axis. A `Configuration` is a record of settings without a conflict, so code that takes
one never meets an illegal combination. `Settings.build` names the first conflict otherwise.
-/

namespace AccelFirmware

structure Settings where
  target : Target
  topology : Topology
  layout : Layout
  camera : Option Camera
  /-- Repeats the phases of a run for a power monitor. -/
  measureEnergy : Bool
  /-- Further runs after the first one. -/
  oneshot : UInt32
  stopStart : Bool
  /-- Input goes through the FIFO, after the start. -/
  fifo : Bool
  pll : Bool
  boost : Option BoostPin
  retrieval : Retrieval
  outputWidth : OutputWidth
  bias : Bool
  verifyKernels : Bool
  /-- Otherwise the kernels are in place already. -/
  loadKernels : Bool
  verifyOutput : Bool
  forever : Bool
  waitMode : WaitMode
  sleep : Bool
  /-- Seconds that a debugger gets to connect. -/
  debugWait : UInt32
  failIndicator : Bool
  bootFromFlashCache : Bool
  exclusiveSram : Bool
  jtagDebug : Bool
  clockTrim : Option ClockTrim
  compactWeights : Bool
  compactData : Bool
  weightsHeader : String
  sampleHeader : String
  groups : GroupSet
  master : Option UInt8
  deriving DecidableEq, Repr

namespace Settings

def initial : Settings where
  target := .simulation
  topology := .singleCore
  layout := .combined
  camera := none
  measureEnergy := false
  oneshot := 0
  stopStart := false
  fifo := false
  pll := false
  boost := none
  retrieval := .unload
  outputWidth := .w8
  bias := false
  verifyKernels := false
  loadKernels := true
  verifyOutput := true
  forever := false
  waitMode := .interrupt
  sleep := false
  debugWait := 1
  failIndicator := false
  bootFromFlashCache := false
  exclusiveSram := false
  jtagDebug := false
  clockTrim := none
  compactWeights := false
  compactData := false
  weightsHeader := "weights.h"
  sampleHeader := "sampledata.h"
  groups := .empty
  master := none

end Settings

/-! ## Conflicts -/

inductive Feature where
  | oneshot
  | stopStart
  | splitLayout
  | energyMeasurement
  | bareMetal
  | flashBoot
  | exclusiveSram
  | companionDebug
  | deepSleep
  | goldenOutput
  deriving DecidableEq, Repr

def Feature.name : Feature → String
  | .oneshot => "one-shot repeat"
  | .stopStart => "stop/start"
  | .splitLayout => "the split API layout"
  | .energyMeasurement => "energy measurement"
  | .bareMetal => "the bare-metal ARM target"
  | .flashBoot => "boot from flash cache"
  | .exclusiveSram => "exclusive SRAM"
  | .companionDebug => "companion JTAG debug"
  | .deepSleep => "deep sleep"
  | .goldenOutput => "classification golden output"

inductive Requirement where
  | splitLayout
  | armHost
  deriving DecidableEq, Repr

def Requirement.name : Requirement → String
  | .splitLayout => "the split API layout"
  | .armHost => "the arm-host topology"

inductive ConfigError where
  | noGroups
  | masterNotInGroups (master : UInt8)
  | masterRequired (feature : Feature)
  | unsupportedTarget (feature : Feature) (target : Target)
  | dualCoreRequired (feature : Feature)
  | acceleratorOwnerRequired (feature : Feature)
  | invalidChannels (channels : UInt8)
  | invalidOutputWidth (width : UInt8)
  | fullyConnectedRequired (feature : Feature)
  | requires (feature : Feature) (requirement : Requirement)
  deriving DecidableEq, Repr

def ConfigError.message : ConfigError → String
  | .noGroups => "the compute-group set is empty"
  | .masterNotInGroups master =>
      "master group " ++ decimal master.toNat ++ " is not in the compute-group set"
  | .masterRequired feature => feature.name ++ " requires a master group"
  | .unsupportedTarget feature target =>
      feature.name ++ " is not available for the " ++ target.name ++ " target"
  | .dualCoreRequired feature => feature.name ++ " requires a dual-core topology"
  | .acceleratorOwnerRequired feature =>
      feature.name ++ " is not available on the arm-host side, which never drives the accelerator"
  | .invalidChannels channels =>
      "camera channel count " ++ decimal channels.toNat ++ " is invalid (expected 1..=3)"
  | .invalidOutputWidth width =>
      "output width " ++ decimal width.toNat ++ " is invalid (expected 8, 16 or 32)"
  | .fullyConnectedRequired feature =>
      feature.name ++ " requires the fully-connected classification backend"
  | .requires feature requirement => feature.name ++ " requires " ++ requirement.name

namespace Settings

def groupConflicts (s : Settings) : List (Bool × ConfigError) :=
  [(s.groups.members.isEmpty, .noGroups),
   (s.master.any fun m => !s.groups.members.contains m, .masterNotInGroups (s.master.getD 0)),
   (s.master.isNone && s.oneshot > 0, .masterRequired .oneshot),
   (s.master.isNone && s.stopStart, .masterRequired .stopStart)]

def cameraConflicts (s : Settings) : List (Bool × ConfigError) :=
  [(s.camera.any fun c => c.channels = 0 || c.channels > 3,
    .invalidChannels ((s.camera.map Camera.channels).getD 0))]

def targetConflicts (s : Settings) : List (Bool × ConfigError) :=
  [(s.layout = .splitApi && s.target ≠ .embedded, .unsupportedTarget .splitLayout s.target),
   (s.measureEnergy && s.target ≠ .embedded, .unsupportedTarget .energyMeasurement s.target),
   (s.measureEnergy && s.layout ≠ .splitApi, .requires .energyMeasurement .splitLayout),
   (s.target = .bareMetalArm && s.topology ≠ .armHost, .requires .bareMetal .armHost)]

def topologyConflicts (s : Settings) : List (Bool × ConfigError) :=
  [(!s.topology.ownsAccelerator && s.layout = .splitApi, .acceleratorOwnerRequired .splitLayout),
   (!s.topology.ownsAccelerator && s.measureEnergy, .acceleratorOwnerRequired .energyMeasurement),
   (!s.topology.isDualCore && s.bootFromFlashCache, .dualCoreRequired .flashBoot),
   (!s.topology.isDualCore && s.exclusiveSram, .dualCoreRequired .exclusiveSram),
   (!s.topology.isDualCore && s.jtagDebug, .dualCoreRequired .companionDebug),
   (!s.topology.isDualCore && s.sleep, .dualCoreRequired .deepSleep)]

/-- Every possible conflict, with whether the settings have it, in the order of reports. -/
def conflicts (s : Settings) : List (Bool × ConfigError) :=
  s.groupConflicts ++ s.cameraConflicts ++ s.targetConflicts ++ s.topologyConflicts

def conflict? (s : Settings) : Option ConfigError :=
  (s.conflicts.find? (·.1)).map (·.2)

end Settings

structure Configuration extends Settings where
  legal : toSettings.conflict? = none

def Settings.build (s : Settings) : Except ConfigError Configuration :=
  match h : s.conflict? with
  | none => .ok ⟨s, h⟩
  | some e => .error e

namespace Configuration

def isSplit (c : Configuration) : Bool := c.layout = .splitApi

def isEmbedded (c : Configuration) : Bool := c.target = .embedded

/-- Embedded programs and current simulations wait for the interrupt, all others poll. -/
def waitStrategy (c : Configuration) (d : Device) : WaitStrategy :=
  if c.isEmbedded || d.modernSim then .interrupt else .poll

end Configuration

end AccelFirmware
