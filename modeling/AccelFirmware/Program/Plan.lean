import AccelFirmware.Classification.Layer
import AccelFirmware.Configuration.Basic
import AccelFirmware.Lifecycle

/-!
# Plans

A plan holds all that decides which operations a program consists of. A program is a list of actions: steps of the emitter,
events in the life of the generated program, and refusals of the device. Every phase of a program is a function from the plan
to its actions.
-/

namespace AccelFirmware

structure Plan where
  config : Configuration
  device : Device
  mask : GroupMask
  /-- Classification code ahead of `main`. -/
  units : List CodeUnit
  /-- Whether expected output is given. -/
  verifies : Bool

/-! ## Features -/

inductive DeviceFeature where
  | dualCore
  | pll
  deriving DecidableEq, Repr

namespace DeviceFeature

def name : DeviceFeature → String
  | .dualCore => "dual-core topology"
  | .pll => "PLL accelerator clock"

/-- That a device does not have the feature. -/
def refusal (feature : DeviceFeature) (device : String) : String :=
  feature.name ++ " is not supported by device " ++ device

end DeviceFeature

/-! ## Actions -/

inductive Action where
  | emit (step : EmitStep)
  | event (event : LifecycleEvent)
  /-- The end of a run whose device turns out to lack a feature. -/
  | refuse (feature : DeviceFeature) (device : String)

namespace Action

def push (sink : Sink) (ops : List Operation) : Action := .emit (.push sink ops)

def function (sink : Sink) (signature : Signature) (body : List Operation) (result : Option String) : Action :=
  .emit (.function sink signature body result)

def advance (stage : Stage) : Action := .event (.advance stage)

end Action

/-- Calls a function from outside the program. -/
def callProvided (name : String) (args : List String := []) (comment : Option String := none) : Operation :=
  .call (.provided name) args comment

/-- Calls a function of the program. -/
def callEmitted (name : String) (args : List String := []) (comment : Option String := none) : Operation :=
  .call (.emitted name) args comment

def writeNamed (register : String) (mode : WriteMode) (value : String) (comment : Option String := none) : Operation :=
  .write (.named register) mode value comment

def writeAt (address : UInt32) (mode : WriteMode) (value : String) (comment : Option String := none) : Operation :=
  .write (.address address) mode value comment

namespace Plan

variable (p : Plan)

def owns : Bool := p.config.topology.ownsAccelerator

def sdk : Bool := p.config.target.usesSdk

def embedded : Bool := p.config.isEmbedded

/-- Where interrupts and the clock calls of the SDK are there: embedded programs and current simulations. -/
def sdkRuntime : Bool := p.embedded || p.device.modernSim

def hostsWakeHandler : Bool :=
  p.config.topology = .armHost && (p.sdk || p.device.modernSim)

/-- Trim values only apply where the SDK brings up a current part. -/
def appliesTrim : Bool :=
  p.config.clockTrim.isSome && p.config.topology ≠ .companion && p.sdk && !p.device.family.isLegacy

def printsClasses : Bool :=
  p.embedded && !p.config.forever && p.config.retrieval.isClassification && p.owns

def routeSink : Sink := if p.config.isSplit then .api else .main

/-- A fatal check in `main`, recorded as such. -/
def fatalCheck (callee : Callee) : List Action :=
  [.event .fatalCheck, .push .main [.check callee p.config.target.failPolicy]]

end Plan

end AccelFirmware
