import AccelFirmware.Operation.Basic

/-!
# Axes of a configuration

The enumerations and small records that settings are made of. Every enumeration lists its values, and `name` is their
spelling in settings files.
-/

namespace AccelFirmware

inductive Target where
  | simulation
  | embedded
  /-- An image without the SDK runtime that only hosts the companion core. -/
  | bareMetalArm
  deriving DecidableEq, Repr

namespace Target

def all : List Target := [.simulation, .embedded, .bareMetalArm]

def name : Target → String
  | .simulation => "simulation"
  | .embedded => "embedded"
  | .bareMetalArm => "bare-metal-arm"

def usesSdk : Target → Bool
  | .simulation => false
  | .embedded | .bareMetalArm => true

def failPolicy : Target → FailPolicy
  | .embedded => .halt
  | .simulation | .bareMetalArm => .abortAndReturn

end Target

inductive Topology where
  | singleCore
  /-- The primary core, which boots the companion and yields to it. -/
  | armHost
  /-- The companion core, which drives the accelerator. -/
  | companion
  deriving DecidableEq, Repr

namespace Topology

def all : List Topology := [.singleCore, .armHost, .companion]

def name : Topology → String
  | .singleCore => "single-core"
  | .armHost => "arm-host"
  | .companion => "companion"

def ownsAccelerator : Topology → Bool
  | .armHost => false
  | .singleCore | .companion => true

def isDualCore : Topology → Bool
  | .singleCore => false
  | .armHost | .companion => true

def sleepInstruction : Topology → SleepInstruction
  | .companion => .riscV
  | .singleCore | .armHost => .arm

end Topology

inductive Layout where
  | combined
  /-- Bring-up and teardown are functions of a source of their own. -/
  | splitApi
  deriving DecidableEq, Repr

namespace Layout

def all : List Layout := [.combined, .splitApi]

def name : Layout → String
  | .combined => "combined"
  | .splitApi => "split-api"

end Layout

inductive PixelFormat where
  | rgb555
  | rgb565
  | rgb888
  deriving DecidableEq, Repr

namespace PixelFormat

def all : List PixelFormat := [.rgb555, .rgb565, .rgb888]

def name : PixelFormat → String
  | .rgb555 => "rgb555"
  | .rgb565 => "rgb565"
  | .rgb888 => "rgb888"

def dataWidth : PixelFormat → Nat
  | .rgb555 => 10
  | .rgb565 => 12
  | .rgb888 => 8

def label : PixelFormat → String
  | .rgb555 => "555"
  | .rgb565 => "565"
  | .rgb888 => "888"

end PixelFormat

structure Camera where
  format : PixelFormat
  channels : UInt8
  deriving DecidableEq, Repr

structure BoostPin where
  port : UInt8
  pin : UInt8
  deriving DecidableEq, Repr

inductive Retrieval where
  | unload
  | fullyConnected
  | softmaxOnly
  deriving DecidableEq, Repr

namespace Retrieval

def all : List Retrieval := [.unload, .fullyConnected, .softmaxOnly]

def name : Retrieval → String
  | .unload => "unload"
  | .fullyConnected => "fully-connected"
  | .softmaxOnly => "softmax-only"

def isClassification : Retrieval → Bool
  | .unload => false
  | .fullyConnected | .softmaxOnly => true

end Retrieval

inductive OutputWidth where
  | w8
  | w16
  | w32
  deriving DecidableEq, Repr

namespace OutputWidth

def bits : OutputWidth → Nat
  | .w8 => 8
  | .w16 => 16
  | .w32 => 32

def perWord (w : OutputWidth) : Nat := 32 / w.bits

def ofBits? : Nat → Option OutputWidth
  | 8 => some .w8
  | 16 => some .w16
  | 32 => some .w32
  | _ => none

end OutputWidth

/-- How the wait for a run idles where an interrupt ends it. -/
inductive WaitMode where
  | interrupt
  | spin
  deriving DecidableEq, Repr

namespace WaitMode

def all : List WaitMode := [.interrupt, .spin]

def name : WaitMode → String
  | .interrupt => "interrupt"
  | .spin => "spin"

end WaitMode

/-- Trim values of the internal oscillators; the others keep their factory trim. -/
structure ClockTrim where
  hirc8m : Option UInt32
  hirc : Option UInt32
  hirc96m : Option UInt32
  deriving DecidableEq, Repr

/-- What ends a wait for a run: the interrupt handler, or a poll of the control register. -/
inductive WaitStrategy where
  | interrupt
  | poll
  deriving DecidableEq, Repr

def WaitStrategy.name : WaitStrategy → String
  | .interrupt => "interrupt"
  | .poll => "poll"

def FailPolicy.name : FailPolicy → String
  | .halt => "halt"
  | .abortAndReturn => "abort-and-return"

end AccelFirmware
