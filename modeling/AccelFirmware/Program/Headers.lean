import AccelFirmware.Program.Completion
import AccelFirmware.Program.Gpio

/-!
# The head of a source

Includes, state at file scope and the functions ahead of `main`. In the combined layout one source is both application
and library; in the split layout each half has its own.
-/

namespace AccelFirmware

/-- The half of a program that a source serves. -/
inductive Part where
  | whole
  | application
  | library
  deriving DecidableEq, Repr

namespace Part

def isApplication : Part → Bool
  | .library => false
  | _ => true

def isLibrary : Part → Bool
  | .application => false
  | _ => true

end Part

def simulationHeaders : List String :=
  ["mxc_device.h", "mxc_delay.h", "mxc_assert.h", "mxc_errors.h", "mxc_lock.h", "mxc_pins.h", "mxc_sys.h",
   "nvic_table.h"]

namespace Plan

variable (p : Plan)

/-! ## Includes -/

def systemHeaders : List Operation :=
  [.header "stdlib.h" true, .header "stdint.h" true] ++
  (if p.embedded || p.config.verifyKernels || p.verifies then [.header "string.h" true] else []) ++
  (if p.embedded then [.header "stdio.h" true] else [])

def platformHeaders (part : Part) : List Operation :=
  if p.sdk then
    [.header "mxc.h"] ++
    (if part.isLibrary then [.header p.device.powerController.header] else []) ++
    (if p.config.topology.isDualCore && part.isApplication then [.header "fcr_regs.h", .header "sema_regs.h"]
     else [])
  else
    (if p.device.modernSim then
      (if p.config.camera.isSome then [.header "cameraif_regs.h"] else []) ++
        simulationHeaders.map fun h => .header h
     else []) ++
    [.header "global_functions.h" false (some "For RTL Simulation")]

def programHeaders (part : Part) : List Operation :=
  (if p.config.camera.isSome then
    [.header "pcif_defines_af2.h", .define "NUM_DATA_WORDS" "4", .header "pcif.c"] else []) ++
  (if p.embedded then [.header "cnn.h"] else []) ++
  (if part.isLibrary && (p.embedded || p.config.compactWeights) then [.header p.config.weightsHeader] else []) ++
  (if part.isApplication && (p.embedded || p.config.compactData) then [.header p.config.sampleHeader] else [])

def constants (part : Part) : List Operation :=
  (if p.sdk then [] else [.define "CNN_FAIL" "0", .define "CNN_OK" "1", .blank]) ++
  (if part.isApplication && p.config.target = .bareMetalArm then
    [.declare "extern volatile void const *__FlashStart_; // Defined in linker file", .blank] else [])

def includes (part : Part) : List Operation :=
  p.systemHeaders ++ p.platformHeaders part ++ p.programHeaders part ++ [.blank] ++ p.constants part

/-! ## File scope -/

/-- Reports a failure, lights the indicator if there is one, and halts. -/
def failBody : List Operation :=
  (if p.config.failIndicator then drivePin "MXC_GPIO2" "MXC_GPIO_PIN_4" .high ++ [.blank] else []) ++
  [.statement "printf(\"\\n*** FAIL ***\\n\\n\");", .statement "while (1);"]

def applicationState (sink : Sink) : List Action :=
  (if p.sdkRuntime then [.push sink [.declare "volatile uint32_t cnn_time; // Stopwatch", .blank]] else []) ++
  (if p.embedded then [.function sink (.procedure "fail") p.failBody none] else [])

def sourceHead (sink : Sink) (part : Part) : List Action :=
  .push sink (p.includes part) ::
  if p.owns then
    (if part.isApplication then p.applicationState sink else []) ++
    (if part.isLibrary then p.completionFunction sink :: p.groupControl sink else [])
  else []

def declarations : List Action :=
  match p.config.layout with
  | .combined => p.sourceHead .main .whole
  | .splitApi => p.sourceHead .main .application ++ p.sourceHead .api .library

/-! ## Functions ahead of `main` -/

/-- A unit with its literals, each followed by an empty line. -/
def unitActions (u : CodeUnit) : List Action :=
  (u.literals.flatMap fun (sink, text) => [.emit (.raw sink text), .emit (.raw sink "\n")]) ++
  [.push .main u.declarations, .function .main u.signature u.body u.result]

def wakeHandler : Action :=
  .function .main (.procedure "WakeISR")
    [writeNamed "MXC_SEMA->irq0" .assign "MXC_F_SEMA_IRQ0_EN & ~MXC_F_SEMA_IRQ0_CM4_IRQ"] none

/-- A helper of the SDK that simulations lack. -/
def wakeStatusHelper : Action :=
  .function .main (.procedure "_MXC_LP_ClearWakeStatus")
    [.verbatim "/* Write 1 to clear */",
     writeNamed "MXC_PWRSEQ->lpwkst0" .assign "0xFFFFFFFF",
     writeNamed "MXC_PWRSEQ->lpwkst1" .assign "0xFFFFFFFF",
     writeNamed "MXC_PWRSEQ->lppwst" .assign "0xFFFFFFFF"] none

def fileScopeFunctions : List Action :=
  (if p.owns then
    p.units.flatMap unitActions ++
    (if p.config.retrieval = .unload then [.push .main [outputBuffer p.config.outputWidth, .blank]] else [])
   else []) ++
  (if p.hostsWakeHandler then [wakeHandler] else []) ++
  (if p.config.topology = .armHost && p.config.sleep && !p.embedded then [wakeStatusHelper] else [])

/-! ## Locals of `main` -/

def printoutLocals : List Operation :=
  if p.printsClasses then
    .declare "int digs, tens;" ::
    match p.config.outputWidth with
    | .w32 => []
    | w =>
        let type := "int" ++ decimal w.bits ++ "_t"
        [.declare (type ++ " *ml_data = (" ++ type ++ " *) ml_data32;")]
  else []

def localVariables : List Operation :=
  (if p.appliesTrim then [.declare "uint32_t trim;"] else []) ++
  (if p.owns && ((p.embedded && p.config.retrieval.isClassification) || p.config.oneshot > 0
      || p.config.measureEnergy) then [.declare "int i;"] else []) ++
  p.printoutLocals

/-- The variables of `main` and an empty line, if there are any. -/
def locals : List Action :=
  if p.localVariables.isEmpty then [] else [.push .main (p.localVariables ++ [.blank])]

end Plan

end AccelFirmware
