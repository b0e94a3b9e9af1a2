import AccelFirmware.Device.Record
import AccelFirmware.Device.Validation
import AccelFirmware.Program.Sequence
import AccelFirmware.Report

/-!
# Synthesis

From a configuration, a device and the arrays of a classification layer to a program. The device has to be free of errors
and has to have what the configuration asks for; then the actions of the program are run. Combinations that work but
are hardly meant are reported as warnings.
-/

namespace AccelFirmware

/-! ## Errors -/

inductive SynthesisError where
  | device (error : DeviceError)
  | unsupported (feature : DeviceFeature) (device : String)
  | config (error : ConfigError)
  | group (error : GroupRangeError)
  | classification (error : ClassificationError)
  | program (error : ProgramError)
  deriving DecidableEq, Repr

namespace SynthesisError

def message : SynthesisError → String
  | .device e => "device error: " ++ e.message
  | .unsupported feature name => feature.refusal name
  | .config e => "configuration error: " ++ e.message
  | .group e => e.message
  | .classification e => e.message
  | .program (.emit e) => "emitter error: " ++ e.message
  | .program (.transition e) => e.message
  | .program (.unsupported feature name) => feature.refusal name

/-- The message, then that of the error underneath where there is one. -/
def chain (e : SynthesisError) : List String :=
  e.message ::
    match e with
    | .device inner => inner.chain
    | .config inner => [inner.message]
    | .classification (.format inner) => [inner.message]
    | .program (.emit inner) => [inner.message]
    | _ => []

end SynthesisError

/-! ## Checks -/

def checkDevice (d : Device) : Except SynthesisError Unit :=
  if d.errors.isEmpty then .ok ()
  else .error (.device (.invalid ("; ".intercalate (d.errors.map DeviceIssue.message))))

def checkSupport (c : Configuration) (d : Device) : Except SynthesisError Unit :=
  if c.topology.isDualCore && !d.hasCompanion then .error (.unsupported .dualCore d.name)
  else if c.pll && !d.supportsPll then .error (.unsupported .pll d.name)
  else .ok ()

/-- Expected output belongs to the fully-connected layer. -/
def checkInputs (c : Configuration) (i : Inputs) : Except SynthesisError Unit :=
  if i.expected.isSome && c.retrieval ≠ .fullyConnected then
    .error (.config (.fullyConnectedRequired .goldenOutput))
  else .ok ()

/-! ## Warnings -/

def deviceWarnings (d : Device) : List String :=
  d.warnings.map fun issue => "device " ++ d.name ++ ": " ++ issue.message

def advisories (c : Configuration) : List String :=
  (if c.retrieval = .softmaxOnly && c.outputWidth = .w8 then
    ["softmax-only classification should be used with 32-bit output width"] else []) ++
  (if c.forever && c.boost.isSome then
    ["the boost circuit is never switched off in forever mode"] else [])

/-! ## Programs -/

/-- The classification code of a configuration: its layer, and a comparison if there is expected output. A core that does not
drive the accelerator has none. -/
def classificationUnits (c : Configuration) (i : Inputs) : Except ClassificationError (List CodeUnit) :=
  match LayerKind.ofRetrieval? c.retrieval with
  | none => .ok []
  | some kind =>
      if c.topology.ownsAccelerator then do
        let style := LayerStyle.standard c.outputWidth
        let layer ← style.layer i.weights i.bias kind
        let comparison ← (i.expected.mapM style.verification).mapError .format
        pure (layer :: comparison.toList)
      else .ok []

def Plan.make (c : Configuration) (d : Device) (i : Inputs) : Except SynthesisError Plan := do
  let mask ← (GroupMask.make c.groups d).mapError .group
  let units ← (classificationUnits c i).mapError .classification
  pure ⟨c, d, mask, units, i.expected.isSome⟩

/-- A program together with the plan that was run. -/
structure Synthesis where
  plan : Plan
  program : Program

namespace Synthesis

def run (c : Configuration) (d : Device) (i : Inputs) : Except SynthesisError Synthesis := do
  checkDevice d
  checkSupport c d
  checkInputs c i
  let plan ← Plan.make c d i
  let program ← (Program.ofActions plan.actions).mapError .program
  pure ⟨plan, program⟩

variable (s : Synthesis)

def config : Configuration := s.plan.config

def device : Device := s.plan.device

def streams : List (Sink × String) := s.program.text.streams

def warnings : List String := deviceWarnings s.device ++ advisories s.config

def report : Report where
  device := s.device.name
  target := s.config.target
  topology := s.config.topology
  layout := s.config.layout
  sinks := s.streams.map fun (sink, text) => .ofText sink text
  functions := s.program.text.functions
  lifecycle := s.program.lifecycle
  warnings := s.warnings

end Synthesis

def Configuration.fileName (c : Configuration) : Sink → String
  | .main => "main.c"
  | .api => "cnn.c"
  | .weights => c.weightsHeader
  | .sampleData => c.sampleHeader

end AccelFirmware
