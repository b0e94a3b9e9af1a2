import AccelFirmware.Configuration.Basic
import AccelFirmware.Data.Decode
import AccelFirmware.Device.Record

/-!
# Settings as data

Settings as a record of named values, as in the `[synthesis]` table of a manifest. Reading starts from the initial
settings and applies one entry after the other; names that no axis has are refused.
-/

namespace AccelFirmware

/-! ## Encoding -/

def Camera.datum (c : Camera) : Datum :=
  .record [("format", .text c.format.name), ("channels", .ofByte c.channels)]

def BoostPin.datum (b : BoostPin) : Datum :=
  .record [("port", .ofByte b.port), ("pin", .ofByte b.pin)]

def ClockTrim.datum (t : ClockTrim) : Datum :=
  .record [("hirc8m", .ofOption .ofWord t.hirc8m), ("hirc", .ofOption .ofWord t.hirc),
    ("hirc96m", .ofOption .ofWord t.hirc96m)]

namespace Settings

def entries (s : Settings) : List (String × Datum) :=
  [("target", .text s.target.name), ("topology", .text s.topology.name), ("layout", .text s.layout.name),
   ("camera", .ofOption Camera.datum s.camera), ("measure-energy", .bool s.measureEnergy),
   ("oneshot", .ofWord s.oneshot), ("stop-start", .bool s.stopStart), ("fifo", .bool s.fifo),
   ("pll", .bool s.pll), ("boost", .ofOption BoostPin.datum s.boost),
   ("retrieval", .text s.retrieval.name), ("output-width", .int s.outputWidth.bits), ("bias", .bool s.bias),
   ("verify-kernels", .bool s.verifyKernels), ("load-kernels", .bool s.loadKernels),
   ("verify-output", .bool s.verifyOutput), ("forever", .bool s.forever),
   ("wait-mode", .text s.waitMode.name), ("sleep", .bool s.sleep), ("debug-wait", .ofWord s.debugWait),
   ("fail-indicator", .bool s.failIndicator), ("boot-from-flash-cache", .bool s.bootFromFlashCache),
   ("exclusive-sram", .bool s.exclusiveSram), ("jtag-debug", .bool s.jtagDebug),
   ("clock-trim", .ofOption ClockTrim.datum s.clockTrim), ("compact-weights", .bool s.compactWeights),
   ("compact-data", .bool s.compactData), ("weights-header", .text s.weightsHeader),
   ("sample-header", .text s.sampleHeader), ("groups", .list (s.groups.members.map .ofByte)),
   ("master", .ofOption .ofByte s.master)]

def datum (s : Settings) : Datum := .record s.entries

def axisNames : List String := initial.entries.map (·.1)

end Settings

/-! ## Decoding -/

section
variable (dialect : Dialect)

def Target.decode : Decoder Target := Decode.choice dialect (Target.all.map fun t => (t.name, t))

def Topology.decode : Decoder Topology := Decode.choice dialect (Topology.all.map fun t => (t.name, t))

def Layout.decode : Decoder Layout := Decode.choice dialect (Layout.all.map fun l => (l.name, l))

def PixelFormat.decode : Decoder PixelFormat :=
  Decode.choice dialect (PixelFormat.all.map fun f => (f.name, f))

def Retrieval.decode : Decoder Retrieval := Decode.choice dialect (Retrieval.all.map fun r => (r.name, r))

def WaitMode.decode : Decoder WaitMode := Decode.choice dialect (WaitMode.all.map fun m => (m.name, m))

def OutputWidth.decode : Decoder OutputWidth := fun d => do
  let width ← Decode.byte d
  match OutputWidth.ofBits? width.toNat with
  | some w => pure w
  | none => throw (.invalidWidth width)

def Camera.decode : Decoder Camera := fun d => do
  let f ← Decode.fields dialect ["format", "channels"] d
  pure ⟨← f.required "format" (PixelFormat.decode dialect), ← f.orDefault "channels" 3 Decode.byte⟩

def BoostPin.decode : Decoder BoostPin := fun d => do
  let f ← Decode.fields dialect ["port", "pin"] d
  pure ⟨← f.required "port" Decode.byte, ← f.required "pin" Decode.byte⟩

def ClockTrim.decode : Decoder ClockTrim := fun d => do
  let f ← Decode.fields dialect ["hirc8m", "hirc", "hirc96m"] d
  pure ⟨← f.optional "hirc8m" Decode.word, ← f.optional "hirc" Decode.word,
    ← f.optional "hirc96m" Decode.word⟩

def GroupSet.decode : Decoder GroupSet := fun d => (Decode.list Decode.byte d).map GroupSet.ofList

namespace Settings

def set (s : Settings) (axis : String) (d : Datum) : Except DecodeError Settings :=
  match axis with
  | "target" => do pure { s with target := ← Target.decode dialect d }
  | "topology" => do pure { s with topology := ← Topology.decode dialect d }
  | "layout" => do pure { s with layout := ← Layout.decode dialect d }
  | "camera" => do pure { s with camera := ← Decode.orNull (Camera.decode dialect) d }
  | "measure-energy" => do pure { s with measureEnergy := ← Decode.bool d }
  | "oneshot" => do pure { s with oneshot := ← Decode.word d }
  | "stop-start" => do pure { s with stopStart := ← Decode.bool d }
  | "fifo" => do pure { s with fifo := ← Decode.bool d }
  | "pll" => do pure { s with pll := ← Decode.bool d }
  | "boost" => do pure { s with boost := ← Decode.orNull (BoostPin.decode dialect) d }
  | "retrieval" => do pure { s with retrieval := ← Retrieval.decode dialect d }
  | "output-width" => do pure { s with outputWidth := ← OutputWidth.decode d }
  | "bias" => do pure { s with bias := ← Decode.bool d }
  | "verify-kernels" => do pure { s with verifyKernels := ← Decode.bool d }
  | "load-kernels" => do pure { s with loadKernels := ← Decode.bool d }
  | "verify-output" => do pure { s with verifyOutput := ← Decode.bool d }
  | "forever" => do pure { s with forever := ← Decode.bool d }
  | "wait-mode" => do pure { s with waitMode := ← WaitMode.decode dialect d }
  | "sleep" => do pure { s with sleep := ← Decode.bool d }
  | "debug-wait" => do pure { s with debugWait := ← Decode.word d }
  | "fail-indicator" => do pure { s with failIndicator := ← Decode.bool d }
  | "boot-from-flash-cache" => do pure { s with bootFromFlashCache := ← Decode.bool d }
  | "exclusive-sram" => do pure { s with exclusiveSram := ← Decode.bool d }
  | "jtag-debug" => do pure { s with jtagDebug := ← Decode.bool d }
  | "clock-trim" => do pure { s with clockTrim := ← Decode.orNull (ClockTrim.decode dialect) d }
  | "compact-weights" => do pure { s with compactWeights := ← Decode.bool d }
  | "compact-data" => do pure { s with compactData := ← Decode.bool d }
  | "weights-header" => do pure { s with weightsHeader := ← Decode.text d }
  | "sample-header" => do pure { s with sampleHeader := ← Decode.text d }
  | "groups" => do pure { s with groups := ← GroupSet.decode d }
  | "master" => do pure { s with master := ← Decode.orNull Decode.byte d }
  | _ => throw .mismatch

/-- Surplus items of a list are refused only after its fields, so a wrong width is reported first. -/
def decode : Decoder Settings := fun d => do
  let f ← Decode.leadingFields axisNames d
  let s ← f.entries.foldlM (fun s (axis, d) => s.set dialect axis d) initial
  if Decode.hasSurplus dialect axisNames d then throw .mismatch else pure s

end Settings

end

end AccelFirmware
