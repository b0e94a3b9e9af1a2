import AccelFirmware.Data.Decode
import AccelFirmware.Data.Toml.Document
import AccelFirmware.Data.Toml.Printer
import AccelFirmware.Device.Preset
import AccelFirmware.Files.Error

/-!
# Devices as data

A device as a record of named values, in JSON or in a device file. Values that are not there are null; a device file
leaves them out.
-/

namespace AccelFirmware

inductive DeviceError where
  | unreadable
  | unopened (error : FileError)
  | notFound (path : String)
  | unknown (name : String)
  | invalid (detail : String)
  deriving DecidableEq, Repr

namespace DeviceError

def message : DeviceError → String
  | .unreadable => "TOML parse error"
  | .unopened e => "I/O error: " ++ e.message
  | .notFound path => "device file not found: " ++ path
  | .unknown name => "unknown device: '" ++ name ++ "'"
  | .invalid detail => "validation error: " ++ detail

def chain : DeviceError → List String
  | .unopened e => [(unopened e).message, e.message]
  | e => [e.message]

end DeviceError

/-! ## Encoding -/

def ClockSpeeds.datum (c : ClockSpeeds) : Datum :=
  .record [("ipo-mhz", .ofWord c.ipo), ("apb-mhz", .ofWord c.apb), ("pll-mhz", .ofOption .ofWord c.pll)]

def CompanionMemory.datum (m : CompanionMemory) : Datum :=
  .record [("code-origin", .ofWord m.codeOrigin), ("sram-origin", .ofWord m.sramOrigin)]

namespace Device

def entries (d : Device) : List (String × Datum) :=
  [("name", .text d.name), ("family", .text d.family.name), ("apb-base", .ofWord d.apbBase),
   ("cnn-base", .ofWord d.cnnBase), ("group-stride", .ofWord d.groupStride),
   ("ctl-register", .ofWord d.ctlRegister), ("group-count", .ofByte d.groupCount),
   ("power-controller", .text d.powerController.name), ("modern-sim", .bool d.modernSim),
   ("require-oneshot-clear", .bool d.requireOneshotClear),
   ("require-sema-lpwken", .bool d.requireSemaLpwken), ("clocks", d.clocks.datum),
   ("companion", .ofOption CompanionMemory.datum d.companion)]

def datum (d : Device) : Datum := .record d.entries

def toml (d : Device) : String := Toml.print d.entries

end Device

/-! ## Decoding -/

def Family.decode (dialect : Dialect) : Decoder Family :=
  Decode.choice dialect (Family.all.map fun f => (f.name, f))

def PowerController.decode (dialect : Dialect) : Decoder PowerController :=
  Decode.choice dialect (PowerController.all.map fun c => (c.name, c))

def ClockSpeeds.decode (dialect : Dialect) : Decoder ClockSpeeds := fun d => do
  let f ← Decode.fields dialect ["ipo-mhz", "apb-mhz", "pll-mhz"] d
  pure ⟨← f.required "ipo-mhz" Decode.word, ← f.required "apb-mhz" Decode.word,
    ← f.optional "pll-mhz" Decode.word⟩

def CompanionMemory.decode (dialect : Dialect) : Decoder CompanionMemory := fun d => do
  let f ← Decode.fields dialect ["code-origin", "sram-origin"] d
  pure ⟨← f.required "code-origin" Decode.word, ← f.required "sram-origin" Decode.word⟩

namespace Device

def fieldNames : List String :=
  ["name", "family", "apb-base", "cnn-base", "group-stride", "ctl-register", "group-count", "power-controller",
   "modern-sim", "require-oneshot-clear", "require-sema-lpwken", "clocks", "companion"]

def decode (dialect : Dialect) : Decoder Device := fun d => do
  let f ← Decode.fields dialect fieldNames d
  pure {
    name := ← f.required "name" Decode.text
    family := ← f.required "family" (Family.decode dialect)
    apbBase := ← f.required "apb-base" Decode.word
    cnnBase := ← f.required "cnn-base" Decode.word
    groupStride := ← f.required "group-stride" Decode.word
    ctlRegister := ← f.required "ctl-register" Decode.word
    groupCount := ← f.required "group-count" Decode.byte
    powerController := ← f.required "power-controller" (PowerController.decode dialect)
    modernSim := ← f.required "modern-sim" Decode.bool
    requireOneshotClear := ← f.required "require-oneshot-clear" Decode.bool
    requireSemaLpwken := ← f.required "require-sema-lpwken" Decode.bool
    clocks := ← f.required "clocks" (ClockSpeeds.decode dialect)
    companion := ← f.optional "companion" (CompanionMemory.decode dialect) }

def ofToml (text : String) : Except DeviceError Device :=
  match Toml.parse text with
  | none => .error .unreadable
  | some d =>
      match decode .toml d with
      | .ok device => .ok device
      | .error _ => .error .unreadable

end Device

end AccelFirmware
