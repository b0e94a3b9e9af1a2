import AccelFirmware.Configuration.Record
import AccelFirmware.Data.Toml.Document

/-!
# Manifests

The file at the top of a project: what it is called, the device it is for, the settings of its program, and where its
arrays and outputs are. Apart from the settings, keys that mean nothing here are passed over.
-/

namespace AccelFirmware

structure ProjectHeader where
  name : String
  version : String
  description : Option String
  /-- A device of the project or a built-in one. -/
  device : String
  deriving DecidableEq, Repr

structure Manifest where
  project : ProjectHeader
  settings : Settings
  /-- The file with the arrays of the classification layer, in the directory of the project. -/
  arrays : Option String
  outputDirectory : String
  deriving DecidableEq, Repr

def ProjectHeader.decode : Decoder ProjectHeader := fun d => do
  let f ← Decode.fields .toml ["name", "version", "description", "device"] d
  pure {
    name := ← f.required "name" Decode.text
    version := ← f.orDefault "version" "0.1.0" Decode.text
    description := ← f.orDefault "description" none (Decode.orNull Decode.text)
    device := ← f.orDefault "device" "ai85" Decode.text }

namespace Manifest

def fileName : String := "cnnsynth.toml"

def decodeArrays : Decoder (Option String) := fun d => do
  let f ← Decode.fields .toml ["arrays"] d
  f.orDefault "arrays" none (Decode.orNull Decode.text)

def defaultDirectory : String := "out"

def decodeDirectory : Decoder String := fun d => do
  let f ← Decode.fields .toml ["dir"] d
  f.orDefault "dir" defaultDirectory Decode.text

def decode : Decoder Manifest := fun d => do
  let f ← Decode.fields .toml ["project", "synthesis", "inputs", "output"] d
  pure {
    project := ← f.required "project" ProjectHeader.decode
    settings := ← f.orDefault "synthesis" Settings.initial (Settings.decode .toml)
    arrays := ← f.orDefault "inputs" none decodeArrays
    outputDirectory := ← f.orDefault "output" defaultDirectory decodeDirectory }

def ofToml? (text : String) : Option Manifest := do
  let d ← Toml.parse text
  (decode d).toOption

/-- The manifest that a new project starts with. The name goes in as it is. -/
def template (name : String) : String :=
  String.join (List.map (· ++ "\n")
    ["[project]",
     "name = \"" ++ name ++ "\"",
     "version = \"0.1.0\"",
     "device = \"ai85\"",
     "",
     "[synthesis]",
     "target = \"embedded\"",
     "groups = [0, 1, 2, 3]",
     "retrieval = \"unload\"",
     "output-width = 8",
     "",
     "[inputs]",
     "arrays = \"inputs.json\"",
     "",
     "[output]",
     "dir = \"out\""])

end Manifest

end AccelFirmware
