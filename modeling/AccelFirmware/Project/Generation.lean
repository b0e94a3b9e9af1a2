import AccelFirmware.Data.Json.Printer
import AccelFirmware.Project.DeviceFile

/-!
# Generating sources

From a project to the sources of its program: its manifest is found around the working directory, device and arrays are
read, and every sink with text becomes a file. The report is printed before the first file is written.
-/

namespace AccelFirmware

variable {m : Type → Type} [Monad m] [Shell m]

structure Project where
  directory : String
  manifest : Manifest

namespace Project

/-- The project in the first of several places that has a manifest. -/
def findFrom : List Place → Task m (Option Project)
  | [] => pure none
  | place :: places => do
      let path := joinPath place.path Manifest.fileName
      if ← Shell.isFile path then
        let text ← attempt (Shell.readText path) (.unopenedManifest path)
        match Manifest.ofToml? text with
        | some manifest => pure (some ⟨place.path, manifest⟩)
        | none => throw (.unreadableManifest path)
      else findFrom places

def find : Task m (Option Project) := do
  let place ← Shell.workingPlace
  findFrom place.outward

/-- The directory of the project, or the working directory where there is none. -/
def directoryOrWorking : Task m String := do
  match ← find with
  | some project => pure project.directory
  | none => do
      let place ← Shell.workingPlace
      pure place.path

end Project

/-- What a call of the generator changes about the manifest, and what it leaves undone. -/
structure GenerateOptions where
  device : Option String
  output : Option String
  json : Bool
  dryRun : Bool
  deriving DecidableEq, Repr

namespace Project

variable (p : Project)

/-- The arrays of the project, none if the manifest names no file. -/
def loadInputs : Task m Inputs := do
  match p.manifest.arrays with
  | none => pure .empty
  | some file =>
      let path := joinPath p.directory file
      let text ← attempt (Shell.readText path) (.unopenedInputs path)
      match Inputs.ofJson? text with
      | some inputs => pure inputs
      | none => throw (.unreadableInputs path)

/-- The program of the project, for its own device or another one. Its warnings are also lines of the log, which is left out:
here they are in the report alone. -/
def synthesize (device? : Option String) : Task m Synthesis := do
  let device ← DeviceFile.resolve p.directory (device?.getD p.manifest.project.device)
  match p.manifest.settings.build with
  | .error e => throw (.configuration e)
  | .ok config =>
      let inputs ← p.loadInputs
      match Synthesis.run config device inputs with
      | .ok s => pure s
      | .error e => throw (.synthesis device.name e)

def outputDirectory (output : Option String) : String :=
  joinPath p.directory (output.getD p.manifest.outputDirectory)

end Project

namespace Synthesis

def sources (s : Synthesis) (directory : String) : List (String × String) :=
  s.streams.map fun (sink, text) => (joinPath directory (s.config.fileName sink), text)

def writeSources (s : Synthesis) (directory : String) : Task m Unit := do
  attempt (Shell.makeDirectories directory) (.writingSources directory)
  (s.sources directory).forM fun (path, text) =>
    attempt (Shell.writeText path text) (.writingSources directory)

def printReport (s : Synthesis) (json : Bool) : m Unit :=
  if json then Shell.printLine (Json.pretty s.report.datum) else Shell.print s.report.render

end Synthesis

namespace Project

def generate (p : Project) (o : GenerateOptions) : Task m Unit := do
  let s ← p.synthesize o.device
  s.printReport o.json
  if !o.dryRun then
    let directory := p.outputDirectory o.output
    s.writeSources directory
    if !o.json then
      Shell.printLines ("" :: (s.sources directory).map fun (path, _) => "Wrote " ++ path)

end Project

end AccelFirmware
