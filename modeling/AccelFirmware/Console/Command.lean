import AccelFirmware.Console.Arguments
import AccelFirmware.Device.Sheet
import AccelFirmware.Project.Generation
import AccelFirmware.Project.Scaffold

/-!
# Commands

What can be asked for on the command line, and how it is done. A command that fails reports its error and ends with
status 1. Words that ask for nothing end with status 2.
-/

namespace AccelFirmware

inductive DeviceCommand where
  | list
  | describe (name : String) (format : Option String)
  | validate (name : String)
  | template (name : String)
  deriving DecidableEq, Repr

inductive Command where
  | init (name : String)
  | generate (options : GenerateOptions)
  | device (command : DeviceCommand)
  deriving DecidableEq, Repr

/-! ## Reading -/

namespace Command

def verbose : List String := ["verbose"]

def leaf (options : List String) (flags : List String) (operands : Nat) : ArgumentLevel :=
  ⟨verbose ++ flags, options, operands, [], false⟩

def topLevel : ArgumentLevel := ⟨verbose, [], 0, ["init", "generate", "device"], true⟩

def deviceLevel : ArgumentLevel := ⟨verbose, [], 0, ["list", "describe", "validate", "template"], false⟩

/-- The words of a level whose operands have to be all there. -/
def operands (l : ArgumentLevel) (words : List String) : Except ArgumentsEnd Arguments := do
  let (a, _) ← l.read .none words
  if a.operands.length = l.operands then pure a else throw .malformed

def named (make : String → Command) (a : Arguments) : Except ArgumentsEnd Command :=
  match a.operands with
  | [name] => .ok (make name)
  | _ => .error .malformed

def readDevice (words : List String) : Except ArgumentsEnd Command := do
  match ← deviceLevel.read .none words with
  | (_, some ("list", rest)) => do
      let _ ← operands (leaf [] [] 0) rest
      pure (.device .list)
  | (_, some ("describe", rest)) => do
      let a ← operands (leaf ["format"] [] 1) rest
      named (fun name => .device (.describe name (a.option? "format"))) a
  | (_, some ("validate", rest)) => do
      let a ← operands (leaf [] [] 1) rest
      named (fun name => .device (.validate name)) a
  | (_, some ("template", rest)) => do
      let a ← operands (leaf [] [] 1) rest
      named (fun name => .device (.template name)) a
  | _ => throw .malformed

def readGenerate (words : List String) : Except ArgumentsEnd Command := do
  let a ← operands (leaf ["device", "output"] ["json", "dry-run"] 0) words
  pure (.generate ⟨a.option? "device", a.option? "output", a.has "json", a.has "dry-run"⟩)

def ofWords (words : List String) : Except ArgumentsEnd Command := do
  match ← topLevel.read .none words with
  | (_, some ("init", rest)) => do
      let a ← operands (leaf [] [] 1) rest
      named .init a
  | (_, some ("generate", rest)) => readGenerate rest
  | (_, some ("device", rest)) => readDevice rest
  | _ => throw .malformed

end Command

/-! ## Running -/

variable {m : Type → Type} [Monad m] [Shell m]

namespace DeviceCommand

def listing (heading : String) (rows : List (String × String)) : List String :=
  [heading, ""] ++ rows.map fun (name, remark) => "  " ++ padRight 12 name ++ " " ++ remark

def presetLines : List String :=
  listing "Built-in devices:" (Preset.all.map fun p => (p.device.name, p.summary))

def runList (project : String) : Task m Unit := do
  Shell.printLines presetLines
  let devices ← attempt (DeviceFile.all project) .listingDevices
  if !devices.isEmpty then
    Shell.printLines ("" :: listing "Project devices:" devices)
  Shell.printLines ["", "Use 'cnnsynth device describe <name>' for details."]

def runDescribe (project name : String) (format : Option String) : Task m Unit := do
  let device ← DeviceFile.resolve project name
  match format.getD "text" with
  | "text" => Shell.printLines device.sheet
  | "toml" => Shell.print device.toml
  | "json" => Shell.printLine (Json.pretty device.datum)
  | other => throw (.unknownFormat other)

def issueLine (i : DeviceIssue) : String :=
  match i.severity with
  | .error => "error: " ++ i.message ++ "\n"
  | .warning => "warning: " ++ i.message ++ "\n"

def runValidate (project name : String) : Task m Unit := do
  let device ← DeviceFile.resolve project name
  Shell.complain (String.join (device.issues.map issueLine))
  if !device.errors.isEmpty then throw (.invalidDevice name device.errors.length)
  else if device.issues.isEmpty then Shell.printLine ("Device '" ++ name ++ "' is valid.")
  else
    Shell.printLine
      ("Device '" ++ name ++ "' is valid (" ++ decimal device.issues.length ++ " warning(s)).")

def run (project : String) : DeviceCommand → Task m Unit
  | list => runList project
  | describe name format => runDescribe project name format
  | validate name => runValidate project name
  | template name => Scaffold.createDevice project name

end DeviceCommand

namespace Command

def run : Command → Task m Unit
  | init name => Scaffold.createProject name
  | generate options => do
      match ← Project.find with
      | some project => project.generate options
      | none => throw .noManifest
  | device command => do
      let project ← Project.directoryOrWorking
      command.run project

/-- Runs a command and reports its error. The result is the status. -/
def perform (c : Command) : m UInt8 := do
  match ← (c.run : Task m Unit).run with
  | .ok () => pure 0
  | .error e => do
      Shell.complain ("error: " ++ e.message ++ "\n")
      pure 1

end Command

def versionLine : String := "cnnsynth 0.1.0"

def usageLine : String := "usage: cnnsynth [-v] <init NAME | generate [OPTIONS] | device <COMMAND>>"

def performWords (words : List String) : m UInt8 := do
  match Command.ofWords words with
  | .ok c => c.perform
  | .error .version => do
      Shell.printLine versionLine
      pure 0
  | .error .malformed => do
      Shell.complain (usageLine ++ "\n")
      pure 2

end AccelFirmware
