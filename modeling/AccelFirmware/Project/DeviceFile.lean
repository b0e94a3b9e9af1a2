import AccelFirmware.Device.Validation
import AccelFirmware.Files.Shell
import AccelFirmware.Project.Error

/-!
# Devices of a project

A project may hold devices of its own, a file for each. The name of a device is that of its file, and it comes before a
built-in device of the same name.
-/

namespace AccelFirmware

variable {m : Type → Type} [Monad m] [Shell m]

/-- What a command does: it may fail. -/
abbrev Task (m : Type → Type) := ExceptT CommandError m

/-- A file operation of a task, with what its failure means there. -/
def attempt {α : Type} (operation : m (Except FileError α)) (failure : FileError → CommandError) : Task m α :=
  ExceptT.mk do
    match ← operation with
    | .ok a => pure (.ok a)
    | .error e => pure (.error (failure e))

namespace DeviceFile

def suffix : String := ".device.toml"

def deviceName? (file : String) : Option String :=
  let stem := file.toList.take (file.length - suffix.length)
  if stem ++ suffix.toList = file.toList then some (String.ofList stem) else none

def directory (project : String) : String := joinPath project "devices"

def path (project name : String) : String := joinPath (directory project) (name ++ suffix)

def ofNames (directory : String) (files : List String) : List (String × String) :=
  (files.filterMap fun file => (deviceName? file).map fun name => (name, joinPath directory file)).mergeSort
    fun a b => decide (a.1 ≤ b.1)

/-- The devices of a project, none if it has no directory for them. -/
def all (project : String) : m (Except FileError (List (String × String))) := do
  if ← Shell.isDirectory (directory project) then
    match ← Shell.listNames (directory project) with
    | .ok files => pure (.ok (ofNames (directory project) files))
    | .error e => pure (.error e)
  else pure (.ok [])

def load (path : String) : Task m Device := do
  let text ← attempt (Shell.readText path) fun e => .deviceFile path (.unopened e)
  match Device.ofToml text with
  | .ok device => pure device
  | .error e => throw (.deviceFile path e)

def resolve (project name : String) : Task m Device := do
  let files ← attempt (all project) (.scanningDevices project)
  match files.lookup name with
  | some path => load path
  | none =>
      match Preset.find? name with
      | some device => pure device
      | none => throw (.unknownDevice name)

end DeviceFile

end AccelFirmware
