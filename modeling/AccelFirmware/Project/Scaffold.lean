import AccelFirmware.Project.DeviceFile

/-!
# New projects

The directories and files that a project starts with, and the file that a device of its own starts with.
-/

namespace AccelFirmware

variable {m : Type → Type} [Monad m] [Shell m]

namespace Scaffold

/-- The files of a new project, in the order they are written. -/
def files (name : String) : List (String × String) :=
  [(Manifest.fileName, Manifest.template name), ("inputs.json", "{}\n"), (".gitignore", "out/\n")]

def listing (name : String) : List String :=
  ["Created project '" ++ name ++ "'",
   "  " ++ name ++ "/" ++ Manifest.fileName,
   "  " ++ name ++ "/inputs.json",
   "  " ++ name ++ "/devices/",
   "  " ++ name ++ "/out/",
   "  " ++ name ++ "/.gitignore"]

/-- Makes a project in a directory of its own, which must not be there. -/
def createProject (name : String) : Task m Unit := do
  if ← Shell.isPresent name then throw (.directoryExists name)
  ["devices", "out"].forM fun directory =>
    attempt (Shell.makeDirectories (joinPath name directory)) (.makingDirectory directory)
  (files name).forM fun (file, text) =>
    attempt (Shell.writeText (joinPath name file) text) (.writingFile file)
  Shell.printLines (listing name)

/-- Makes a device file for a name, which must not be there. -/
def createDevice (project name : String) : Task m Unit := do
  let path := DeviceFile.path project name
  if ← Shell.isPresent path then throw (.fileExists path)
  attempt (Shell.makeDirectories (DeviceFile.directory project)) (.makingDirectory "devices")
  attempt (Shell.writeText path (Device.template name).toml) (.writingFile path)
  Shell.printLine ("Created " ++ path)

end Scaffold

end AccelFirmware
