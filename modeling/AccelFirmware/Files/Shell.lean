import AccelFirmware.Files.Tree

/-!
# Shells

What a command needs of the system it runs on: files by their paths, a working directory, and two streams of text to
write to. Commands are written for any shell. A `Session` is a shell whose system is a value.
-/

namespace AccelFirmware

class Shell (m : Type → Type) where
  workingPlace : m Place
  isPresent (path : String) : m Bool
  isFile (path : String) : m Bool
  isDirectory (path : String) : m Bool
  readText (path : String) : m (Except FileError String)
  listNames (path : String) : m (Except FileError (List String))
  makeDirectories (path : String) : m (Except FileError Unit)
  writeText (path text : String) : m (Except FileError Unit)
  print (text : String) : m Unit
  complain (text : String) : m Unit

/-- Commands that can fail use the shell underneath. -/
instance {m : Type → Type} [Monad m] [Shell m] {ε : Type} : Shell (ExceptT ε m) where
  workingPlace := ExceptT.lift Shell.workingPlace
  isPresent path := ExceptT.lift (Shell.isPresent path)
  isFile path := ExceptT.lift (Shell.isFile path)
  isDirectory path := ExceptT.lift (Shell.isDirectory path)
  readText path := ExceptT.lift (Shell.readText path)
  listNames path := ExceptT.lift (Shell.listNames path)
  makeDirectories path := ExceptT.lift (Shell.makeDirectories path)
  writeText path text := ExceptT.lift (Shell.writeText path text)
  print text := ExceptT.lift (Shell.print text)
  complain text := ExceptT.lift (Shell.complain text)

def Shell.printLine {m : Type → Type} [Shell m] (line : String) : m Unit :=
  Shell.print (line ++ "\n")

def Shell.printLines {m : Type → Type} [Shell m] (lines : List String) : m Unit :=
  Shell.print (String.join (lines.map (· ++ "\n")))

/-- A system as a value: its files, the working directory, and what has been written to the streams. -/
structure World where
  files : FileTree
  working : Place
  output : String
  /-- The messages of the commands. The log goes to the same stream, with the time in every line; it is left out. -/
  errors : String

abbrev Session := StateM World

instance : Shell Session where
  workingPlace := fun w => (w.working, w)
  isPresent path := fun w => (w.files.isPresent w.working path, w)
  isFile path := fun w => (w.files.isFile w.working path, w)
  isDirectory path := fun w => (w.files.isDirectory w.working path, w)
  readText path := fun w => (w.files.readText w.working path, w)
  listNames path := fun w => (w.files.listNames w.working path, w)
  makeDirectories path := fun w =>
    let (result, files) := w.files.makeDirectories w.working path
    (result, { w with files })
  writeText path text := fun w =>
    match w.files.writeText w.working path text with
    | .ok files => (.ok (), { w with files })
    | .error e => (.error e, w)
  print text := fun w => ((), { w with output := w.output ++ text })
  complain text := fun w => ((), { w with errors := w.errors ++ text })

end AccelFirmware
