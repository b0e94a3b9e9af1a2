import AccelFirmware.Console.Command

/-!
# The program

The system that the program runs on as a shell, and the entry of the command line.
-/

namespace AccelFirmware

def FileError.ofNumber (number : UInt32) (text : String) : FileError :=
  if number = 2 then .notFound
  else if number = 17 then .alreadyExists
  else if number = 20 then .notDirectory
  else if number = 21 then .isDirectory
  else if number = 36 then .nameTooLong
  else .system (text ++ " (os error " ++ decimal number.toNat ++ ")")

def FileError.ofSystem : IO.Error → FileError
  | .noFileOrDirectory _ number text => ofNumber number text
  | .alreadyExists _ number text => ofNumber number text
  | .inappropriateType _ number text => ofNumber number text
  | .invalidArgument _ number text => ofNumber number text
  | .permissionDenied _ number text => ofNumber number text
  | .resourceExhausted _ number text => ofNumber number text
  | e => .system e.toString

def onPath {α : Type} (path : String) (operation : IO α) : IO (Except FileError α) := do
  if path.toList.contains '\x00' then return .error .nulInPath
  try
    return .ok (← operation)
  catch e => return .error (.ofSystem e)

/-- A question to the system about a path, which no failure answers with yes. -/
def askPath (path : String) (question : IO Bool) : IO Bool := do
  if path.isEmpty then return false
  match ← onPath path question with
  | .ok answer => return answer
  | .error _ => return false

instance : Shell IO where
  workingPlace := do return pathNames (toString (← IO.currentDir))
  isPresent path := askPath path do ((← IO.currentDir) / path).pathExists
  isFile path := askPath path do
    let file := (← IO.currentDir) / path
    return (← file.pathExists) && !(← file.isDir)
  isDirectory path := askPath path do ((← IO.currentDir) / path).isDir
  readText path := onPath path (IO.FS.readFile path)
  listNames path := onPath path do
    return (← ((← IO.currentDir) / path).readDir).toList.map (·.fileName)
  makeDirectories path := onPath path do
    if !path.isEmpty then IO.FS.createDirAll path
  writeText path text := onPath path (IO.FS.writeFile path text)
  print text := do
    let out ← IO.getStdout
    out.putStr text
    out.flush
  complain text := IO.eprint text

end AccelFirmware

def main (words : List String) : IO UInt32 := do
  let status ← AccelFirmware.performWords words
  return status.toUInt32
