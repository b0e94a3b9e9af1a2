import AccelFirmware.Files.Error
import AccelFirmware.Files.Path

/-!
# File trees

Directories and text files by their places, and the operations of a file system on them. A path is followed name by name,
so every directory on the way has to be there, also one that `..` leaves again. An operation that fails changes nothing,
except that `makeDirectories` keeps the directories it has made.
-/

namespace AccelFirmware

inductive Node where
  | file (text : String)
  | directory
  deriving DecidableEq, Repr

/-- What is at the places of a tree. The root is a directory and has no entry. -/
structure FileTree where
  entries : List (Place × Node)
  deriving DecidableEq, Repr

namespace FileTree

def empty : FileTree := ⟨[]⟩

def get? (t : FileTree) (p : Place) : Option Node :=
  if p = [] then some .directory else t.entries.lookup p

def put (t : FileTree) (p : Place) (n : Node) : FileTree :=
  ⟨(p, n) :: t.entries.filter (·.1 ≠ p)⟩

def hasDirectory (t : FileTree) (p : Place) : Bool := t.get? p = some .directory

def names (t : FileTree) (p : Place) : List String :=
  t.entries.filterMap fun (q, _) =>
    if q.dropLast = p then q.getLast? else none

/-! ## Following paths -/

def maxName : Nat := 255

def maxPath : Nat := 4095

def follow (t : FileTree) : Place → List String → Except FileError Place
  | p, [] => .ok p
  | p, step :: steps =>
      if t.hasDirectory p then
        if step = "." then t.follow p steps
        else if step = ".." then t.follow p.dropLast steps
        else if maxName < step.utf8ByteSize then .error .nameTooLong
        else if (t.get? (p ++ [step])).isSome then t.follow (p ++ [step]) steps
        else .error .notFound
      else .error .notDirectory

def route (path : String) : Except FileError Route :=
  if path.toList.contains '\x00' then .error .nulInPath
  else if path.isEmpty then .error .notFound
  else if maxPath < path.utf8ByteSize then .error .nameTooLong
  else .ok (.ofPath path)

variable (t : FileTree) (working : Place)

def locate (path : String) : Except FileError Place := do
  let r ← route path
  t.follow (r.origin working) (r.steps ++ if r.slash then ["."] else [])

/-- The directory that the last step of a route starts from, which has to be there. -/
def directoryOf (r : Route) : Except FileError Place :=
  t.follow (r.origin working) (r.steps.dropLast ++ ["."])

/-! ## Reading -/

def node? (path : String) : Option Node :=
  match t.locate working path with
  | .ok p => t.get? p
  | .error _ => none

def isPresent (path : String) : Bool := (t.node? working path).isSome

def isFile (path : String) : Bool :=
  match t.node? working path with
  | some (.file _) => true
  | _ => false

def isDirectory (path : String) : Bool :=
  t.node? working path = some .directory

def readText (path : String) : Except FileError String := do
  match t.get? (← t.locate working path) with
  | some (.file text) => pure text
  | some .directory => throw .isDirectory
  | none => throw .notFound

def listNames (path : String) : Except FileError (List String) := do
  let p ← t.locate working path
  if t.hasDirectory p then pure (t.names p) else throw .notDirectory

/-! ## Writing -/

/-- Whether a step is not a name of its own. -/
def isDots (step : String) : Bool := step = "." || step = ".."

def makeDirectory (r : Route) : Except FileError FileTree :=
  match r.steps.getLast? with
  | none => .error .alreadyExists
  | some last => do
      let p ← t.directoryOf working r
      if isDots last then throw .alreadyExists
      else if maxName < last.utf8ByteSize then throw .nameTooLong
      else if (t.get? (p ++ [last])).isSome then throw .alreadyExists
      else pure (t.put (p ++ [last]) .directory)

def endsInDirectory (r : Route) : Bool :=
  match t.follow (r.origin working) (r.steps ++ ["."]) with
  | .ok _ => true
  | .error _ => false

def makeRoute (t : FileTree) (working : Place) (r : Route) : Except FileError Unit × FileTree :=
  if r.isEmpty then (.ok (), t)
  else
    match t.makeDirectory working r with
    | .ok made => (.ok (), made)
    | .error .notFound =>
        if _h : r.moves = [] then (.error .notFound, t)
        else
          match makeRoute t working r.parent with
          | (.error e, t) => (.error e, t)
          | (.ok (), t) =>
              match t.makeDirectory working r with
              | .ok made => (.ok (), made)
              | .error e => (if t.endsInDirectory working r then .ok () else .error e, t)
    | .error e => (if t.endsInDirectory working r then .ok () else .error e, t)
termination_by r.steps.length
decreasing_by exact Route.length_parent_lt ‹_›

/-- Makes the directory of a path. The empty path names a directory that is there. -/
def makeDirectories (path : String) : Except FileError Unit × FileTree :=
  if path.isEmpty then (.ok (), t)
  else
    match route path with
    | .ok r => t.makeRoute working r
    | .error e => (.error e, t)

/-- The place that a text is written to: a file that is there, or a new name in a directory. -/
def writable (path : String) : Except FileError Place := do
  let r ← route path
  match r.steps.getLast? with
  | none => throw .isDirectory
  | some last =>
      let p ← t.directoryOf working r
      if isDots last || r.slash then throw .isDirectory
      else if maxName < last.utf8ByteSize then throw .nameTooLong
      else if t.hasDirectory (p ++ [last]) then throw .isDirectory
      else pure (p ++ [last])

def writeText (path text : String) : Except FileError FileTree := do
  pure (t.put (← t.writable working path) (.file text))

end FileTree

end AccelFirmware
