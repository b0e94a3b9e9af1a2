/-!
# Paths

A path is text. It is joined and shown as written, and read as a route: the names between its slashes, taken from the root
or from the working directory. What the names `.` and `..` lead to only a file tree can tell.
-/

namespace AccelFirmware

/-! ## Paths as text -/

def isAbsolute (path : String) : Bool := path.toList.head? = some '/'

def endsInSlash (path : String) : Bool := path.toList.getLast? = some '/'

/-- The path of `rest` inside the directory `base`. An absolute path stands for itself. -/
def joinPath (base rest : String) : String :=
  if isAbsolute rest then rest
  else if base.isEmpty || endsInSlash base then base ++ rest
  else base ++ "/" ++ rest

/-- The names between the slashes of a path, empty ones left out. -/
def pathNames (path : String) : List String :=
  ((path.toList.splitOn '/').filter (!·.isEmpty)).map String.ofList

/-! ## Places -/

/-- A place in a file tree: the names on the way to it from the root. -/
abbrev Place := List String

def Place.path (p : Place) : String := "/" ++ "/".intercalate p

/-- The directories around a place and the place itself, innermost first. -/
def Place.outward (p : Place) : List Place :=
  ((List.range (p.length + 1)).map p.take).reverse

/-! ## Routes -/

structure Route where
  absolute : Bool
  steps : List String
  /-- Whether a slash ends it, which asks for a directory. -/
  slash : Bool
  deriving DecidableEq, Repr

namespace Route

def ofPath (path : String) : Route :=
  ⟨isAbsolute path, pathNames path, endsInSlash path⟩

/-- The route of an empty path, which leads nowhere. -/
def isEmpty (r : Route) : Bool := !r.absolute && r.steps.isEmpty

def origin (r : Route) (working : Place) : Place :=
  if r.absolute then [] else working

/-- The steps of a route that do not stay in place. -/
def moves (r : Route) : List String := r.steps.filter (· ≠ ".")

def parent (r : Route) : Route := ⟨r.absolute, r.moves.dropLast, false⟩

theorem length_parent_lt {r : Route} (h : r.moves ≠ []) : r.parent.steps.length < r.steps.length := by
  have := List.length_pos_iff.2 h
  have := List.length_filter_le (fun s => decide (s ≠ ".")) r.steps
  simp only [parent, List.length_dropLast, moves] at *
  omega

end Route

end AccelFirmware
