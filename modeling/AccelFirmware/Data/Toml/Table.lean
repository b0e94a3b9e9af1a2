import AccelFirmware.Data.Datum

/-!
# Tables under construction

A TOML text defines a tree entry by entry, and every table may be defined only once. The tree therefore remembers how
each of its tables came about: by its own header, on the way to a deeper header, or through a dotted key.
-/

namespace AccelFirmware.Toml

inductive TableOrigin where
  | header
  | implied
  | dotted
  deriving DecidableEq, Repr

/-- A closed value, a table, or a list of tables with headers in double brackets, the latest one last. -/
inductive Node where
  | value (d : Datum)
  | table (origin : TableOrigin) (entries : List (String × Node))
  | tables (items : List (List (String × Node)))

abbrev Entries := List (String × Node)

def setEntry (key : String) (node : Node) : Entries → Entries
  | [] => [(key, node)]
  | (k, n) :: rest => if k = key then (k, node) :: rest else (k, n) :: setEntry key node rest

def updateLast (f : Entries → Option Entries) : List Entries → Option (List Entries)
  | [] => none
  | [e] => (f e).map fun e => [e]
  | e :: es => (updateLast f es).map (e :: ·)

/-! ## Headers -/

/-- Changes the table at a path of headers; missing tables on the way are implied. Of a list of tables the path means
the last one. -/
def atHeader (f : Entries → Option Entries) : List String → Entries → Option Entries
  | [], entries => f entries
  | key :: path, entries =>
      match entries.lookup key with
      | none => (atHeader f path []).map fun inner => setEntry key (.table .implied inner) entries
      | some (.value _) => none
      | some (.table origin inner) =>
          (atHeader f path inner).map fun inner => setEntry key (.table origin inner) entries
      | some (.tables items) =>
          (updateLast (atHeader f path) items).map fun items => setEntry key (.tables items) entries

/-- Opens the table with the last key of a header. Only an implied table may still receive its header. -/
def openTable (key : String) (entries : Entries) : Option Entries :=
  match entries.lookup key with
  | none => some (setEntry key (.table .header []) entries)
  | some (.table .implied inner) => some (setEntry key (.table .header inner) entries)
  | some _ => none

def openItem (key : String) (entries : Entries) : Option Entries :=
  match entries.lookup key with
  | none => some (setEntry key (.tables [[]]) entries)
  | some (.tables items) => some (setEntry key (.tables (items ++ [[]])) entries)
  | some _ => none

/-! ## Keys -/

def putKey (key : String) (d : Datum) (entries : Entries) : Option Entries :=
  match entries.lookup key with
  | none => some (setEntry key (.value d) entries)
  | some _ => none

/-- Adds a value under a dotted key, where `final` says whether the table at hand was made by dotted keys. Tables
with a header of their own are closed to dotted keys, and the table that receives the value was made by them. -/
def putDotted (key : String) (d : Datum) : List String → Bool → Entries → Option Entries
  | [], final, entries => if final then putKey key d entries else none
  | k :: path, _, entries =>
      match entries.lookup k with
      | none => (putDotted key d path true []).map fun inner => setEntry k (.table .dotted inner) entries
      | some (.value _) => none
      | some (.table .header _) => none
      | some (.table origin inner) =>
          (putDotted key d path (origin = .dotted) inner).map fun inner => setEntry k (.table origin inner) entries
      | some (.tables items) =>
          (updateLast (putDotted key d path false) items).map fun items => setEntry k (.tables items) entries

def put (path : List String) (key : String) (d : Datum) (entries : Entries) : Option Entries :=
  putDotted key d path true entries

/-! ## Finished trees -/

mutual

def Node.datum : Node → Datum
  | .value d => d
  | .table _ entries => .record (entriesDatum entries)
  | .tables items => .list (tablesDatum items)

def entriesDatum : List (String × Node) → List (String × Datum)
  | [] => []
  | (key, node) :: rest => (key, node.datum) :: entriesDatum rest

def tablesDatum : List (List (String × Node)) → List Datum
  | [] => []
  | entries :: rest => .record (entriesDatum entries) :: tablesDatum rest

end

end AccelFirmware.Toml
