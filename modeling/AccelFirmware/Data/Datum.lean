/-!
# Data trees

The value that a settings file holds, whether it is written as JSON or as TOML. Records keep their entries in
written order, repeated keys included; `Datum.canonical` is the reading that sorts them and lets the last one win.
-/

namespace AccelFirmware

inductive Datum where
  | null
  | bool (value : Bool)
  | int (value : Int)
  /-- A number that is not an integer of at most 64 bits. No setting takes one. -/
  | real (literal : String)
  | text (value : String)
  /-- A date or a time of day. No setting takes one. -/
  | moment (literal : String)
  /-- A string, or a record with a key, that holds half of a surrogate pair. -/
  | illFormed
  | list (items : List Datum)
  | record (entries : List (String × Datum))
  deriving Repr

namespace Datum

def ofWord (n : UInt32) : Datum := int n.toNat

def ofByte (n : UInt8) : Datum := int n.toNat

def ofOption {α : Type} (encode : α → Datum) : Option α → Datum
  | none => null
  | some a => encode a

/-- The value of the last entry under `key`. -/
def entry? (key : String) (entries : List (String × Datum)) : Option Datum :=
  (entries.reverse.find? (·.1 == key)).map (·.2)

def get? (key : String) : Datum → Option Datum
  | record entries => entry? key entries
  | _ => none

/-- Puts an entry into a list sorted by key, in place of one with the same key. -/
def insertEntry (key : String) (value : Datum) :
    List (String × Datum) → List (String × Datum)
  | [] => [(key, value)]
  | (k, v) :: rest =>
      if key < k then (key, value) :: (k, v) :: rest
      else if key = k then (key, value) :: rest
      else (k, v) :: insertEntry key value rest

mutual

/-- Keys ascending and each of them once, with the value written last. -/
def canonical : Datum → Datum
  | list items => list (canonicalItems items)
  | record entries => record (canonicalEntries entries [])
  | d => d

def canonicalItems : List Datum → List Datum
  | [] => []
  | d :: ds => d.canonical :: canonicalItems ds

def canonicalEntries : List (String × Datum) → List (String × Datum) → List (String × Datum)
  | [], sorted => sorted
  | (key, value) :: rest, sorted => canonicalEntries rest (insertEntry key value.canonical sorted)

end

end Datum

end AccelFirmware
