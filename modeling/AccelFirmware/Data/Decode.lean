import AccelFirmware.Data.Datum

/-!
# Decoding data trees

Decoders for the parts settings are made of: bounded integers, enumerations, and records with named fields. A record
may also be given as the list of its fields in order. JSON and TOML differ in two points only, which `Dialect` names.
-/

namespace AccelFirmware

inductive DecodeError where
  | mismatch
  /-- An output width that is a byte, but none of the widths there are. -/
  | invalidWidth (width : UInt8)
  deriving DecidableEq, Repr

abbrev Decoder (α : Type) := Datum → Except DecodeError α

structure Dialect where
  /-- Whether a record given as a list may have more items than fields. -/
  surplusItems : Bool
  /-- What may stand under the name of an enumeration value that is written as a record. -/
  emptyPayload : Datum → Bool

namespace Dialect

def json : Dialect where
  surplusItems := false
  emptyPayload
    | .null => true
    | _ => false

def toml : Dialect where
  surplusItems := true
  emptyPayload
    | .record [] | .list [] => true
    | _ => false

end Dialect

namespace Decode

/-! ## Plain values -/

def bool : Decoder Bool
  | .bool b => .ok b
  | _ => .error .mismatch

def text : Decoder String
  | .text s => .ok s
  | _ => .error .mismatch

def natBelow (bound : Nat) : Decoder Nat
  | .int n => if 0 ≤ n ∧ n.toNat < bound then .ok n.toNat else .error .mismatch
  | _ => .error .mismatch

def byte : Decoder UInt8 := fun d => (natBelow UInt8.size d).map UInt8.ofNat

def word : Decoder UInt32 := fun d => (natBelow UInt32.size d).map UInt32.ofNat

def size : Decoder Nat := natBelow UInt64.size

def integer : Decoder Int
  | .int n => if -0x8000000000000000 ≤ n ∧ n < 0x8000000000000000 then .ok n else .error .mismatch
  | _ => .error .mismatch

variable {α : Type}

def list (item : Decoder α) : Decoder (List α)
  | .list ds => ds.mapM item
  | _ => .error .mismatch

def orNull (value : Decoder α) : Decoder (Option α)
  | .null => .ok none
  | d => (value d).map some

/-- One of several named values: the name alone, or a record from it to an empty payload. -/
def choice (dialect : Dialect) (names : List (String × α)) : Decoder α
  | .text s => (names.lookup s).elim (.error .mismatch) .ok
  | .record [(s, payload)] =>
      if dialect.emptyPayload payload then (names.lookup s).elim (.error .mismatch) .ok else .error .mismatch
  | _ => .error .mismatch

/-! ## Records -/

/-- The entries of a record, by name. In the list form, trailing fields without a default may not be missing. -/
structure Fields where
  positional : Bool
  entries : List (String × Datum)

def repeats (keys : List String) : List (String × Datum) → Bool
  | [] => false
  | (key, _) :: rest => (keys.contains key && rest.any (·.1 == key)) || repeats keys rest

def hasSurplus (dialect : Dialect) (keys : List String) : Datum → Bool
  | .list items => keys.length < items.length && !dialect.surplusItems
  | _ => false

/-- The fields of a record with the given keys, in either form. Items beyond the fields are passed over. A moment shows
itself as a record with a single key that no settings know. -/
def leadingFields (keys : List String) : Decoder Fields
  | .record entries => if repeats keys entries then .error .mismatch else .ok ⟨false, entries⟩
  | .list items => .ok ⟨true, keys.zip items⟩
  | .moment literal => .ok ⟨false, [("", .text literal)]⟩
  | _ => .error .mismatch

def fields (dialect : Dialect) (keys : List String) : Decoder Fields := fun d =>
  if hasSurplus dialect keys d then .error .mismatch else leadingFields keys d

def Fields.only (keys : List String) (f : Fields) : Except DecodeError Fields :=
  if f.entries.all fun (key, _) => keys.contains key then .ok f else .error .mismatch

def Fields.required (f : Fields) (key : String) (value : Decoder α) : Except DecodeError α :=
  match f.entries.lookup key with
  | some d => value d
  | none => .error .mismatch

/-- A field that may be null, and missing where the record has names. -/
def Fields.optional (f : Fields) (key : String) (value : Decoder α) : Except DecodeError (Option α) :=
  match f.entries.lookup key with
  | some d => orNull value d
  | none => if f.positional then .error .mismatch else .ok none

/-- A field that may be missing in both forms. -/
def Fields.orDefault (f : Fields) (key : String) (default : α) (value : Decoder α) : Except DecodeError α :=
  match f.entries.lookup key with
  | some d => value d
  | none => .ok default

end Decode

end AccelFirmware
