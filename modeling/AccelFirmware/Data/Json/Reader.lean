import AccelFirmware.Data.Datum
import AccelFirmware.Text.Numeral

/-!
# Reading JSON

A reader over characters. Every function takes the characters that are left and returns a value with those that
remain. `fuel` bounds the number of nested values and entries; the length of the text is always enough.
-/

namespace AccelFirmware.Json

def isSpace (c : Char) : Bool :=
  c = ' ' || c = '\n' || c = '\t' || c = '\r'

def skipSpace : List Char → List Char :=
  List.dropWhile isSpace

/-! ## Numbers -/

/-- A fraction or an exponent makes a number real, and so do a negative zero and an integer of more than 64 bits. -/
def numberDatum (negative : Bool) (digits tail : List Char) : Datum :=
  let magnitude := (readDecimal digits).getD 0
  let literal := String.ofList ((if negative then ['-'] else []) ++ digits ++ tail)
  if !tail.isEmpty then .real literal
  else if negative then
    if magnitude = 0 || magnitude > 0x8000000000000000 then .real literal else .int (-magnitude)
  else if magnitude < UInt64.size then .int magnitude else .real literal

def digitRun (cs : List Char) : Option (List Char × List Char) :=
  match cs.span Char.isDigit with
  | ([], _) => none
  | run => some run

def fraction : List Char → Option (List Char × List Char)
  | '.' :: cs => (digitRun cs).map fun (ds, rest) => ('.' :: ds, rest)
  | cs => some ([], cs)

def exponentSign : List Char → List Char × List Char
  | '+' :: cs => (['+'], cs)
  | '-' :: cs => (['-'], cs)
  | cs => ([], cs)

def exponent : List Char → Option (List Char × List Char)
  | c :: cs =>
      if c = 'e' || c = 'E' then
        let (sign, cs) := exponentSign cs
        (digitRun cs).map fun (ds, rest) => (c :: sign ++ ds, rest)
      else some ([], c :: cs)
  | [] => some ([], [])

/-- The integer part has no leading zero. -/
def integerPart : List Char → Option (List Char × List Char)
  | '0' :: cs => some (['0'], cs)
  | cs => digitRun cs

def number (negative : Bool) (cs : List Char) : Option (Datum × List Char) := do
  let (digits, cs) ← integerPart cs
  let (frac, cs) ← fraction cs
  let (exp, cs) ← exponent cs
  pure (numberDatum negative digits (frac ++ exp), cs)

/-! ## Strings -/

def hexQuad : List Char → Option (Nat × List Char)
  | a :: b :: c :: d :: rest => (readHex [a, b, c, d]).map (·, rest)
  | _ => none

def simpleEscape? : Char → Option Char
  | '"' => some '"'
  | '\\' => some '\\'
  | '/' => some '/'
  | 'b' => some '\x08'
  | 'f' => some '\x0c'
  | 'n' => some '\n'
  | 'r' => some '\r'
  | 't' => some '\t'
  | _ => none

/-- UTF-16 units to text, `none` where a surrogate has no partner. -/
def ofUnits : List Nat → Option (List Char)
  | [] => some []
  | [u] => if 0xd800 ≤ u ∧ u < 0xe000 then none else some [Char.ofNat u]
  | u :: v :: rest =>
      if 0xd800 ≤ u ∧ u < 0xdc00 ∧ 0xdc00 ≤ v ∧ v < 0xe000 then
        (ofUnits rest).map (Char.ofNat (0x10000 + 0x400 * (u - 0xd800) + (v - 0xdc00)) :: ·)
      else if 0xd800 ≤ u ∧ u < 0xe000 then none
      else (ofUnits (v :: rest)).map (Char.ofNat u :: ·)

/-- One piece of a string: a character, or a UTF-16 unit that an escape names. -/
inductive Piece where
  | char (c : Char)
  | unit (u : Nat)

def pieces : Nat → List Char → Option (List Piece × List Char)
  | 0, _ => none
  | fuel + 1, cs =>
      match cs with
      | '"' :: rest => some ([], rest)
      | '\\' :: 'u' :: rest => do
          let (u, rest) ← hexQuad rest
          let (ps, rest) ← pieces fuel rest
          pure (.unit u :: ps, rest)
      | '\\' :: c :: rest => do
          let c ← simpleEscape? c
          let (ps, rest) ← pieces fuel rest
          pure (.char c :: ps, rest)
      | c :: rest =>
          if c.toNat < 0x20 then none
          else (pieces fuel rest).map fun (ps, rest) => (.char c :: ps, rest)
      | [] => none

def assemble (units : List Nat) : List Piece → Option (List Char)
  | [] => ofUnits units.reverse
  | .unit u :: ps => assemble (u :: units) ps
  | .char c :: ps => do
      let front ← ofUnits units.reverse
      let back ← assemble [] ps
      pure (front ++ c :: back)

/-- A string after its opening quote; the text is missing where a surrogate has no partner. -/
def quoted (cs : List Char) : Option (Option String × List Char) :=
  (pieces (cs.length + 1) cs).map fun (ps, rest) => ((assemble [] ps).map String.ofList, rest)

/-! ## Values -/

/-- A record with an ill-formed key is ill-formed as a whole. -/
def recordDatum (entries : List (Option String × Datum)) : Datum :=
  match entries.mapM fun (key, value) => key.map (·, value) with
  | some entries => .record entries
  | none => .illFormed

mutual

def value : Nat → List Char → Option (Datum × List Char)
  | 0, _ => none
  | fuel + 1, cs =>
      match cs with
      | 'n' :: 'u' :: 'l' :: 'l' :: rest => some (.null, rest)
      | 't' :: 'r' :: 'u' :: 'e' :: rest => some (.bool true, rest)
      | 'f' :: 'a' :: 'l' :: 's' :: 'e' :: rest => some (.bool false, rest)
      | '"' :: rest =>
          (quoted rest).map fun (s, rest) => (s.elim .illFormed .text, rest)
      | '[' :: rest =>
          match skipSpace rest with
          | ']' :: rest => some (.list [], rest)
          | rest => (items fuel rest).map fun (ds, rest) => (.list ds, rest)
      | '\x7b' :: rest =>
          match skipSpace rest with
          | '\x7d' :: rest => some (.record [], rest)
          | rest => (entries fuel rest).map fun (es, rest) => (recordDatum es, rest)
      | '-' :: rest => number true rest
      | cs => number false cs

def items : Nat → List Char → Option (List Datum × List Char)
  | 0, _ => none
  | fuel + 1, cs => do
      let (d, cs) ← value fuel (skipSpace cs)
      match skipSpace cs with
      | ',' :: cs => (items fuel cs).map fun (ds, rest) => (d :: ds, rest)
      | ']' :: cs => some ([d], cs)
      | _ => none

def entries : Nat → List Char → Option (List (Option String × Datum) × List Char)
  | 0, _ => none
  | fuel + 1, cs =>
      match skipSpace cs with
      | '"' :: cs => do
          let (key, cs) ← quoted cs
          match skipSpace cs with
          | ':' :: cs => do
              let (d, cs) ← value fuel (skipSpace cs)
              match skipSpace cs with
              | ',' :: cs => (entries fuel cs).map fun (es, rest) => ((key, d) :: es, rest)
              | '\x7d' :: cs => some ([(key, d)], cs)
              | _ => none
          | _ => none
      | _ => none

end

/-- The one value that a text holds, with nothing but space around it. -/
def parse (text : String) : Option Datum :=
  let cs := text.toList
  match value (cs.length + 1) (skipSpace cs) with
  | some (d, rest) => if (skipSpace rest).isEmpty then some d else none
  | none => none

end AccelFirmware.Json
