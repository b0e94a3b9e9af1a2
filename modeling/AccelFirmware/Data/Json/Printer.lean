import AccelFirmware.Data.Datum
import AccelFirmware.Text.Numeral

/-!
# Writing JSON

Two layouts of one value: on a single line, and indented by two blanks a level with `"key": value` entries. Empty
arrays and records stay on one line in both.
-/

namespace AccelFirmware.Json

/-- Control characters are escaped, with their short form where there is one. -/
def escapeChar (c : Char) : String :=
  match c with
  | '"' => "\\\""
  | '\\' => "\\\\"
  | '\n' => "\\n"
  | '\r' => "\\r"
  | '\t' => "\\t"
  | '\x08' => "\\b"
  | '\x0c' => "\\f"
  | c => if c.toNat < 0x20 then "\\u" ++ hexWide 4 c.toNat else String.singleton c

def quote (s : String) : String :=
  "\"" ++ String.join (s.toList.map escapeChar) ++ "\""

def scalar : Datum → String
  | .bool true => "true"
  | .bool false => "false"
  | .int n => if n < 0 then "-" ++ decimal n.natAbs else decimal n.natAbs
  | .real literal => literal
  | .text s => quote s
  | .moment literal => quote literal
  | _ => "null"

mutual

def compact : Datum → String
  | .list items => "[" ++ ",".intercalate (compactItems items) ++ "]"
  | .record entries => "\x7b" ++ ",".intercalate (compactEntries entries) ++ "\x7d"
  | d => scalar d

def compactItems : List Datum → List String
  | [] => []
  | d :: ds => compact d :: compactItems ds

def compactEntries : List (String × Datum) → List String
  | [] => []
  | (key, d) :: rest => (quote key ++ ":" ++ compact d) :: compactEntries rest

end

/-- Bracketed parts, each on a line of its own one level below `level`. -/
def block (first last : String) (level : Nat) (parts : List String) : String :=
  if parts.isEmpty then first ++ last
  else
    let margin (n : Nat) := String.ofList (List.replicate (2 * n) ' ')
    first ++ "\n" ++ ",\n".intercalate (parts.map (margin (level + 1) ++ ·)) ++ "\n" ++ margin level ++ last

mutual

def prettyAt : Datum → Nat → String
  | .list items, level => block "[" "]" level (prettyItems items (level + 1))
  | .record entries, level => block "\x7b" "\x7d" level (prettyEntries entries (level + 1))
  | d, _ => scalar d

def prettyItems : List Datum → Nat → List String
  | [], _ => []
  | d :: ds, level => prettyAt d level :: prettyItems ds level

def prettyEntries : List (String × Datum) → Nat → List String
  | [], _ => []
  | (key, d) :: rest, level => (quote key ++ ": " ++ prettyAt d level) :: prettyEntries rest level

end

def pretty (d : Datum) : String := prettyAt d 0

end AccelFirmware.Json
