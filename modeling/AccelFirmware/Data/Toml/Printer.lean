import AccelFirmware.Data.Datum
import AccelFirmware.Data.Toml.Quoted

/-!
# Writing TOML

A record becomes its plain entries, one a line, and then a table for each entry that is a record. TOML has no null:
entries without a value are left out.
-/

namespace AccelFirmware.Toml

/-- The text of a plain value, `none` for values that need a table or have no text. -/
def plain? : Datum → Option String
  | .bool true => some "true"
  | .bool false => some "false"
  | .int n => some (if n < 0 then "-" ++ decimal n.natAbs else decimal n.natAbs)
  | .text s => some (quote s)
  | _ => none

def plainLines (entries : List (String × Datum)) : String :=
  String.join (entries.filterMap fun (key, d) => (plain? d).map fun text => key ++ " = " ++ text ++ "\n")

def tableBlocks (entries : List (String × Datum)) : String :=
  String.join (entries.filterMap fun
    | (key, .record inner) => some ("\n[" ++ key ++ "]\n" ++ plainLines inner)
    | _ => none)

def print (entries : List (String × Datum)) : String :=
  plainLines entries ++ tableBlocks entries

end AccelFirmware.Toml
