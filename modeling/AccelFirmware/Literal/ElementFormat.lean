import AccelFirmware.Text.Numeral

/-!
# Element formats

How one array element is written. A format is given by a descriptor `leading%spec`, such as `0x%08x` or `%d`:
literal text, a percent sign, an optional field width that may start with `0` for zero filling, and an optional
letter for the radix. Reading a descriptor either gives a format or names the defect.
-/

namespace AccelFirmware

structure NumberFormat where
  zeroFill : Bool
  width : Nat
  radix : Radix
  deriving DecidableEq, Repr

structure ElementFormat where
  leading : String
  number : NumberFormat
  deriving DecidableEq, Repr

/-- What is wrong with the part of a descriptor after the percent sign. -/
inductive FormatDefect where
  | empty
  | presentation
  | flags
  | widthRange
  | secondPercent
  deriving DecidableEq, Repr

inductive FormatError where
  | missingNumber (descriptor : String)
  | invalidNumber (spec : String) (defect : FormatDefect)
  | zeroWrapWidth
  deriving DecidableEq, Repr

namespace FormatDefect

def reason : FormatDefect → String
  | .empty => "empty format"
  | .presentation => "unsupported presentation type"
  | .flags => "only zero-fill and width are supported"
  | .widthRange => "width out of range"
  | .secondPercent => "more than one '%'"

end FormatDefect

namespace FormatError

def message : FormatError → String
  | .missingNumber descriptor =>
      "format descriptor '" ++ descriptor ++ "' has no numeric-format component"
  | .invalidNumber spec defect => "invalid numeric format '" ++ spec ++ "': " ++ defect.reason
  | .zeroWrapWidth => "wrap width must be at least 1"

end FormatError

/-! ## Reading -/

/-- Field widths are 64-bit words. -/
def widthLimit : Nat := UInt64.size

namespace NumberFormat

def radixOf? : Char → Option Radix
  | 'd' => some .decimal
  | 'x' => some .lowerHex
  | 'X' => some .upperHex
  | 'o' => some .octal
  | 'b' => some .binary
  | _ => none

/-- A run of width digits in front of the radix; the run may be empty. -/
def ofDigits (width : List Char) (radix : Radix) : Except FormatDefect NumberFormat :=
  match readDecimal width with
  | none => .error .flags
  | some w =>
      if w < widthLimit then .ok ⟨width.head? == some '0', w, radix⟩ else .error .widthRange

/-- Reads `[0][width][letter]`. A digit in the last place leaves the radix decimal. -/
def parse (spec : List Char) : Except FormatDefect NumberFormat :=
  match spec.getLast? with
  | none => .error .empty
  | some last =>
      match radixOf? last with
      | some radix => ofDigits spec.dropLast radix
      | none => if last.isDigit then ofDigits spec .decimal else .error .presentation

end NumberFormat

namespace ElementFormat

/-- Splits at the first percent sign; a second one is a defect of its own. -/
def parse (descriptor : String) : Except FormatError ElementFormat :=
  match descriptor.toList.span (· ≠ '%') with
  | (_, []) => .error (.missingNumber descriptor)
  | (leading, _ :: spec) =>
      if '%' ∈ spec then .error (.invalidNumber (String.ofList spec) .secondPercent)
      else
        match NumberFormat.parse spec with
        | .ok number => .ok ⟨String.ofList leading, number⟩
        | .error defect => .error (.invalidNumber (String.ofList spec) defect)

end ElementFormat

/-! ## Writing -/

namespace NumberFormat

def sign (value : Int) : List Char :=
  if value < 0 then ['-'] else []

/-- Zeros go between the sign and the digits, blanks in front of the sign. -/
def format (f : NumberFormat) (value : Int) : List Char :=
  let written := f.radix.write value.natAbs
  if f.zeroFill then sign value ++ padLeft '0' (f.width - (sign value).length) written
  else padLeft ' ' f.width (sign value ++ written)

end NumberFormat

namespace ElementFormat

def format (f : ElementFormat) (value : Int) : String :=
  f.leading ++ String.ofList (f.number.format value)

end ElementFormat

end AccelFirmware
