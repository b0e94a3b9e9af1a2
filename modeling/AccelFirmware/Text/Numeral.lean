/-!
# Written numbers

A natural number is written as its digits in a base, most significant first. `Radix` adds the letter case
of digits beyond nine. Field widths are filled on the left.
-/

namespace AccelFirmware

/-- The digits of `n` in base `b`, most significant first; `0` is one digit. -/
def digits (b n : Nat) : List Nat :=
  if n < b ∨ b < 2 then [n] else digits b (n / b) ++ [n % b]
termination_by n
decreasing_by exact Nat.div_lt_self (by omega) (by omega)

/-- A base together with the case of its letters. -/
inductive Radix where
  | decimal
  | lowerHex
  | upperHex
  | octal
  | binary
  deriving DecidableEq, Repr

namespace Radix

def base : Radix → Nat
  | .decimal => 10
  | .lowerHex | .upperHex => 16
  | .octal => 8
  | .binary => 2

/-- The letter case only shows from ten upwards. -/
def digitChar (r : Radix) (d : Nat) : Char :=
  if d < 10 then Char.ofNat (48 + d)
  else if r = .upperHex then Char.ofNat (55 + d)
  else Char.ofNat (87 + d)

def write (r : Radix) (n : Nat) : List Char :=
  (digits r.base n).map r.digitChar

end Radix

def padLeft (fill : Char) (width : Nat) (text : List Char) : List Char :=
  List.replicate (width - text.length) fill ++ text

def padRight (width : Nat) (text : String) : String :=
  text ++ String.ofList (List.replicate (width - text.length) ' ')

def decimal (n : Nat) : String :=
  String.ofList (Radix.decimal.write n)

def hex (n : Nat) : String :=
  String.ofList (Radix.lowerHex.write n)

/-- `n` in lower-case hexadecimal with at least `width` digits. -/
def hexWide (width n : Nat) : String :=
  String.ofList (padLeft '0' width (Radix.lowerHex.write n))

/-- The decimal value of a run of ASCII digits, `none` when another character occurs. -/
def readDecimal (text : List Char) : Option Nat :=
  if text.all Char.isDigit then some (text.foldl (fun n c => 10 * n + (c.toNat - 48)) 0) else none

def hexValue? (c : Char) : Option Nat :=
  if c.isDigit then some (c.toNat - 48)
  else if 'a' ≤ c ∧ c ≤ 'f' then some (c.toNat - 87)
  else if 'A' ≤ c ∧ c ≤ 'F' then some (c.toNat - 55)
  else none

def readHex (text : List Char) : Option Nat :=
  text.foldlM (fun n c => (hexValue? c).map (16 * n + ·)) 0

end AccelFirmware
