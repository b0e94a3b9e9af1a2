import AccelFirmware.Data.Datum
import AccelFirmware.Text.Numeral

/-!
# Numbers and moments in TOML

Integers of 64 bits in four bases, floating-point numbers, and dates with times of day. Single underscores may
separate digits. Each reader returns the value and the characters that follow it.
-/

namespace AccelFirmware.Toml

abbrev Reader (α : Type) := List Char → Option (α × List Char)

/-! ## Digits -/

def isHexDigit (c : Char) : Bool := (hexValue? c).isSome
def isOctalDigit (c : Char) : Bool := '0' ≤ c && c ≤ '7'
def isBinaryDigit (c : Char) : Bool := c = '0' || c = '1'

/-- Further digits of a run, each of them alone or after an underscore. -/
def moreDigits (isDigit : Char → Bool) : List Char → List Char × List Char
  | '_' :: c :: rest =>
      if isDigit c then
        let (digits, rest) := moreDigits isDigit rest
        (c :: digits, rest)
      else ([], '_' :: c :: rest)
  | c :: rest =>
      if isDigit c then
        let (digits, rest) := moreDigits isDigit rest
        (c :: digits, rest)
      else ([], c :: rest)
  | [] => ([], [])

def digitRun (isDigit : Char → Bool) : Reader (List Char)
  | c :: rest =>
      if isDigit c then
        let (digits, rest) := moreDigits isDigit rest
        some (c :: digits, rest)
      else none
  | [] => none

/-- An optional sign; true stands for minus. -/
def sign : List Char → Bool × List Char
  | '+' :: rest => (false, rest)
  | '-' :: rest => (true, rest)
  | rest => (false, rest)

def decimalRun : Reader (List Char)
  | '0' :: rest => some (['0'], rest)
  | rest => digitRun Char.isDigit rest

/-! ## Integers -/

def valueIn (base : Nat) (digits : List Char) : Nat :=
  digits.foldl (fun n c => base * n + (hexValue? c).getD 0) 0

/-- Integers are signed words of 64 bits. -/
def boundedInteger (n : Int) : Option Datum :=
  if -0x8000000000000000 ≤ n ∧ n < 0x8000000000000000 then some (.int n) else none

def basedInteger (base : Nat) (isDigit : Char → Bool) : Reader Datum := fun cs => do
  let (digits, rest) ← digitRun isDigit cs
  let d ← boundedInteger (valueIn base digits)
  pure (d, rest)

def decimalInteger : Reader Datum := fun cs => do
  let (negative, cs) := sign cs
  let (digits, rest) ← decimalRun cs
  let magnitude : Int := valueIn 10 digits
  let d ← boundedInteger (if negative then -magnitude else magnitude)
  pure (d, rest)

def integer : Reader Datum
  | '0' :: 'x' :: cs => basedInteger 16 isHexDigit cs
  | '0' :: 'o' :: cs => basedInteger 8 isOctalDigit cs
  | '0' :: 'b' :: cs => basedInteger 2 isBinaryDigit cs
  | cs => decimalInteger cs

/-! ## Floating-point numbers -/

/-- Whether `digits · 10 ^ exponent` rounds to a finite double. Halfway between the greatest double and the next
power of two is the first number that does not. -/
def roundsToFinite (digits : Nat) (exponent : Int) : Bool :=
  if digits = 0 then true
  else if exponent > 400 then false
  else
    let bound := Nat.pow 2 1024 - Nat.pow 2 970
    if exponent ≥ 0 then digits * Nat.pow 10 exponent.toNat < bound
    else if (-exponent).toNat > (Nat.toDigits 10 digits).length then true
    else digits < bound * Nat.pow 10 (-exponent).toNat

def fraction : Reader (List Char)
  | '.' :: cs => digitRun Char.isDigit cs
  | _ => none

def exponent : Reader Int
  | c :: cs =>
      if c = 'e' || c = 'E' then
        let (negative, cs) := sign cs
        (digitRun Char.isDigit cs).map fun (digits, rest) =>
          (if negative then -(valueIn 10 digits : Int) else valueIn 10 digits, rest)
      else none
  | [] => none

def literalOf (cs rest : List Char) : String :=
  String.ofList (cs.take (cs.length - rest.length))

/-- A float has a fraction, an exponent, or both. A positive one may not overflow. -/
def float : Reader Datum := fun cs => do
  let (negative, body) := sign cs
  let (whole, afterWhole) ← decimalRun body
  let (frac, afterFrac) := (fraction afterWhole).getD ([], afterWhole)
  let (power, rest) := (exponent afterFrac).getD (0, afterFrac)
  if rest.length = afterWhole.length then none
  else if negative || roundsToFinite (valueIn 10 (whole ++ frac)) (power - frac.length) then
    pure (.real (literalOf cs rest), rest)
  else none

def specialFloat : Reader Datum := fun cs =>
  match (sign cs).2 with
  | 'i' :: 'n' :: 'f' :: rest => some (.real (literalOf cs rest), rest)
  | 'n' :: 'a' :: 'n' :: rest => some (.real (literalOf cs rest), rest)
  | _ => none

/-! ## Moments -/

/-- A number of exactly `n` decimal digits between two bounds. -/
def fixedDigits (n low high : Nat) : Reader Nat := fun cs => do
  let digits := cs.take n
  if digits.length ≠ n then none
  else
    let value ← readDecimal digits
    if low ≤ value ∧ value ≤ high then pure (value, cs.drop n) else none

def expect (c : Char) : List Char → Option (List Char)
  | c' :: rest => if c' = c then some rest else none
  | [] => none

def isLeapYear (year : Nat) : Bool :=
  year % 4 = 0 && (year % 100 ≠ 0 || year % 400 = 0)

def daysInMonth (year month : Nat) : Nat :=
  match month with
  | 2 => if isLeapYear year then 29 else 28
  | 4 | 6 | 9 | 11 => 30
  | _ => 31

def date (cs : List Char) : Option (List Char) := do
  let (year, cs) ← fixedDigits 4 0 9999 cs
  let cs ← expect '-' cs
  let (month, cs) ← fixedDigits 2 1 12 cs
  let cs ← expect '-' cs
  let (_, cs) ← fixedDigits 2 1 (daysInMonth year month) cs
  pure cs

def secondFraction (cs : List Char) : Option (List Char) :=
  match cs with
  | '.' :: rest =>
      match rest.span Char.isDigit with
      | ([], _) => none
      | (_, rest) => some rest
  | cs => some cs

def clockTime (cs : List Char) : Option (List Char) := do
  let (_, cs) ← fixedDigits 2 0 23 cs
  let cs ← expect ':' cs
  let (_, cs) ← fixedDigits 2 0 59 cs
  let cs ← expect ':' cs
  let (_, cs) ← fixedDigits 2 0 60 cs
  secondFraction cs

def zone (cs : List Char) : Option (List Char) :=
  match cs with
  | c :: rest =>
      if c = 'Z' || c = 'z' then some rest
      else if c = '+' || c = '-' then do
        let (_, rest) ← fixedDigits 2 0 23 rest
        let rest ← expect ':' rest
        let (_, rest) ← fixedDigits 2 0 59 rest
        pure rest
      else none
  | [] => none

def timeOfDate (cs : List Char) : Option (List Char) :=
  match cs with
  | c :: rest =>
      if c = 'T' || c = 't' || c = ' ' then do
        let rest ← clockTime rest
        pure ((zone rest).getD rest)
      else none
  | [] => none

def moment : Reader Datum := fun cs =>
  match date cs with
  | some rest =>
      let rest := (timeOfDate rest).getD rest
      some (.moment (literalOf cs rest), rest)
  | none => (clockTime cs).map fun rest => (.moment (literalOf cs rest), rest)

/-- A moment, a float or an integer, whichever reads first in this order. -/
def numeric : Reader Datum := fun cs =>
  moment cs <|> float cs <|> specialFloat cs <|> integer cs

end AccelFirmware.Toml
