import AccelFirmware.Literal.ElementFormat

/-!
# Array literals

Weights, biases and golden data leave the library as one `#define` whose value is an initializer in braces.
Lines end in a backslash, and a line holds `wrapWidth` elements; the last line may hold fewer.
-/

namespace AccelFirmware

structure ArrayLiteral where
  name : String
  values : List Int
  format : ElementFormat
  wrapWidth : Nat
  deriving DecidableEq, Repr

namespace ArrayLiteral

/-- A zero wrap width is refused before the descriptor is read. -/
def make (name : String) (values : List Int) (descriptor : String) (wrapWidth : Nat) :
    Except FormatError ArrayLiteral :=
  if wrapWidth = 0 then .error .zeroWrapWidth
  else
    match ElementFormat.parse descriptor with
    | .ok format => .ok ⟨name, values, format, wrapWidth⟩
    | .error e => .error e

/-- What follows the `n`-th element, counted from one, when another element comes after it. -/
def separator (wrapWidth n : Nat) : String :=
  if n % wrapWidth = 0 then ", \\\n  " else ", "

/-- The elements from the `n`-th on, counted from one. -/
def elements (format : ElementFormat) (wrapWidth : Nat) : Nat → List Int → String
  | _, [] => ""
  | _, [v] => format.format v
  | n, v :: vs => format.format v ++ separator wrapWidth n ++ elements format wrapWidth (n + 1) vs

def define (a : ArrayLiteral) : String :=
  "#define " ++ a.name ++ " \x7b \\\n  " ++ elements a.format a.wrapWidth 1 a.values ++ " \\\n\x7d\n"

end ArrayLiteral

def defineArray (name : String) (values : List Int) (descriptor : String) (wrapWidth : Nat) :
    Except FormatError String :=
  (ArrayLiteral.make name values descriptor wrapWidth).map ArrayLiteral.define

end AccelFirmware
