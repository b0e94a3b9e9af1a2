import AccelFirmware.Text.Numeral

/-!
# Quoted text in TOML

The four quoted forms: on one line or over several, with escapes or without. Reading takes the characters after the
opening quotes and returns the text with what follows the closing quotes. Writing picks the first form that needs no
escape it does not have.
-/

namespace AccelFirmware.Toml

/-- Characters that may stand for themselves: control characters other than the tab may not. -/
def isVisible (c : Char) : Bool :=
  c = '\t' || (0x20 ≤ c.toNat && c.toNat ≠ 0x7f)

/-! ## Reading -/

def shortEscape? : Char → Option Char
  | 'b' => some '\x08'
  | 't' => some '\t'
  | 'n' => some '\n'
  | 'f' => some '\x0c'
  | 'r' => some '\r'
  | '"' => some '"'
  | '\\' => some '\\'
  | _ => none

def codePoint? (digits : List Char) : Option Char :=
  match readHex digits with
  | some n => if n.isValidChar then some (Char.ofNat n) else none
  | none => none

def prepend (c : Option Char) (r : Option (List Char × List Char)) : Option (List Char × List Char) :=
  match c, r with
  | some c, some (text, rest) => some (c :: text, rest)
  | _, _ => none

def readBasic : List Char → Option (List Char × List Char)
  | [] => none
  | '"' :: rest => some ([], rest)
  | '\\' :: 'u' :: a :: b :: c :: d :: rest => prepend (codePoint? [a, b, c, d]) (readBasic rest)
  | '\\' :: 'U' :: a :: b :: c :: d :: e :: f :: g :: h :: rest =>
      prepend (codePoint? [a, b, c, d, e, f, g, h]) (readBasic rest)
  | '\\' :: c :: rest => prepend (shortEscape? c) (readBasic rest)
  | c :: rest => if isVisible c && c ≠ '\\' then prepend (some c) (readBasic rest) else none

def readLiteral : List Char → Option (List Char × List Char)
  | [] => none
  | '\x27' :: rest => some ([], rest)
  | c :: rest => if isVisible c then prepend (some c) (readLiteral rest) else none

/-- Where a reader of text over several lines stands: in the text, or after a backslash that joins lines, before or
after the line end that has to follow. -/
inductive JoinState where
  | text
  | lineEnd
  | margin
  deriving DecidableEq, Repr

/-- Text over several lines with escapes. One or two quotes right in front of the closing three belong to the text. -/
def readMultiBasic : JoinState → List Char → Option (List Char × List Char)
  | _, [] => none
  | .lineEnd, '\r' :: '\n' :: rest | .lineEnd, '\n' :: rest => readMultiBasic .margin rest
  | .lineEnd, c :: rest => if c = ' ' || c = '\t' then readMultiBasic .lineEnd rest else none
  | .margin, '\r' :: '\n' :: rest | .margin, '\n' :: rest | .margin, ' ' :: rest | .margin, '\t' :: rest =>
      readMultiBasic .margin rest
  | _, '"' :: '"' :: '"' :: '"' :: '"' :: rest => some (['"', '"'], rest)
  | _, '"' :: '"' :: '"' :: '"' :: rest => some (['"'], rest)
  | _, '"' :: '"' :: '"' :: rest => some ([], rest)
  | _, '\r' :: '\n' :: rest | _, '\n' :: rest => prepend (some '\n') (readMultiBasic .text rest)
  | _, '\\' :: 'u' :: a :: b :: c :: d :: rest =>
      prepend (codePoint? [a, b, c, d]) (readMultiBasic .text rest)
  | _, '\\' :: 'U' :: a :: b :: c :: d :: e :: f :: g :: h :: rest =>
      prepend (codePoint? [a, b, c, d, e, f, g, h]) (readMultiBasic .text rest)
  | _, '\\' :: '\r' :: '\n' :: rest | _, '\\' :: '\n' :: rest => readMultiBasic .margin rest
  | _, '\\' :: c :: rest =>
      if c = ' ' || c = '\t' then readMultiBasic .lineEnd rest
      else prepend (shortEscape? c) (readMultiBasic .text rest)
  | _, c :: rest =>
      if isVisible c && c ≠ '\\' then prepend (some c) (readMultiBasic .text rest) else none

def readMultiLiteral : List Char → Option (List Char × List Char)
  | [] => none
  | '\x27' :: '\x27' :: '\x27' :: '\x27' :: '\x27' :: rest => some (['\x27', '\x27'], rest)
  | '\x27' :: '\x27' :: '\x27' :: '\x27' :: rest => some (['\x27'], rest)
  | '\x27' :: '\x27' :: '\x27' :: rest => some ([], rest)
  | '\r' :: '\n' :: rest | '\n' :: rest => prepend (some '\n') (readMultiLiteral rest)
  | c :: rest => if isVisible c then prepend (some c) (readMultiLiteral rest) else none

/-- A line end right after three opening quotes is not part of the text. -/
def dropLineEnd : List Char → List Char
  | '\r' :: '\n' :: rest | '\n' :: rest => rest
  | cs => cs

def readQuoted : List Char → Option (List Char × List Char)
  | '"' :: '"' :: '"' :: rest => readMultiBasic .text (dropLineEnd rest)
  | '"' :: rest => readBasic rest
  | '\x27' :: '\x27' :: '\x27' :: rest => readMultiLiteral (dropLineEnd rest)
  | '\x27' :: rest => readLiteral rest
  | _ => none

/-! ## Writing -/

inductive Quoting where
  | basic
  | literal
  | multiBasic
  | multiLiteral
  deriving DecidableEq, Repr

/-- The longest run of `q`, where `run` of them stand right before. -/
def longestRun (q : Char) (run : Nat) : List Char → Nat
  | [] => run
  | c :: cs => if c = q then longestRun q (run + 1) cs else max run (longestRun q 0 cs)

/-- Control characters that need an escape in every form with escapes. -/
def needsEscape (c : Char) : Bool :=
  (c.toNat ≤ 0x1f && c ≠ '\t' && c ≠ '\n') || c.toNat = 0x7f

def Quoting.choose (cs : List Char) : Quoting :=
  let controls := cs.any needsEscape
  let backslash := cs.contains '\\'
  let lines := cs.contains '\n'
  let doubles := longestRun '"' 0 cs
  let singles := longestRun '\x27' 0 cs
  if !controls && !backslash && doubles = 0 && !lines then .basic
  else if !controls && singles = 0 && !lines then .literal
  else if !controls && !backslash && doubles ≤ 2 then .multiBasic
  else if !controls && singles ≤ 2 then .multiLiteral
  else if lines then .multiBasic
  else .basic

def escape (c : Char) : List Char :=
  match c with
  | '\\' => ['\\', '\\']
  | '\x08' => ['\\', 'b']
  | '\t' => ['\\', 't']
  | '\x0c' => ['\\', 'f']
  | '\r' => ['\\', 'r']
  | c => if needsEscape c then '\\' :: 'u' :: padLeft '0' 4 (Radix.upperHex.write c.toNat) else [c]

def writeBasic : List Char → List Char
  | [] => []
  | '"' :: cs => '\\' :: '"' :: writeBasic cs
  | '\n' :: cs => '\\' :: 'n' :: writeBasic cs
  | c :: cs => escape c ++ writeBasic cs

/-- The third quote of a run is escaped, which starts a new run; `run` of them stand right before. -/
def writeMultiBasic (run : Nat) : List Char → List Char
  | [] => []
  | '"' :: cs => if run = 2 then '\\' :: '"' :: writeMultiBasic 0 cs else '"' :: writeMultiBasic (run + 1) cs
  | '\n' :: cs => '\n' :: writeMultiBasic 0 cs
  | c :: cs => escape c ++ writeMultiBasic 0 cs

def openMulti (q : Char) (cs : List Char) : List Char :=
  q :: q :: q :: if cs.contains '\n' then ['\n'] else []

def Quoting.write : Quoting → List Char → List Char
  | .basic, cs => '"' :: writeBasic cs ++ ['"']
  | .literal, cs => '\x27' :: cs ++ ['\x27']
  | .multiBasic, cs => openMulti '"' cs ++ writeMultiBasic 0 cs ++ ['"', '"', '"']
  | .multiLiteral, cs => openMulti '\x27' cs ++ cs ++ ['\x27', '\x27', '\x27']

def quote (text : String) : String :=
  String.ofList ((Quoting.choose text.toList).write text.toList)

end AccelFirmware.Toml
