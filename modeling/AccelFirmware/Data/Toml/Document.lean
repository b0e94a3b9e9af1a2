import AccelFirmware.Data.Toml.Number
import AccelFirmware.Data.Toml.Quoted
import AccelFirmware.Data.Toml.Table

/-!
# TOML documents

A document is a sequence of lines: blank ones, headers, and keys with values. `parse` reads them in order and builds
the tree of tables. `fuel` bounds the number of values, keys and lines; the length of the text is always enough.
-/

namespace AccelFirmware.Toml

/-! ## Space and line ends -/

def isSpace (c : Char) : Bool := c = ' ' || c = '\t'

def skipSpace : List Char → List Char := List.dropWhile isSpace

/-- What follows a line end; at the end of the text there is one too. -/
def lineEnd : List Char → Option (List Char)
  | '\r' :: '\n' :: rest | '\n' :: rest => some rest
  | [] => some []
  | _ => none

def skipComment : List Char → List Char
  | '#' :: rest => rest.dropWhile isVisible
  | rest => rest

def lineTail (cs : List Char) : Option (List Char) :=
  lineEnd (skipComment (skipSpace cs))

def skipFiller : Nat → List Char → List Char
  | 0, cs => cs
  | fuel + 1, cs =>
      match cs with
      | ' ' :: rest | '\t' :: rest | '\r' :: '\n' :: rest | '\n' :: rest => skipFiller fuel rest
      | '#' :: rest => skipFiller fuel (rest.dropWhile isVisible)
      | cs => cs

/-! ## Keys -/

/-- Values and dotted keys may not nest this deep. -/
def depthLimit : Nat := 80

def isBareKeyChar (c : Char) : Bool :=
  c.isAlphanum || c = '_' || c = '-'

def simpleKey : Reader String
  | '"' :: rest => (readBasic rest).map fun (text, rest) => (String.ofList text, rest)
  | '\x27' :: rest => (readLiteral rest).map fun (text, rest) => (String.ofList text, rest)
  | cs =>
      match cs.span isBareKeyChar with
      | ([], _) => none
      | (text, rest) => some (String.ofList text, rest)

def keyParts : Nat → Reader (List String)
  | 0, _ => none
  | fuel + 1, cs => do
      let (part, cs) ← simpleKey (skipSpace cs)
      match skipSpace cs with
      | '.' :: cs =>
          let (parts, cs) ← keyParts fuel cs
          pure (part :: parts, cs)
      | cs => pure ([part], cs)

structure Key where
  path : List String
  last : String
  deriving DecidableEq, Repr

def key (fuel : Nat) : Reader Key := fun cs => do
  let (parts, cs) ← keyParts fuel cs
  if parts.length < depthLimit then
    let last ← parts.getLast?
    pure (⟨parts.dropLast, last⟩, cs)
  else none

/-! ## Values -/

mutual

def value (depth : Nat) : Nat → Reader Datum
  | 0, _ => none
  | fuel + 1, cs =>
      match cs with
      | '[' :: rest => if depth + 1 < depthLimit then arrayItems (depth + 1) fuel rest [] else none
      | '\x7b' :: rest =>
          if depth + 1 < depthLimit then
            match skipSpace rest with
            | '\x7d' :: rest => some (.record [], rest)
            | rest => inlineEntries (depth + 1) fuel rest []
          else none
      | 't' :: 'r' :: 'u' :: 'e' :: rest => some (.bool true, rest)
      | 'f' :: 'a' :: 'l' :: 's' :: 'e' :: rest => some (.bool false, rest)
      | '"' :: _ | '\x27' :: _ => (readQuoted cs).map fun (text, rest) => (.text (String.ofList text), rest)
      | cs => numeric cs

/-- The rest of an array, where `items` come before, in reverse. -/
def arrayItems (depth : Nat) : Nat → List Char → List Datum → Option (Datum × List Char)
  | 0, _, _ => none
  | fuel + 1, cs, items =>
      match skipFiller fuel cs with
      | ']' :: rest => some (.list items.reverse, rest)
      | cs => do
          let (d, cs) ← value depth fuel cs
          match skipFiller fuel cs with
          | ',' :: cs => arrayItems depth fuel cs (d :: items)
          | ']' :: cs => some (.list (d :: items).reverse, cs)
          | _ => none

/-- The rest of an inline table, where `made` comes before. -/
def inlineEntries (depth : Nat) : Nat → List Char → Entries → Option (Datum × List Char)
  | 0, _, _ => none
  | fuel + 1, cs, made => do
      let (k, cs) ← key fuel cs
      let cs ← expect '=' cs
      let (d, cs) ← value depth fuel (skipSpace cs)
      let made ← put k.path k.last d made
      match skipSpace cs with
      | ',' :: cs => inlineEntries depth fuel cs made
      | '\x7d' :: cs => some (.record (entriesDatum made), cs)
      | _ => none

end

/-! ## Lines -/

inductive Expression where
  | header (key : Key)
  | itemHeader (key : Key)
  | entry (key : Key) (value : Datum)
  deriving Repr

def expression (fuel : Nat) : Reader Expression
  | '[' :: '[' :: cs => do
      let (k, cs) ← key fuel cs
      let cs ← expect ']' cs
      let cs ← expect ']' cs
      let cs ← lineTail cs
      pure (.itemHeader k, cs)
  | '[' :: cs => do
      let (k, cs) ← key fuel cs
      let cs ← expect ']' cs
      let cs ← lineTail cs
      pure (.header k, cs)
  | cs => do
      let (k, cs) ← key fuel cs
      let cs ← expect '=' cs
      let (d, cs) ← value 0 fuel (skipSpace cs)
      let cs ← lineTail cs
      pure (.entry k d, cs)

def expressions : Nat → List Char → Option (List Expression)
  | 0, _ => none
  | fuel + 1, cs =>
      match skipSpace cs with
      | [] => some []
      | '#' :: rest => (lineEnd (rest.dropWhile isVisible)).bind (expressions fuel)
      | '\r' :: '\n' :: rest | '\n' :: rest => expressions fuel rest
      | cs => do
          let (e, cs) ← expression fuel cs
          let es ← expressions fuel cs
          pure (e :: es)

/-! ## Trees -/

structure Draft where
  root : Entries
  current : List String

def Draft.add (t : Draft) : Expression → Option Draft
  | .header k => do
      let root ← atHeader (openTable k.last) k.path t.root
      pure ⟨root, k.path ++ [k.last]⟩
  | .itemHeader k => do
      let root ← atHeader (openItem k.last) k.path t.root
      pure ⟨root, k.path ++ [k.last]⟩
  | .entry k d => do
      let root ← atHeader (put k.path k.last d) t.current t.root
      pure { t with root := root }

def ofExpressions (es : List Expression) : Option Datum := do
  let t ← es.foldlM Draft.add ⟨[], []⟩
  pure (.record (entriesDatum t.root))

/-- A byte order mark in front of the text is skipped. -/
def dropMark : List Char → List Char
  | '\ufeff' :: rest => rest
  | cs => cs

def parse (text : String) : Option Datum :=
  let cs := dropMark text.toList
  (expressions (cs.length + 1) cs).bind ofExpressions

end AccelFirmware.Toml
