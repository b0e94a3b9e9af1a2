/-!
# Command lines

The grammar that the words of a command line follow. A level takes flags, options with a value, and operands in any order,
or ends in a command with a level of its own. Every flag and option may be given once. The word `--` makes operands of all
words after it.
-/

namespace AccelFirmware

structure ArgumentLevel where
  flags : List String
  options : List String
  operands : Nat
  commands : List String
  /-- Whether `--version` ends the reading. -/
  showsVersion : Bool
  deriving DecidableEq, Repr

inductive ArgumentsEnd where
  | version
  | malformed
  deriving DecidableEq, Repr

structure Arguments where
  flags : List String
  options : List (String × String)
  operands : List String
  deriving DecidableEq, Repr

namespace Arguments

def none : Arguments := ⟨[], [], []⟩

def has (a : Arguments) (flag : String) : Bool := a.flags.contains flag

def option? (a : Arguments) (name : String) : Option String := a.options.lookup name

end Arguments

/-! ## Words -/

inductive Word where
  | separator
  /-- A long name, with a value if an equals sign follows. -/
  | long (name : String) (value : Option String)
  | letters (letters : List Char)
  | plain (text : String)
  deriving DecidableEq, Repr

namespace Word

def splitLong (text : List Char) : Word :=
  let name := String.ofList (text.takeWhile (· ≠ '='))
  match text.dropWhile (· ≠ '=') with
  | [] => .long name none
  | _ :: value => .long name (some (String.ofList value))

/-- The form of a word; a single dash is a plain one. -/
def ofText (text : String) : Word :=
  match text.toList with
  | ['-', '-'] => .separator
  | '-' :: '-' :: rest => splitLong rest
  | '-' :: c :: rest => .letters (c :: rest)
  | _ => .plain text

/-- Whether a word can be the value of the option in front of it. -/
def isPlain : Word → Bool
  | .plain _ => true
  | _ => false

end Word

def flagOfLetter : Char → Option String
  | 'v' => some "verbose"
  | 'V' => some "version"
  | _ => none

/-! ## Levels -/

namespace ArgumentLevel

variable (l : ArgumentLevel)

/-- A flag: known, and given once. -/
def takeFlag (a : Arguments) (name : String) : Except ArgumentsEnd Arguments :=
  if name = "version" && l.showsVersion then .error .version
  else if l.flags.contains name && !a.flags.contains name then .ok { a with flags := name :: a.flags }
  else .error .malformed

def takeLetters (a : Arguments) : List Char → Except ArgumentsEnd Arguments
  | [] => .ok a
  | c :: cs =>
      match flagOfLetter c with
      | some name => do
          let a ← l.takeFlag a name
          takeLetters a cs
      | none => .error .malformed

def takeOption (a : Arguments) (name value : String) : Except ArgumentsEnd Arguments :=
  if l.options.contains name && (a.option? name).isNone then .ok { a with options := (name, value) :: a.options }
  else .error .malformed

def takeOperand (a : Arguments) (text : String) : Except ArgumentsEnd Arguments :=
  if a.operands.length < l.operands then .ok { a with operands := a.operands ++ [text] }
  else .error .malformed

/-- Reads the words of a level, up to a command and the words that are left for it. -/
def read (a : Arguments) : List String → Except ArgumentsEnd (Arguments × Option (String × List String))
  | [] => .ok (a, none)
  | word :: rest =>
      if l.commands.contains word then .ok (a, some (word, rest))
      else
        match Word.ofText word with
        | .separator => do
            let a ← rest.foldlM l.takeOperand a
            pure (a, none)
        | .letters cs => do
            let a ← l.takeLetters a cs
            read a rest
        | .plain text => do
            let a ← l.takeOperand a text
            read a rest
        | .long name (some value) => do
            let a ← l.takeOption a name value
            read a rest
        | .long name none =>
            if l.options.contains name then
              match rest with
              | [] => .error .malformed
              | value :: rest =>
                  if (Word.ofText value).isPlain then do
                    let a ← l.takeOption a name value
                    read a rest
                  else .error .malformed
            else do
              let a ← l.takeFlag a name
              read a rest

end ArgumentLevel

end AccelFirmware
