/-!
# Lines of text

Generated code is a list of lines, each with its own indentation, until it is joined into text.
`splitLines` is the reading direction: a line ends at a line feed, and a carriage return right before
the line feed belongs to the line end.
-/

namespace AccelFirmware

/-- One line of generated code: `indent` levels of two blanks, then `text`. -/
structure Line where
  indent : Nat
  text : String
  deriving DecidableEq, Repr

def indentation (depth : Nat) : String :=
  String.ofList (List.replicate (2 * depth) ' ')

namespace Line

def render (l : Line) : String :=
  indentation l.indent ++ l.text ++ "\n"

def renderAll (ls : List Line) : String :=
  String.join (ls.map render)

@[simp] theorem renderAll_nil : renderAll [] = "" := rfl

end Line

/-- The line that ends in front of a line feed, given its characters in reverse. -/
def closeLine : List Char → String
  | '\r' :: r => String.ofList r.reverse
  | r => String.ofList r.reverse

/-- Lines of `text`, where `seen` holds the characters of the current line in reverse. -/
def splitLinesFrom (seen : List Char) : List Char → List String
  | [] => if seen.isEmpty then [] else [String.ofList seen.reverse]
  | '\n' :: text => closeLine seen :: splitLinesFrom [] text
  | c :: text => splitLinesFrom (c :: seen) text

/-- The lines of `text`. Text after the last line feed is a line of its own when it is not empty, and then
keeps a carriage return at its end. -/
def splitLines (text : String) : List String :=
  splitLinesFrom [] text.toList

end AccelFirmware
