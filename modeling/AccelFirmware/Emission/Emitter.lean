import AccelFirmware.Emission.Sink
import AccelFirmware.Operation.Render

/-!
# The emitter

The emitter collects text for every sink and brackets operations into functions. Each sink has at most one open
function, and a function name is defined at most once over all sinks. A step that breaks a rule is refused and
changes nothing. Closing the emitter checks that nothing is left open and that every function the operations
refer to has been defined.
-/

namespace AccelFirmware

structure Signature where
  returnType : String
  name : String
  arguments : String
  deriving DecidableEq, Repr

namespace Signature

def procedure (name : String) : Signature := ⟨"void", name, "void"⟩

def status (name : String) : Signature := ⟨"int", name, "void"⟩

def render (s : Signature) : String :=
  s.returnType ++ " " ++ s.name ++ "(" ++ s.arguments ++ ")"

end Signature

structure Definition where
  sink : Sink
  name : String
  deriving DecidableEq, Repr

inductive EmitError where
  | alreadyOpen (sink : Sink) (current requested : String)
  | nothingOpen (sink : Sink)
  | leftOpen (sink : Sink) (name : String)
  | duplicate (name : String)
  | unresolved (name : String)
  deriving DecidableEq, Repr

def EmitError.message : EmitError → String
  | .alreadyOpen sink current requested =>
      "cannot open '" ++ requested ++ "' on " ++ sink.name ++ ": '" ++ current ++ "' is still open"
  | .nothingOpen sink => "no function is open on " ++ sink.name
  | .leftOpen sink name =>
      "function '" ++ name ++ "' is still open on " ++ sink.name ++ " at end of synthesis"
  | .duplicate name => "function '" ++ name ++ "' is defined twice"
  | .unresolved name => "call to '" ++ name ++ "' has no matching definition"

/-- The text of one sink so far, and the function open on it. -/
structure Stream where
  text : String
  unit : Option Signature
  deriving DecidableEq, Repr

structure Emitter where
  streams : PerSink Stream
  /-- Closed functions in order of closing. -/
  defined : List Definition
  referenced : List String
  deriving DecidableEq, Repr

/-- Text of every sink and the functions in it, once all rules hold. -/
structure EmittedText where
  texts : PerSink String
  functions : List Definition
  deriving DecidableEq, Repr

inductive EmitStep where
  | openUnit (sink : Sink) (signature : Signature)
  /-- Closes the open function; `result` is the expression it returns. -/
  | closeUnit (sink : Sink) (result : Option String)
  | function (sink : Sink) (signature : Signature) (body : List Operation) (result : Option String)
  | push (sink : Sink) (ops : List Operation)
  | raw (sink : Sink) (text : String)
  deriving Repr

namespace Emitter

def empty : Emitter := ⟨PerSink.const ⟨"", none⟩, [], []⟩

def isOpen (e : Emitter) (s : Sink) : Bool :=
  (e.streams.get s).unit.isSome

def defines (e : Emitter) (name : String) : Bool :=
  e.defined.any (·.name == name)

/-! ## Steps -/

def raw (e : Emitter) (s : Sink) (text : String) : Emitter :=
  let stream := e.streams.get s
  { e with streams := e.streams.set s { stream with text := stream.text ++ text } }

/-- Operations lie one level deep inside a function and at the margin outside. -/
def depth (e : Emitter) (s : Sink) : Nat :=
  if e.isOpen s then 1 else 0

def push (e : Emitter) (s : Sink) (ops : List Operation) : Emitter :=
  { e.raw s (Operation.renderAll ops (e.depth s)) with
    referenced := e.referenced ++ Operation.referencesOfAll ops }

def openUnit (e : Emitter) (s : Sink) (signature : Signature) : Except EmitError Emitter :=
  let stream := e.streams.get s
  match stream.unit with
  | some current => .error (.alreadyOpen s current.name signature.name)
  | none =>
      if e.defines signature.name then .error (.duplicate signature.name)
      else
        .ok { e with
          streams := e.streams.set s ⟨stream.text ++ signature.render ++ "\n\x7b\n", some signature⟩ }

def closing : Option String → String
  | none => "\x7d\n\n"
  | some result => "\n  return " ++ result ++ ";\n\x7d\n\n"

def closeUnit (e : Emitter) (s : Sink) (result : Option String) : Except EmitError Emitter :=
  let stream := e.streams.get s
  match stream.unit with
  | none => .error (.nothingOpen s)
  | some signature =>
      .ok { e with
        streams := e.streams.set s ⟨stream.text ++ closing result, none⟩
        defined := e.defined ++ [⟨s, signature.name⟩] }

def step (e : Emitter) : EmitStep → Except EmitError Emitter
  | .openUnit s signature => e.openUnit s signature
  | .closeUnit s result => e.closeUnit s result
  | .function s signature body result => do
      let e ← e.openUnit s signature
      (e.push s body).closeUnit s result
  | .push s ops => .ok (e.push s ops)
  | .raw s text => .ok (e.raw s text)

/-- Takes the steps in order and stops at the first refusal. -/
def run (e : Emitter) (steps : List EmitStep) : Except EmitError Emitter :=
  steps.foldlM step e

/-! ## Closing -/

def leftOpen? (e : Emitter) : Option EmitError :=
  Sink.all.findSome? fun s => (e.streams.get s).unit.map fun signature => .leftOpen s signature.name

def leastName? : List String → Option String
  | [] => none
  | name :: names =>
      match leastName? names with
      | none => some name
      | some least => some (if name < least then name else least)

def unresolved? (e : Emitter) : Option String :=
  leastName? (e.referenced.filter fun name => !e.defines name)

def finish (e : Emitter) : Except EmitError EmittedText :=
  match e.leftOpen? with
  | some err => .error err
  | none =>
      match e.unresolved? with
      | some name => .error (.unresolved name)
      | none => .ok ⟨e.streams.map (·.text), e.defined⟩

end Emitter

namespace EmittedText

def streams (t : EmittedText) : List (Sink × String) :=
  (Sink.all.map fun s => (s, t.texts.get s)).filter fun (_, text) => !text.isEmpty

end EmittedText

end AccelFirmware
