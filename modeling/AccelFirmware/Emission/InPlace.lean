import AccelFirmware.Emission.Emitter

/-!
# Emitting in place

An emitter that its steps change in place, one change after the other. A change stays when the step is refused after it: a stream
is there from the moment it is asked for, and closing takes the open function off its sink before it looks whether there was one.
-/

namespace AccelFirmware

structure LiveEmitter where
  /-- Streams that no step has asked for are not there yet. -/
  streams : PerSink (Option Stream)
  defined : List Definition
  referenced : List String
  deriving DecidableEq, Repr

/-- Changes of an emitter that may end in a refusal. -/
abbrev Emitting := ExceptT EmitError (StateM LiveEmitter)

/-- What changes come to, and the emitter that they leave. -/
def Emitting.runOn {α : Type} (action : Emitting α) (e : LiveEmitter) : Except EmitError α × LiveEmitter :=
  action.run.run e

namespace LiveEmitter

def empty : LiveEmitter := ⟨.const none, [], []⟩

def isOpen (e : LiveEmitter) (s : Sink) : Bool := (e.streams.get s).any (·.unit.isSome)

def defines (e : LiveEmitter) (name : String) : Bool := e.defined.any (·.name == name)

/-! ## Changes -/

def stream (s : Sink) : Emitting Stream := do
  let e ← get
  let stream := (e.streams.get s).getD ⟨"", none⟩
  set { e with streams := e.streams.set s (some stream) }
  pure stream

def setStream (s : Sink) (stream : Stream) : Emitting Unit :=
  modify fun e => { e with streams := e.streams.set s (some stream) }

def raw (s : Sink) (text : String) : Emitting Unit := do
  let current ← stream s
  setStream s { current with text := current.text ++ text }

def openUnit (s : Sink) (signature : Signature) : Emitting Unit := do
  let current ← stream s
  match current.unit with
  | some unit => throw (.alreadyOpen s unit.name signature.name)
  | none =>
      if (← get).defines signature.name then throw (.duplicate signature.name)
      else setStream s ⟨current.text ++ signature.render ++ "\n\x7b\n", some signature⟩

/-- Leaves a sink with nothing open on it. -/
def takeUnit (s : Sink) : Emitting (Option Signature) := do
  let current ← stream s
  setStream s { current with unit := none }
  pure current.unit

def closeUnit (s : Sink) (result : Option String) : Emitting Unit := do
  match ← takeUnit s with
  | none => throw (.nothingOpen s)
  | some signature =>
      raw s (Emitter.closing result)
      modify fun e => { e with defined := e.defined ++ [⟨s, signature.name⟩] }

def pushOne (s : Sink) (op : Operation) : Emitting Unit := do
  modify fun e => { e with referenced := e.referenced ++ op.references }
  let current ← stream s
  raw s (op.render (if current.unit.isSome then 1 else 0))

def push (s : Sink) (ops : List Operation) : Emitting Unit := ops.forM (pushOne s)

def action : EmitStep → Emitting Unit
  | .openUnit s signature => openUnit s signature
  | .closeUnit s result => closeUnit s result
  | .function s signature body result => do
      openUnit s signature
      push s body
      closeUnit s result
  | .push s ops => push s ops
  | .raw s text => raw s text

/-! ## Runs -/

def perform (e : LiveEmitter) (step : EmitStep) : Except EmitError Unit × LiveEmitter := (action step).runOn e

/-- The emitter after the steps, whichever of them are refused. -/
def after (e : LiveEmitter) (steps : List EmitStep) : LiveEmitter := steps.foldl (fun e s => (e.perform s).2) e

/-- What the steps come to, one by one. -/
def answers (e : LiveEmitter) : List EmitStep → List (Except EmitError Unit)
  | [] => []
  | s :: steps => (e.perform s).1 :: (e.perform s).2.answers steps

/-- The steps that are not refused. -/
def kept (e : LiveEmitter) (steps : List EmitStep) : List EmitStep :=
  ((steps.zip (e.answers steps)).filter (·.2.isOk)).map (·.1)

/-! ## Closing -/

def leftOpen? (e : LiveEmitter) : Option EmitError :=
  Sink.all.findSome? fun s =>
    (e.streams.get s).bind fun stream => stream.unit.map fun signature => .leftOpen s signature.name

def unresolved? (e : LiveEmitter) : Option String :=
  Emitter.leastName? (e.referenced.filter fun name => !e.defines name)

def finish (e : LiveEmitter) : Except EmitError EmittedText :=
  match e.leftOpen? with
  | some err => .error err
  | none =>
      match e.unresolved? with
      | some name => .error (.unresolved name)
      | none => .ok ⟨e.streams.map fun stream => (stream.map (·.text)).getD "", e.defined⟩

end LiveEmitter

end AccelFirmware
