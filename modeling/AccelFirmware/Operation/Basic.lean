/-!
# Operations

An operation is one unit of emitted behaviour: a register write, a call, a wait, a loop. Programs are lists of
operations and become C text only when they are rendered. `references` collects the names of functions that the
generated program itself has to define.
-/

namespace AccelFirmware

inductive Register where
  | address (value : UInt32)
  | named (name : String)
  deriving DecidableEq, Repr

inductive WriteMode where
  | assign
  | setBits
  | keepBits
  deriving DecidableEq, Repr

/-- The target of a call: a function of the generated program, or one that the SDK, the simulation harness or
other sources provide. -/
inductive Callee where
  | emitted (name : String)
  | provided (name : String)
  deriving DecidableEq, Repr

def Callee.name : Callee → String
  | .emitted name | .provided name => name

inductive SleepInstruction where
  | arm
  | riscV
  deriving DecidableEq, Repr

/-- How a wait for the accelerator is written. The first two rely on the interrupt handler to stamp `cnn_time`;
the last calls `cnn_wait()`. -/
inductive CompletionWait where
  | sleep (instruction : SleepInstruction)
  | spin
  | poll
  deriving DecidableEq, Repr

/-- What a fatal check does on failure: report and halt, or report and return from `main`. -/
inductive FailPolicy where
  | halt
  | abortAndReturn
  deriving DecidableEq, Repr

inductive Operation where
  | header (name : String) (system : Bool := false) (comment : Option String := none)
  | define (name value : String)
  | declare (text : String)
  | statement (text : String) (comment : Option String := none)
  | write (register : Register) (mode : WriteMode) (value : String) (comment : Option String := none)
  | call (callee : Callee) (args : List String := []) (comment : Option String := none)
  | installVector (irq handler : String) (comment : Option String := none)
  | waitUntil (condition : String) (comment : Option String := none)
  | await (wait : CompletionWait)
  /-- One operation under an `if`, without braces. -/
  | guarded (condition : String) (body : Operation)
  | counted (count : UInt32) (body : List Operation)
  | forever (body : List Operation)
  /-- A fatal check on a function that returns `CNN_OK` on success. -/
  | check (callee : Callee) (policy : FailPolicy)
  | comment (text : String)
  | blank
  /-- Preformatted lines; preprocessor directives stay in the first column. -/
  | verbatim (text : String)
  deriving Repr

namespace Operation

/-- Attaches a trailing comment. Kinds without room for one stay as they are. -/
def withComment (text : String) : Operation → Operation
  | .header name system _ => .header name system (some text)
  | .statement s _ => .statement s (some text)
  | .write register mode value _ => .write register mode value (some text)
  | .call callee args _ => .call callee args (some text)
  | .installVector irq handler _ => .installVector irq handler (some text)
  | .waitUntil condition _ => .waitUntil condition (some text)
  | op => op

def calleeReferences : Callee → List String
  | .emitted name => [name]
  | .provided _ => []

mutual

/-- Functions of the generated program that an operation calls or installs, in order of occurrence. -/
def references : Operation → List String
  | .call callee _ _ => calleeReferences callee
  | .installVector _ handler _ => [handler]
  | .await .poll => ["cnn_wait"]
  | .check callee policy => calleeReferences callee ++ (if policy = .halt then ["fail"] else [])
  | .guarded _ body => body.references
  | .counted _ body | .forever body => referencesOfAll body
  | _ => []

def referencesOfAll : List Operation → List String
  | [] => []
  | op :: ops => op.references ++ referencesOfAll ops

end

theorem referencesOfAll_eq_flatMap (ops : List Operation) :
    referencesOfAll ops = ops.flatMap references := by
  induction ops with
  | nil => rfl
  | cons op ops ih => simp [referencesOfAll, ih]

end Operation

end AccelFirmware
