/-!
# Stages of the generated program

The stages a generated program passes through, the transitions between them, and a record of one run. A fatal
check is a branch to `failed` that need not be taken, so registering one leaves the stage as it is. A refused event
changes nothing.
-/

namespace AccelFirmware

inductive Stage where
  | uninitialized
  | configured
  | running
  | complete
  | tornDown
  /-- An endless loop of runs, never torn down. -/
  | loopingForever
  | failed
  /-- This core never touches the accelerator. -/
  | delegated
  deriving DecidableEq, Repr

namespace Stage

def all : List Stage :=
  [.uninitialized, .configured, .running, .complete, .tornDown, .loopingForever, .failed, .delegated]

def name : Stage → String
  | .uninitialized => "uninitialized"
  | .configured => "configured"
  | .running => "running"
  | .complete => "complete"
  | .tornDown => "torn-down"
  | .loopingForever => "looping-forever"
  | .failed => "failed"
  | .delegated => "delegated"

def permits : Stage → Stage → Bool
  | .uninitialized, .configured | .uninitialized, .delegated | .uninitialized, .failed => true
  | .configured, .running | .configured, .failed => true
  | .running, .running | .running, .complete => true
  | .complete, .tornDown | .complete, .loopingForever | .complete, .failed => true
  | _, _ => false

def isTerminal : Stage → Bool
  | .tornDown | .loopingForever | .failed | .delegated => true
  | _ => false

end Stage

structure TransitionError where
  before : Stage
  after : Stage
  deriving DecidableEq, Repr

def TransitionError.message (e : TransitionError) : String :=
  "illegal lifecycle transition " ++ e.before.name ++ " -> " ++ e.after.name

inductive LifecycleEvent where
  | advance (next : Stage)
  | fatalCheck
  deriving DecidableEq, Repr

structure Lifecycle where
  /-- Stages that have been left, oldest first. -/
  passed : List Stage
  stage : Stage
  fatalChecks : Nat
  deriving DecidableEq, Repr

namespace Lifecycle

def start : Lifecycle := ⟨[], .uninitialized, 0⟩

def history (l : Lifecycle) : List Stage :=
  l.passed ++ [l.stage]

def step (l : Lifecycle) : LifecycleEvent → Except TransitionError Lifecycle
  | .advance next =>
      if l.stage.permits next then .ok { l with passed := l.history, stage := next }
      else .error ⟨l.stage, next⟩
  | .fatalCheck =>
      if l.stage.permits .failed then .ok { l with fatalChecks := l.fatalChecks + 1 }
      else .error ⟨l.stage, .failed⟩

end Lifecycle

end AccelFirmware
