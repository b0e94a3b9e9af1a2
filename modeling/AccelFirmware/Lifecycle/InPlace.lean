import AccelFirmware.Lifecycle

/-!
# Recording in place

A record of a run that its events change in place, one field after the other. The stage that has been reached is kept beside the
list of all stages, and an event that is refused has looked at the stage before it changes anything.
-/

namespace AccelFirmware

structure LiveLifecycle where
  stage : Stage
  /-- All stages so far, oldest first. -/
  history : List Stage
  fatalChecks : Nat
  deriving DecidableEq, Repr

/-- Changes of a record that may end in a refusal. -/
abbrev Recording := ExceptT TransitionError (StateM LiveLifecycle)

/-- What changes come to, and the record that they leave. -/
def Recording.runOn {α : Type} (action : Recording α) (l : LiveLifecycle) : Except TransitionError α × LiveLifecycle :=
  action.run.run l

namespace LiveLifecycle

def start : LiveLifecycle := ⟨.uninitialized, [.uninitialized], 0⟩

/-! ## Changes -/

/-- Carries changes out if the stage permits a move. -/
def permitted (next : Stage) (changes : Recording Unit) : Recording Unit := do
  let l ← get
  if l.stage.permits next then changes else throw ⟨l.stage, next⟩

def advance (next : Stage) : Recording Unit :=
  permitted next do
    modify fun l => { l with stage := next }
    modify fun l => { l with history := l.history ++ [next] }

/-- The check is a branch that need not be taken, so the stage stays. -/
def fatalCheck : Recording Unit :=
  permitted .failed do
    modify fun l => { l with fatalChecks := l.fatalChecks + 1 }

def action : LifecycleEvent → Recording Unit
  | .advance next => advance next
  | .fatalCheck => fatalCheck

/-! ## Runs -/

def perform (l : LiveLifecycle) (event : LifecycleEvent) : Except TransitionError Unit × LiveLifecycle :=
  (action event).runOn l

/-- The record after the events, whichever of them are refused. -/
def after (l : LiveLifecycle) (events : List LifecycleEvent) : LiveLifecycle :=
  events.foldl (fun l e => (l.perform e).2) l

/-- What the events come to, one by one. -/
def answers (l : LiveLifecycle) : List LifecycleEvent → List (Except TransitionError Unit)
  | [] => []
  | e :: events => (l.perform e).1 :: (l.perform e).2.answers events

end LiveLifecycle

end AccelFirmware
