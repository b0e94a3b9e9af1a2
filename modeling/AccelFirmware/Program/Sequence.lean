import AccelFirmware.Program.Camera
import AccelFirmware.Program.Headers
import AccelFirmware.Program.Inference

/-!
# Programs

The actions of a whole program in order, and their run: the emitter takes its steps, the lifecycle its events, and the first
refusal of either, or of the device, ends the run. The events follow what the generated program does, so phases in a wrong
order are refused instead of becoming firmware.
-/

namespace AccelFirmware

namespace Plan

variable (p : Plan)

def acceleratorPhases : List Action :=
  if p.owns then p.acceleratorBringUp ++ p.configure ++ p.execute ++ p.retrieve ++ p.ending
  else [.advance .delegated]

def epilogue : List Operation :=
  p.handoff ++ if p.sdk then [] else [.blank, callProvided "pass"]

def actions : List Action :=
  p.declarations ++ p.fileScopeFunctions ++
  [.emit (.openUnit .main (.status "main"))] ++
  p.locals ++
  p.coreBringUp ++ [.push .main p.camera] ++
  p.acceleratorPhases ++
  [.push .main p.epilogue, .emit (.closeUnit .main (some "0"))]

end Plan

inductive ProgramError where
  | emit (error : EmitError)
  | transition (error : TransitionError)
  | unsupported (feature : DeviceFeature) (device : String)
  deriving DecidableEq, Repr

structure Progress where
  emitter : Emitter
  lifecycle : Lifecycle

namespace Progress

def start : Progress := ⟨.empty, .start⟩

def step (g : Progress) : Action → Except ProgramError Progress
  | .emit s =>
      match g.emitter.step s with
      | .ok emitter => .ok { g with emitter }
      | .error e => .error (.emit e)
  | .event e =>
      match g.lifecycle.step e with
      | .ok lifecycle => .ok { g with lifecycle }
      | .error e => .error (.transition e)
  | .refuse feature device => .error (.unsupported feature device)

end Progress

structure Program where
  text : EmittedText
  lifecycle : Lifecycle

namespace Program

def ofActions (actions : List Action) : Except ProgramError Program := do
  let g ← actions.foldlM Progress.step .start
  match g.emitter.finish with
  | .ok text => pure ⟨text, g.lifecycle⟩
  | .error e => throw (.emit e)

end Program

end AccelFirmware
