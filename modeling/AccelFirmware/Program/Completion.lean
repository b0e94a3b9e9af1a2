import AccelFirmware.Program.Plan

/-!
# Completion of a run

How a program learns that the accelerator is done: an interrupt handler that stamps `cnn_time`, or a function that polls
the control register. The control of the master group, which resumes and halts a run, stands beside it.
-/

namespace AccelFirmware.Plan

variable (p : Plan)

def waitStrategy : WaitStrategy := p.config.waitStrategy p.device

def completionWait : CompletionWait :=
  match p.waitStrategy, p.config.waitMode with
  | .poll, _ => .poll
  | .interrupt, .interrupt => .sleep p.config.topology.sleepInstruction
  | .interrupt, .spin => .spin

def handlerSignature : Signature :=
  match p.config.topology with
  | .companion => ⟨"void __attribute__((interrupt(\"machine\")))", "CNN_IRQHandler", "void"⟩
  | .singleCore | .armHost => .procedure "CNN_ISR"

/-- The bits that the handler keeps in the control register of a group. -/
def acknowledgement : String :=
  if p.config.oneshot > 0 && !p.device.requireOneshotClear then "~(1<<12)" else "~((1<<12) | 1)"

def timerStop : String :=
  "#ifdef CNN_INFERENCE_TIMER\ncnn_time = MXC_TMR_SW_Stop(CNN_INFERENCE_TIMER);\n#else\ncnn_time = 1;\n#endif"

/-- Acknowledges the interrupt of every group and stamps the time. -/
def handlerBody : List Operation :=
  .comment "Acknowledge interrupt to all groups" ::
  (p.config.groups.members.map fun g => writeAt (p.device.ctlAddress g) .keepBits p.acknowledgement) ++
  [.blank] ++
  (if p.embedded && !p.config.measureEnergy then
    [.statement "CNN_COMPLETE;" (some "Signal that processing is complete")] else []) ++
  [.verbatim timerStop] ++
  if p.config.topology = .companion then
    [.blank, callProvided "NVIC_ClearPendingIRQ" ["CNN_IRQn"], callProvided "NVIC_ClearPendingEVENT" ["CNN_IRQn"]]
  else []

def pollCondition : String :=
  "(*((volatile uint32_t *) 0x" ++ hexWide 8 p.device.baseAddress.toNat ++ ") & (1<<12)) != 1<<12"

def completionFunction (sink : Sink) : Action :=
  match p.waitStrategy with
  | .interrupt => .function sink p.handlerSignature p.handlerBody none
  | .poll => .function sink (.procedure "cnn_wait") [.waitUntil p.pollCondition] none

/-- `cnn_continue()` and `cnn_stop()` on the master group, if there is one. -/
def groupControl (sink : Sink) : List Action :=
  match p.config.master with
  | none => []
  | some master =>
      let ctl := p.device.ctlAddress master
      let number := decimal master.toNat
      [.function sink (.status "cnn_continue")
        ((if p.waitStrategy = .interrupt then [.statement "cnn_time = 0;", .blank] else []) ++
          [writeAt ctl .setBits "1" (some ("Re-enable group " ++ number))])
        (some "CNN_OK"),
       .function sink (.status "cnn_stop")
        [writeAt ctl .keepBits "~1" (some ("Disable group " ++ number))]
        (some "CNN_OK")]

/-- Registers the handler: a vector on the primary core, an enabled event on the companion. -/
def completionVector : List Operation :=
  match p.config.topology with
  | .companion =>
      [.comment "Set CNN complete vector", callProvided "__enable_irq", callProvided "NVIC_EnableIRQ" ["CNN_IRQn"],
       callProvided "NVIC_EnableEVENT" ["CNN_IRQn"]]
  | .singleCore | .armHost => [.installVector "CNN_IRQn" "CNN_ISR" (some "Set CNN complete vector")]

end AccelFirmware.Plan
