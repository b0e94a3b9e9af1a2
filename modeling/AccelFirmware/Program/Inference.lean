import AccelFirmware.Program.Accelerator

/-!
# Runs of the accelerator

Loading, configuring and running the accelerator, fetching the result, and what comes after: teardown, or an endless loop of
runs. Programs that measure energy repeat loading and running for a power monitor.
-/

namespace AccelFirmware.Plan

variable (p : Plan)

def energyLoops : UInt32 := 100

def loadWeights : Operation := callProvided "cnn_load_weights" [] (some "Load kernels")

/-- Loads the input and starts a run; through the FIFO it is the other way round. -/
def loadAndStart (note : String) : List Operation :=
  let start := callProvided "cnn_start" [] (some note)
  if p.config.fifo then [start, callProvided "load_input" [] (some "Load data input via FIFO")]
  else [callProvided "load_input" [] (some "Load data input"), start]

/-- Switches the accelerator to the PLL once it is initialised. -/
def switchToPll : List Operation :=
  if p.config.pll then selectClock .ito (.fixed 1) (some "Switch CNN clock to PLL (ITO)") p.device else []

/-! ## Load and configure -/

/-- Loads weights and input repeatedly, each between marks for the power monitor. -/
def measureLoading : List Operation :=
  p.switchToPll ++
  [.blank,
   .statement "printf(\"Measuring weight loading...\\n\");",
   .statement "CNN_START;",
   .counted energyLoops [loadWeights],
   .statement "CNN_COMPLETE;",
   .blank,
   .statement "printf(\"Measuring input loading...\\n\");",
   callProvided "MXC_TMR_Delay" ["MXC_TMR0", "500000"],
   .statement "CNN_START;",
   .counted energyLoops [callProvided "load_input" [] (some "Load data input")],
   .statement "CNN_COMPLETE;",
   .blank]

def loadKernels : List Operation :=
  if p.config.measureEnergy then p.measureLoading
  else if p.config.loadKernels then [loadWeights]
  else [.comment "Kernels are pre-loaded"]

def loadBias : Operation :=
  if p.config.bias then callProvided "cnn_load_bias"
  else if p.embedded then .comment "cnn_load_bias(); // Not used in this network"
  else .comment "No bias values"

def configure : List Action :=
  [.push .main
    ((if p.embedded then [.statement "printf(\"\\n*** CNN Inference Test ***\\n\");", .blank] else []) ++
      [callProvided "cnn_init" [] (some "Bring state machine into consistent state")] ++ p.loadKernels)] ++
  (if p.config.verifyKernels then p.fatalCheck (.provided "cnn_verify_weights") else []) ++
  [.push .main [p.loadBias]] ++
  p.fatalCheck (.provided "cnn_configure") ++
  [.advance .configured]

/-! ## Run -/

def stopAndContinue : List Operation :=
  if p.config.stopStart then [callEmitted "cnn_stop", callEmitted "cnn_continue", .blank] else []

def measureRuns : List Operation :=
  [.statement "printf(\"Measuring input load + inference...\\n\");",
   callProvided "MXC_TMR_Delay" ["MXC_TMR0", "500000"],
   .statement "CNN_START;" (some "Allow capture of processing time"),
   .counted energyLoops (p.loadAndStart "Run inference" ++ [.await p.completionWait]),
   .statement "CNN_COMPLETE;",
   .blank]

def firstRun : List Action :=
  if p.config.measureEnergy then [.push .main (p.stopAndContinue ++ p.measureRuns), .advance .running]
  else
    [.push .main (p.loadAndStart "Start CNN processing"), .advance .running,
     .push .main (.blank :: p.stopAndContinue ++ [.await p.completionWait, .blank])]

def furtherRuns : List Action :=
  if p.config.oneshot > 0 then
    [.push .main [.counted p.config.oneshot [callEmitted "cnn_continue", .await p.completionWait], .blank],
     .advance .running]
  else []

def leavePll : List Operation :=
  if p.config.pll then
    selectClock .pclk (.fixed 1) (some "Switch CNN clock and disable PLL") p.device ++
    [writeNamed "MXC_GCR->ito_ctrl" .keepBits "~MXC_F_GCR_ITO_CTRL_EN", .blank]
  else []

def execute : List Action :=
  p.firstRun ++ p.furtherRuns ++ [.advance .complete, .push .main p.leavePll] ++ p.boostOff

/-! ## Result -/

def retrieval : Operation :=
  match LayerKind.ofRetrieval? p.config.retrieval with
  | some kind => callEmitted kind.functionName
  | none => unloadCall p.config.outputWidth

def passReport : List Operation :=
  let what := if p.config.fifo then "data loading and inference" else "inference"
  [.blank,
   .statement "printf(\"\\n*** PASS ***\\n\\n\");",
   .blank,
   .verbatim ("#ifdef CNN_INFERENCE_TIMER\nprintf(\"Approximate " ++ what
     ++ " time: %d us\\n\\n\", cnn_time);\n#endif"),
   .blank] ++
  if p.config.measureEnergy then
    [.statement "printf(\"See monitor display for inference energy.\\n\\n\");", .blank] else []

def retrieve : List Action :=
  (if p.config.verifyOutput then p.fatalCheck (.provided "check_output") else []) ++
  [.push .main [p.retrieval]] ++
  (if p.verifies then p.fatalCheck (.emitted "fc_verify") else []) ++
  (if p.embedded then [.push .main p.passReport] else [])

/-! ## End -/

def endlessLoop : List Operation :=
  (if p.embedded then
    [.statement "printf(\"Starting endless loop...\\n\");", .blank, callProvided "LED_On" ["1"], .blank] else []) ++
  [.forever [callProvided "cnn_start", .await p.completionWait]]

def classSource : String :=
  match p.config.retrieval with
  | .fullyConnected => "fc_output"
  | .softmaxOnly | .unload => "ml_data"

/-- Prints every class with its probability in tenths of a percent. -/
def classPrintout : List Operation :=
  [.statement "printf(\"Classification results:\\n\");",
   .verbatim ("for (i = 0; i < CNN_NUM_OUTPUTS; i++) \x7b\n  digs = (1000 * ml_softmax[i] + 0x4000) >> 15;\n"
     ++ "  tens = digs % 10;\n  digs = digs / 10;\n  printf(\"[%7d] -> Class %d: %d.%d%%\\n\", " ++ p.classSource
     ++ "[i], i, digs, tens);\n\x7d")]

/-- Teardown, or the endless loop. The split layout has its function for teardown in both cases. -/
def ending : List Action :=
  if p.config.forever then
    [.push .main p.endlessLoop] ++ (if p.config.isSplit then [p.disableFunction] else []) ++
      [.advance .loopingForever]
  else
    p.acceleratorShutdown ++ [.advance .tornDown] ++
      (if p.printsClasses then [.push .main p.classPrintout] else [])

end AccelFirmware.Plan
