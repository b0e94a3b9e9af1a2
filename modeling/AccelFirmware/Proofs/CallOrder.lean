import AccelFirmware.Proofs.Execution
import AccelFirmware.Proofs.Reports

/-!
# The order of accelerator calls

What `main` asks of the accelerator, in the order of execution.
-/

namespace AccelFirmware

/-! ## Steps -/

/-- A call or check of a function that drives the accelerator, or a wait for its completion. -/
inductive AcceleratorStep where
  | call (name : String)
  | check (name : String)
  | wait
  deriving DecidableEq, Repr

/-- Functions of the accelerator without the prefix of its library. -/
def unprefixedFunctions : List String := ["load_input", "check_output", "fc_layer", "softmax_layer", "fc_verify"]

def isAcceleratorFunction (name : String) : Bool :=
  ("cnn_".toList.isPrefixOf name.toList || unprefixedFunctions.contains name) && !apiFunctions.contains name

namespace Operation

def acceleratorStep? : Operation → Option AcceleratorStep
  | .call callee _ _ => if isAcceleratorFunction callee.name then some (.call callee.name) else none
  | .check callee _ => if isAcceleratorFunction callee.name then some (.check callee.name) else none
  | .await _ => some .wait
  | _ => none

/-- An operation outside of loops without accelerator steps. -/
def isQuiet : Operation → Bool
  | .guarded _ body => body.isQuiet
  | .counted _ _ | .forever _ => false
  | op => op.acceleratorStep?.isNone

variable (taken : String → Bool)

def acceleratorSteps (ops : List Operation) : Execution AcceleratorStep :=
  (executionOfAll taken ops).filterMap acceleratorStep?

def stepsOf (op : Operation) : Execution AcceleratorStep :=
  (op.execution taken).filterMap acceleratorStep?

@[simp] theorem acceleratorSteps_nil : acceleratorSteps taken [] = .ofList [] := rfl

@[simp] theorem acceleratorSteps_cons (op : Operation) (ops : List Operation) :
    acceleratorSteps taken (op :: ops) = (op.stepsOf taken).andThen (acceleratorSteps taken ops) := by
  simp [acceleratorSteps, stepsOf, executionOfAll]

@[simp] theorem acceleratorSteps_append (as bs : List Operation) :
    acceleratorSteps taken (as ++ bs) = (acceleratorSteps taken as).andThen (acceleratorSteps taken bs) := by
  simp [acceleratorSteps, executionOfAll_append]

@[simp] theorem stepsOf_counted (count : UInt32) (body : List Operation) :
    (counted count body).stepsOf taken = (acceleratorSteps taken body).times count.toNat := by
  simp [acceleratorSteps, stepsOf, execution]

@[simp] theorem stepsOf_forever (body : List Operation) :
    (forever body).stepsOf taken = (acceleratorSteps taken body).endlessly := by
  simp [acceleratorSteps, stepsOf, execution]

@[simp] theorem stepsOf_await (wait : CompletionWait) : (await wait).stepsOf taken = .ofList [.wait] := rfl

@[simp] theorem stepsOf_statement (text : String) (note : Option String) :
    (statement text note).stepsOf taken = .ofList [] := rfl

@[simp] theorem stepsOf_blank : blank.stepsOf taken = .ofList [] := rfl

theorem stepsOf_of_isQuiet : (op : Operation) → op.isQuiet = true → op.stepsOf taken = .ofList []
  | .guarded condition body, h => by
      simp only [stepsOf, execution]
      split
      · exact stepsOf_of_isQuiet body h
      · rfl
  | .counted _ _, h => by cases h
  | .forever _, h => by cases h
  | .call _ _ _, h | .check _ _, h => by simp_all [isQuiet, stepsOf, execution]
  | .await _, h => by cases h
  | .header _ _ _, _ | .define _ _, _ | .declare _, _ | .statement _ _, _ | .write _ _ _ _, _
  | .installVector _ _ _, _ | .waitUntil _ _, _ | .comment _, _ | .blank, _ | .verbatim _, _ => rfl

theorem acceleratorSteps_of_isQuiet {ops : List Operation} (h : ops.all isQuiet = true) :
    acceleratorSteps taken ops = .ofList [] := by
  induction ops with
  | nil => rfl
  | cons op ops ih =>
    obtain ⟨hop, hops⟩ : op.isQuiet = true ∧ ops.all isQuiet = true := by simpa using h
    rw [acceleratorSteps_cons, stepsOf_of_isQuiet taken op hop, ih hops, Execution.nil_andThen]

end Operation

namespace Plan

variable (p : Plan)

open Operation AccelFirmware.Action EmitStep

/-! ## Quiet phases -/

theorem quiet_locals : (gather (pushed .main) p.locals).all isQuiet = true := by
  have hvariables : p.localVariables.all isQuiet = true := by
    simp only [localVariables, printoutLocals]
    (repeat' split) <;> rfl
  rw [locals]
  split
  · rfl
  · simp [pushed, hvariables]
    rfl

theorem quiet_trimOperations : p.trimOperations.all isQuiet = true := by
  simp only [trimOperations]
  split
  · cases p.config.clockTrim with
    | none => rfl
    | some t =>
      simp only [Option.map_some, Option.getD_some, ClockTrim.operations, ClockTrim.sharedWrites,
        ClockTrim.fastWrites]
      cases t.hirc8m <;> cases t.hirc <;> cases t.hirc96m <;> rfl
  · rfl

theorem quiet_enablePll : p.enablePll.all isQuiet = true := by
  simp only [enablePll]
  split <;> rfl

theorem quiet_sdkCoreClock : p.sdkCoreClock.all isQuiet = true := by
  simp only [sdkCoreClock]
  split
  · rfl
  · simp only [List.all_append, quiet_trimOperations, quiet_enablePll]
    rfl

theorem quiet_simulationOscillator : p.simulationOscillator.all isQuiet = true := by
  simp only [simulationOscillator]
  cases p.device.powerController with
  | bbfc => rfl
  | gcfr =>
    simp only [List.all_append, quiet_enablePll]
    rfl

theorem quiet_simulationPowerUp : p.simulationPowerUp.all isQuiet = true := by
  simp only [simulationPowerUp]
  cases p.device.powerController <;> rfl

theorem quiet_simulationCoreClock : p.simulationCoreClock.all isQuiet = true := by
  have hpower : (if p.device.modernSim then [] else p.simulationPowerUp).all isQuiet = true := by
    split
    · rfl
    · exact p.quiet_simulationPowerUp
  rw [simulationCoreClock]
  split
  · rfl
  · simp only [List.all_append, quiet_simulationOscillator, hpower]
    rfl

theorem quiet_coreClock : p.coreClock.all isQuiet = true := by
  rw [coreClock]
  split
  · exact p.quiet_sdkCoreClock
  · exact p.quiet_simulationCoreClock

theorem quiet_bootAddress (m : CompanionMemory) : (p.bootAddress m).all isQuiet = true := by
  simp only [bootAddress]
  (repeat' split) <;> rfl

theorem quiet_exclusiveMemory : p.exclusiveMemory.all isQuiet = true := by
  simp only [exclusiveMemory]
  (repeat' split) <;> rfl

theorem quiet_releaseCompanion : p.releaseCompanion.all isQuiet = true := by
  simp only [releaseCompanion]
  (repeat' split) <;> rfl

theorem quiet_bootCompanion (m : CompanionMemory) : (p.bootCompanion m).all isQuiet = true := by
  simp only [bootCompanion, List.all_append, quiet_bootAddress, quiet_exclusiveMemory, quiet_releaseCompanion, Bool.and_true]

theorem quiet_debuggerPause : p.debuggerPause.all isQuiet = true := by
  simp only [debuggerPause]
  split <;> rfl

theorem quiet_companionBringUp : p.companionBringUp.all isQuiet = true := by
  simp only [companionBringUp]
  (repeat' split) <;> rfl

theorem quiet_coreOperations : p.coreOperations.all isQuiet = true := by
  refine p.coreOperations_of_parts (P := fun ops => ops.all isQuiet = true) (fun as bs has hbs => ?_) rfl p.quiet_coreClock
    p.quiet_debuggerPause p.quiet_bootCompanion p.quiet_companionBringUp
  rw [List.all_append, has, hbs]
  rfl

theorem quiet_camera : p.camera.all isQuiet = true := by
  simp only [camera]
  cases p.config.camera <;> rfl

theorem quiet_selectClock (source : ClockSource) (divider : ClockDivider) (note : Option String) (device : Device) :
    (selectClock source divider note device).all isQuiet = true := by
  simp only [selectClock, ClockSource.readyWait]
  cases note <;> cases source <;> cases device.supportsPll <;> rfl

theorem quiet_enableBody : p.enableBody.all isQuiet = true := by
  have hclock : p.enableClock.all isQuiet = true := by
    simp only [enableClock]
    (repeat' split) <;> exact quiet_selectClock _ _ _ _
  have hvector : p.completionVector.all isQuiet = true := by
    simp only [completionVector]
    cases p.config.topology <;> rfl
  simp only [enableBody, List.all_append, hclock, hvector]
  rfl

theorem quiet_acceleratorBringUp : (gather (pushed .main) p.acceleratorBringUp).all isQuiet = true := by
  have hbase : (gather (pushed .main)
      (if p.config.measureEnergy then [.push .main p.measureBasePower] else [])).all isQuiet = true := by
    simp only [measureBasePower]
    cases p.config.measureEnergy <;> cases p.config.topology <;> rfl
  have henable : (gather (pushed .main) (if p.config.isSplit then
      [.push .main p.enableCall, .function .api enableSignature p.enableBody (some "CNN_OK")]
      else [.push .main p.enableBody])).all isQuiet = true := by
    split
    · rfl
    · simpa [pushed] using p.quiet_enableBody
  have hboost : (gather (pushed .main) p.boostOn).all isQuiet = true := by
    simp only [boostOn]
    cases p.config.isSplit <;> cases p.config.boost <;> rfl
  rw [acceleratorBringUp]
  split
  · simp only [gather_append, List.all_append, hbase, henable, hboost]
    rfl
  · rfl

theorem quiet_leavePll : p.leavePll.all isQuiet = true := by
  simp only [leavePll]
  split <;> rfl

theorem quiet_boostOff : (gather (pushed .main) p.boostOff).all isQuiet = true := by
  simp only [boostOff]
  cases p.config.isSplit <;> cases p.config.forever <;> cases p.config.boost <;> rfl

theorem quiet_epilogue : p.epilogue.all isQuiet = true := by
  simp only [epilogue, handoff, deepSleep]
  cases p.config.topology <;> (repeat' split) <;> rfl

end Plan

/-! ## Steps of the phases -/

namespace Configuration

variable (c : Configuration)

/-- Start and input: through the FIFO, input comes after the start. -/
def startSteps : List AcceleratorStep :=
  if c.fifo then [.call "cnn_start", .call "load_input"] else [.call "load_input", .call "cnn_start"]

def stopSteps : List AcceleratorStep :=
  if c.stopStart then [.call "cnn_stop", .call "cnn_continue"] else []

/-- The steps under measurement are repeated. -/
def measured (steps : List AcceleratorStep) : List AcceleratorStep :=
  (List.replicate Plan.energyLoops.toNat steps).flatten

def kernelSteps : List AcceleratorStep :=
  if c.measureEnergy then measured [.call "cnn_load_weights"] ++ measured [.call "load_input"]
  else if c.loadKernels then [.call "cnn_load_weights"] else []

def firstRunSteps : List AcceleratorStep :=
  if c.measureEnergy then c.stopSteps ++ measured (c.startSteps ++ [AcceleratorStep.wait])
  else c.startSteps ++ c.stopSteps ++ [AcceleratorStep.wait]

open AcceleratorStep in
/-- From the initialisation of the state machine to its configuration. -/
def setupSteps : List AcceleratorStep :=
  [call "cnn_init"] ++ c.kernelSteps ++ (if c.verifyKernels then [check "cnn_verify_weights"] else []) ++
  (if c.bias then [call "cnn_load_bias"] else []) ++ [check "cnn_configure"]

def furtherSteps : List AcceleratorStep :=
  (List.replicate c.oneshot.toNat [.call "cnn_continue", .wait]).flatten

open AcceleratorStep in
/-- Fetching the result; `golden` tells whether there is expected output. -/
def resultSteps (golden : Bool) : List AcceleratorStep :=
  (if c.verifyOutput then [check "check_output"] else []) ++
  [match c.retrieval with
   | .fullyConnected => call "fc_layer"
   | .softmaxOnly => call "softmax_layer"
   | .unload => call "cnn_unload"] ++
  if golden then [check "fc_verify"] else []

def mainSteps (golden : Bool) : Execution AcceleratorStep where
  once := c.setupSteps ++ c.firstRunSteps ++ c.furtherSteps ++ c.resultSteps golden
  endless := if c.forever then some [.call "cnn_start", .wait] else none

end Configuration

namespace Plan

variable (p : Plan) (taken : String → Bool)

open Operation AccelFirmware.Action EmitStep

theorem steps_loadAndStart (note : String) :
    acceleratorSteps taken (p.loadAndStart note) = .ofList p.config.startSteps := by
  simp only [loadAndStart, Configuration.startSteps]
  split <;> rfl

theorem steps_stopAndContinue : acceleratorSteps taken p.stopAndContinue = .ofList p.config.stopSteps := by
  simp only [stopAndContinue, Configuration.stopSteps]
  split <;> rfl

theorem steps_loadKernels : acceleratorSteps taken p.loadKernels = .ofList p.config.kernelSteps := by
  have hpll : acceleratorSteps taken p.switchToPll = .ofList [] := by
    simp only [switchToPll]
    split <;> rfl
  have hweights : loadWeights.stepsOf taken = .ofList [.call "cnn_load_weights"] := rfl
  have hinput : (callProvided "load_input" [] (some "Load data input")).stepsOf taken = .ofList [.call "load_input"] := rfl
  have hdelay : (callProvided "MXC_TMR_Delay" ["MXC_TMR0", "500000"]).stepsOf taken = .ofList [] := rfl
  simp only [loadKernels, Configuration.kernelSteps]
  split
  · simp [measureLoading, Configuration.measured, hpll, hweights, hinput, hdelay]
  · split <;> rfl

theorem steps_fatalCheck (callee : Callee) (name : String) (hn : callee.name = name)
    (h : isAcceleratorFunction name = true) :
    acceleratorSteps taken (gather (pushed .main) (p.fatalCheck callee)) = .ofList [.check name] := by
  simp [fatalCheck, pushed, stepsOf, execution, acceleratorStep?, hn, h]

theorem steps_configure :
    acceleratorSteps taken (gather (pushed .main) p.configure) = .ofList p.config.setupSteps := by
  have hhead : acceleratorSteps taken
      (if p.embedded then [.statement "printf(\"\\n*** CNN Inference Test ***\\n\");", .blank] else []) = .ofList [] := by
    split <;> rfl
  have hinit (note : Option String) : (callProvided "cnn_init" [] note).stepsOf taken = .ofList [.call "cnn_init"] := rfl
  have hverify : acceleratorSteps taken (gather (pushed .main)
      (if p.config.verifyKernels then p.fatalCheck (.provided "cnn_verify_weights") else [])) =
      .ofList (if p.config.verifyKernels then [.check "cnn_verify_weights"] else []) := by
    split
    · exact p.steps_fatalCheck taken _ _ rfl rfl
    · rfl
  have hbias : p.loadBias.stepsOf taken = .ofList (if p.config.bias then [.call "cnn_load_bias"] else []) := by
    simp only [loadBias]
    (repeat' split) <;> rfl
  have hcheck := p.steps_fatalCheck taken (.provided "cnn_configure") "cnn_configure" rfl rfl
  simp only [configure, gather_append, acceleratorSteps_append, hverify, hcheck]
  simp [pushed, hhead, hinit, hbias, steps_loadKernels, Configuration.setupSteps]

theorem steps_firstRun :
    acceleratorSteps taken (gather (pushed .main) p.firstRun) = .ofList p.config.firstRunSteps := by
  have hdelay : (callProvided "MXC_TMR_Delay" ["MXC_TMR0", "500000"]).stepsOf taken = .ofList [] := rfl
  simp only [firstRun, Configuration.firstRunSteps]
  split
  · simp [pushed, measureRuns, steps_stopAndContinue, steps_loadAndStart, Configuration.measured, hdelay]
  · simp [pushed, steps_stopAndContinue, steps_loadAndStart]

theorem steps_furtherRuns :
    acceleratorSteps taken (gather (pushed .main) p.furtherRuns) = .ofList p.config.furtherSteps := by
  have hcontinue : (callEmitted "cnn_continue").stepsOf taken = .ofList [.call "cnn_continue"] := rfl
  simp only [furtherRuns, Configuration.furtherSteps]
  split
  · simp [pushed, hcontinue]
  · rename_i hn
    have hzero : p.config.oneshot = 0 := by
      rw [← UInt32.toNat_inj]
      have hle : p.config.oneshot.toNat ≤ 0 := UInt32.le_iff_toNat_le.1 (UInt32.not_lt.1 hn)
      simpa using hle
    simp [hzero]

theorem steps_execute :
    acceleratorSteps taken (gather (pushed .main) p.execute) =
      .ofList (p.config.firstRunSteps ++ p.config.furtherSteps) := by
  simp [execute, pushed, steps_firstRun, steps_furtherRuns, acceleratorSteps_of_isQuiet taken p.quiet_leavePll,
    acceleratorSteps_of_isQuiet taken p.quiet_boostOff]

theorem steps_retrieve :
    acceleratorSteps taken (gather (pushed .main) p.retrieve) = .ofList (p.config.resultSteps p.verifies) := by
  have houtput : acceleratorSteps taken (gather (pushed .main)
      (if p.config.verifyOutput then p.fatalCheck (.provided "check_output") else [])) =
      .ofList (if p.config.verifyOutput then [.check "check_output"] else []) := by
    split
    · exact p.steps_fatalCheck taken _ _ rfl rfl
    · rfl
  have hverify : acceleratorSteps taken (gather (pushed .main)
      (if p.verifies then p.fatalCheck (.emitted "fc_verify") else [])) =
      .ofList (if p.verifies then [.check "fc_verify"] else []) := by
    split
    · exact p.steps_fatalCheck taken _ _ rfl rfl
    · rfl
  have hreport : acceleratorSteps taken (gather (pushed .main) (if p.embedded then [.push .main p.passReport] else [])) =
      .ofList [] := by
    simp only [passReport]
    (repeat' split) <;> rfl
  have hretrieval : p.retrieval.stepsOf taken = .ofList
      [match p.config.retrieval with
       | .fullyConnected => .call "fc_layer"
       | .softmaxOnly => .call "softmax_layer"
       | .unload => .call "cnn_unload"] := by
    simp only [retrieval]
    cases p.config.retrieval <;> rfl
  simp only [retrieve, gather_append, acceleratorSteps_append, houtput, hverify, hreport]
  simp [pushed, hretrieval, Configuration.resultSteps]

theorem steps_endlessLoop : acceleratorSteps taken p.endlessLoop = ⟨[], some [.call "cnn_start", .wait]⟩ := by
  have hhead : acceleratorSteps taken (if p.embedded then
      [.statement "printf(\"Starting endless loop...\\n\");", .blank, callProvided "LED_On" ["1"], .blank] else []) =
      .ofList [] := by
    split <;> rfl
  rw [endlessLoop, acceleratorSteps_append, hhead]
  rfl

theorem steps_ending :
    acceleratorSteps taken (gather (pushed .main) p.ending) =
      ⟨[], if p.config.forever then some [.call "cnn_start", .wait] else none⟩ := by
  have hshutdown : acceleratorSteps taken p.shutdown = .ofList [] := by
    refine acceleratorSteps_of_isQuiet taken ?_
    simp only [shutdown]
    split <;> rfl
  have hprintout : acceleratorSteps taken p.classPrintout = .ofList [] := rfl
  have hdisable : (callEmitted "cnn_disable" [] (some "Shut down CNN clock, disable peripheral")).stepsOf taken =
      .ofList [] := rfl
  simp only [ending, acceleratorShutdown, disableFunction]
  cases p.config.forever with
  | true => cases p.config.isSplit <;> simp [pushed, steps_endlessLoop]
  | false =>
    cases p.config.isSplit <;> cases p.printsClasses <;> simp [pushed, hshutdown, hprintout, hdisable] <;> rfl

theorem steps_inside (ho : p.owns = true) :
    acceleratorSteps taken (gather (pushed .main) p.inside) = p.config.mainSteps p.verifies := by
  simp [inside, acceleratorPhases, ho, pushed, acceleratorSteps_of_isQuiet taken p.quiet_locals,
    acceleratorSteps_of_isQuiet taken p.quiet_coreOperations,
    acceleratorSteps_of_isQuiet taken p.quiet_camera, acceleratorSteps_of_isQuiet taken p.quiet_epilogue,
    acceleratorSteps_of_isQuiet taken p.quiet_acceleratorBringUp, steps_configure, steps_execute, steps_retrieve,
    steps_ending]
  simp [Configuration.mainSteps, Execution.andThen, Execution.ofList]

end Plan

/-! ## The order of calls -/

namespace Synthesis

variable {c : Configuration} {d : Device} {i : Inputs} {s : Synthesis}

open Operation

theorem main_steps (h : run c d i = .ok s) (ho : c.topology.ownsAccelerator = true) (taken : String → Bool) :
    acceleratorSteps taken (EmittedFunction.bodyOf "main" s.plan.functions) = c.mainSteps i.expected.isSome := by
  obtain ⟨hcoherent, rfl, rfl, hv⟩ := run_ok h
  rw [hcoherent.main_body, s.plan.steps_inside taken ho, hv]

end Synthesis

/-- The accelerator steps of `main`, written out for programs that do not measure energy. -/
def Configuration.callOrder (c : Configuration) (golden : Bool) : Execution AcceleratorStep where
  once :=
    [.call "cnn_init"] ++
    (if c.loadKernels then [.call "cnn_load_weights"] else []) ++
    (if c.verifyKernels then [.check "cnn_verify_weights"] else []) ++
    (if c.bias then [.call "cnn_load_bias"] else []) ++
    [.check "cnn_configure"] ++
    (if c.fifo then [.call "cnn_start", .call "load_input"] else [.call "load_input", .call "cnn_start"]) ++
    (if c.stopStart then [.call "cnn_stop", .call "cnn_continue"] else []) ++
    [.wait] ++
    (List.replicate c.oneshot.toNat [.call "cnn_continue", .wait]).flatten ++
    (if c.verifyOutput then [.check "check_output"] else []) ++
    [match c.retrieval with
     | .fullyConnected => .call "fc_layer"
     | .softmaxOnly => .call "softmax_layer"
     | .unload => .call "cnn_unload"] ++
    (if golden then [.check "fc_verify"] else [])
  endless := if c.forever then some [.call "cnn_start", .wait] else none

namespace Synthesis

variable {c : Configuration} {d : Device} {i : Inputs} {s : Synthesis}

open Operation

/-- Without energy measurement, `main` drives the accelerator in one fixed order. -/
theorem main_call_order (h : run c d i = .ok s) (ho : c.topology.ownsAccelerator = true)
    (he : c.measureEnergy = false) (taken : String → Bool) :
    s.WritesFunctions ∧
      acceleratorSteps taken (EmittedFunction.bodyOf "main" s.plan.functions) = c.callOrder i.expected.isSome := by
  refine ⟨writes_functions h, ?_⟩
  rw [main_steps h ho]
  simp [Configuration.mainSteps, Configuration.setupSteps, Configuration.kernelSteps, Configuration.firstRunSteps,
    Configuration.startSteps, Configuration.stopSteps, Configuration.furtherSteps, Configuration.resultSteps,
    Configuration.callOrder, he]

theorem main_call_order_sample : ∃ s, run .sample .ai87 .empty = .ok s ∧ s.WritesFunctions ∧
    ∀ taken, acceleratorSteps taken (EmittedFunction.bodyOf "main" s.plan.functions) =
      .ofList [.call "cnn_init", .call "cnn_load_weights", .check "cnn_configure", .call "load_input", .call "cnn_start",
        .call "cnn_stop", .call "cnn_continue", .wait, .call "cnn_continue", .wait, .call "cnn_continue", .wait,
        .check "check_output", .call "cnn_unload"] := by
  obtain ⟨s, hs⟩ := exists_run (c := .sample) (d := .ai87) (i := .empty) (by decide)
  have horder := main_call_order hs rfl rfl
  exact ⟨s, hs, (horder fun _ => true).1, fun taken => (horder taken).2⟩

end Synthesis

/-! ## Starts ahead of stops -/

/-- Nothing is stopped or resumed before the first start. -/
def StartsFirst (steps : List AcceleratorStep) : Prop :=
  ∀ before after, ∀ x ∈ [AcceleratorStep.call "cnn_stop", .call "cnn_continue"],
    steps = before ++ x :: after → .call "cnn_start" ∈ before

theorem StartsFirst.of_start {idle : List AcceleratorStep}
    (h : ∀ x ∈ [AcceleratorStep.call "cnn_stop", .call "cnn_continue"], x ∉ idle) (rest : List AcceleratorStep) :
    StartsFirst (idle ++ .call "cnn_start" :: rest) := by
  intro before after x hx hsteps
  have hne : AcceleratorStep.call "cnn_start" ≠ x := by
    rintro rfl
    simp at hx
  rcases List.append_eq_append_iff.1 hsteps with ⟨more, rfl, he⟩ | ⟨more, rfl, he⟩
  · cases more with
    | nil => exact absurd (List.cons.inj he).1 hne
    | cons y more =>
      obtain ⟨rfl, -⟩ := List.cons.inj he
      simp
  · cases more with
    | nil => exact absurd (List.cons.inj he).1.symm hne
    | cons y more =>
      obtain ⟨rfl, -⟩ := List.cons.inj he
      exact absurd (by simp) (h x hx)

namespace Configuration

variable (c : Configuration)

theorem not_mem_setupSteps {x : AcceleratorStep}
    (hx : x ∈ [AcceleratorStep.call "cnn_start", .call "cnn_stop", .call "cnn_continue"]) : x ∉ c.setupSteps := by
  simp only [List.mem_cons, List.not_mem_nil, or_false] at hx
  rcases hx with rfl | rfl | rfl <;> simp only [setupSteps, kernelSteps, measured] <;> (repeat' split) <;> simp

/-- What the program asks ahead of the first start, where no stop gets ahead of it. -/
def leadSteps : List AcceleratorStep := if c.fifo then [] else [.call "load_input"]

theorem startSteps_eq : ∃ rest, c.startSteps = c.leadSteps ++ AcceleratorStep.call "cnn_start" :: rest := by
  simp only [startSteps, leadSteps]
  split
  · exact ⟨_, rfl⟩
  · exact ⟨_, rfl⟩

theorem firstRunSteps_eq (h : ¬ (c.measureEnergy = true ∧ c.stopStart = true)) :
    ∃ rest, c.firstRunSteps = c.leadSteps ++ AcceleratorStep.call "cnn_start" :: rest := by
  obtain ⟨rest, hstart⟩ := c.startSteps_eq
  cases he : c.measureEnergy with
  | false => exact ⟨rest ++ c.stopSteps ++ [AcceleratorStep.wait], by simp [firstRunSteps, he, hstart]⟩
  | true =>
    have hstop : c.stopSteps = [] := by simp_all [stopSteps]
    have hloops : Plan.energyLoops.toNat = 99 + 1 := rfl
    refine ⟨rest ++ [AcceleratorStep.wait] ++
      (List.replicate 99 (c.startSteps ++ [AcceleratorStep.wait])).flatten, ?_⟩
    rw [firstRunSteps, if_pos he, hstop, measured, hloops, List.replicate_succ, List.flatten_cons]
    simp [hstart]

end Configuration

namespace Synthesis

variable {c : Configuration} {d : Device} {i : Inputs} {s : Synthesis}

open Operation

/-- The accelerator is started before it is stopped or resumed, unless the exercise of stopping it meets energy
measurement: the runs under measurement, which contain the first start, come after the exercise. -/
theorem main_starts_first_iff (h : run c d i = .ok s) (ho : c.topology.ownsAccelerator = true) (taken : String → Bool) :
    (∀ rounds, StartsFirst
      ((acceleratorSteps taken (EmittedFunction.bodyOf "main" s.plan.functions)).laps rounds)) ↔
      ¬ (c.measureEnergy = true ∧ c.stopStart = true) := by
  rw [main_steps h ho]
  constructor
  · rintro hall ⟨he, hs⟩
    obtain ⟨after, hafter⟩ : ∃ after, (c.mainSteps i.expected.isSome).laps 0 =
        c.setupSteps ++ AcceleratorStep.call "cnn_stop" :: after := by
      simp [Execution.laps, Configuration.mainSteps, Configuration.firstRunSteps, Configuration.stopSteps, he, hs]
    exact c.not_mem_setupSteps (by simp) (hall 0 c.setupSteps after (.call "cnn_stop") (by simp) hafter)
  · intro hn rounds
    obtain ⟨rest, hfirst⟩ := c.firstRunSteps_eq hn
    obtain ⟨rest', hlaps⟩ : ∃ rest', (c.mainSteps i.expected.isSome).laps rounds =
        (c.setupSteps ++ c.leadSteps) ++ AcceleratorStep.call "cnn_start" :: rest' := by
      simp [Execution.laps, Configuration.mainSteps, hfirst]
    rw [hlaps]
    refine .of_start (fun x hx hm => ?_) rest'
    rcases List.mem_append.1 hm with hm | hm
    · exact c.not_mem_setupSteps (by simp_all) hm
    · simp only [Configuration.leadSteps] at hm
      split at hm <;> simp_all

theorem main_starts_first_measured : ∃ s, run .measuredSample .ai87 .empty = .ok s ∧
    ¬ ∀ rounds, StartsFirst ((acceleratorSteps (fun _ => true)
      (EmittedFunction.bodyOf "main" s.plan.functions)).laps rounds) := by
  obtain ⟨s, hs⟩ := exists_run (c := .measuredSample) (d := .ai87) (i := .empty) (by decide)
  refine ⟨s, hs, ?_⟩
  rw [main_starts_first_iff hs rfl]
  simp [Configuration.measuredSample, Settings.sample]

end Synthesis

end AccelFirmware
