import AccelFirmware.Proofs.Sources

/-!
# Obligations of operations

What operations ask of the program around them without naming it: loops count with a variable, a wait for the interrupt watches
the time stamp of its handler, and every fatal check is on the record of the program. Most phases ask for nothing.
-/

namespace AccelFirmware

inductive Obligation where
  | counter
  | stamp
  | check
  deriving DecidableEq, Repr

def CompletionWait.obligations : CompletionWait → List Obligation
  | .sleep _ | .spin => [.stamp]
  | .poll => []

namespace Operation

mutual

def obligations : Operation → List Obligation
  | .await wait => wait.obligations
  | .guarded _ body => body.obligations
  | .counted _ body => .counter :: obligationsOfAll body
  | .forever body => obligationsOfAll body
  | .check _ _ => [.check]
  | _ => []

def obligationsOfAll : List Operation → List Obligation
  | [] => []
  | op :: ops => op.obligations ++ obligationsOfAll ops

end

theorem collects_obligations : Collects obligations obligationsOfAll :=
  ⟨fun _ _ => List.Subset.refl _, fun _ _ => List.subset_cons_self _ _, fun _ => List.Subset.refl _, fun _ _ => rfl⟩

@[simp] theorem obligationsOfAll_append (as bs : List Operation) :
    obligationsOfAll (as ++ bs) = obligationsOfAll as ++ obligationsOfAll bs :=
  collects_obligations.append rfl as bs

@[simp] theorem obligations_callProvided (name : String) (args : List String) (note : Option String) :
    (callProvided name args note).obligations = [] := rfl

@[simp] theorem obligations_callEmitted (name : String) (args : List String) (note : Option String) :
    (callEmitted name args note).obligations = [] := rfl

@[simp] theorem obligations_writeNamed (register : String) (mode : WriteMode) (value : String) (note : Option String) :
    (writeNamed register mode value note).obligations = [] := rfl

@[simp] theorem obligations_writeAt (address : UInt32) (mode : WriteMode) (value : String) (note : Option String) :
    (writeAt address mode value note).obligations = [] := rfl

/-- Whether an operation stands for itself: it holds no other operations, relies on nothing and declares nothing. -/
def isSimple : Operation → Bool
  | .declare _ | .await _ | .guarded _ _ | .counted _ _ | .forever _ | .check _ _ => false
  | _ => true

theorem obligationsOfAll_of_simple {ops : List Operation} (h : ops.all isSimple = true) : obligationsOfAll ops = [] := by
  induction ops with
  | nil => rfl
  | cons op ops ih =>
    obtain ⟨hop, hops⟩ : op.isSimple = true ∧ ops.all isSimple = true := by simpa using h
    rw [obligationsOfAll, ih hops, List.append_nil]
    cases op <;> first | rfl | cases hop

end Operation

namespace EmitStep

/-- The operations of a step, on whatever sink they are. -/
def operations : EmitStep → List Operation
  | .push _ ops => ops
  | .function _ _ body _ => body
  | _ => []

def obligations (step : EmitStep) : List Obligation := Operation.obligationsOfAll step.operations

end EmitStep

namespace Plan

variable (p : Plan)

open Operation AccelFirmware.Action EmitStep

/-! ## Heads -/

theorem obligations_includes (part : Part) : obligationsOfAll (p.includes part) = [] := by
  have hplatform : obligationsOfAll (p.platformHeaders part) = [] := by
    simp only [platformHeaders]
    (repeat' split) <;> rfl
  have hprogram : obligationsOfAll (p.programHeaders part) = [] := by
    simp only [programHeaders]
    (repeat' split) <;> rfl
  simp only [includes, systemHeaders, constants, obligationsOfAll_append, hplatform, hprogram]
  (repeat' split) <;> rfl

theorem obligations_failBody : obligationsOfAll p.failBody = [] := by
  simp only [failBody]
  split <;> rfl

theorem simple_handlerBody : p.handlerBody.all isSimple = true := by
  have hgroups : (p.config.groups.members.map fun g =>
      writeAt (p.device.ctlAddress g) .keepBits p.acknowledgement).all isSimple = true := by
    simp [writeAt, isSimple]
  simp only [handlerBody, List.cons_append, List.all_cons, List.all_append, hgroups]
  (repeat' split) <;> rfl

theorem obligations_declarations : gather obligations p.declarations = [] := by
  have happlication (sink : Sink) : gather obligations (p.applicationState sink) = [] := by
    simp only [applicationState]
    cases p.sdkRuntime <;> cases p.embedded <;>
      simp [EmitStep.obligations, operations, obligations_failBody, obligationsOfAll, Operation.obligations]
  have hlibrary (sink : Sink) : gather obligations (p.completionFunction sink :: p.groupControl sink) = [] := by
    simp only [completionFunction, groupControl]
    cases p.waitStrategy <;> cases p.config.master <;>
      simp [EmitStep.obligations, operations, obligationsOfAll_of_simple p.simple_handlerBody, obligationsOfAll,
        Operation.obligations]
  have hhead (sink : Sink) (part : Part) : gather obligations (p.sourceHead sink part) = [] := by
    simp only [sourceHead, gather_push, EmitStep.obligations, operations, obligations_includes]
    cases p.owns with
    | false => rfl
    | true => cases part <;> simp [Part.isApplication, Part.isLibrary, happlication, hlibrary]
  simp only [declarations]
  cases p.config.layout <;> simp [hhead]

theorem Coherent.obligations_units {p : Plan} (h : p.Coherent) : gather obligations (p.units.flatMap unitActions) = [] := by
  have hunit (u : CodeUnit) : gather obligations (unitActions u) = obligationsOfAll (u.declarations ++ u.body) := by
    rw [gather_unitActions _ fun _ _ _ => rfl, obligationsOfAll_append]
    rfl
  rw [gather_flatMap]
  obtain ⟨hnil, -⟩ | ⟨hlayer, -⟩ | ⟨-, -, weights, bias, expected, hunits, -⟩ := h.units_cases
  · simp [hnil]
  · rw [hlayer]
    cases hw : p.config.outputWidth <;>
      simp [hunit, LayerStyle.softmaxOnly, LayerStyle.standard, obligationsOfAll, Operation.obligations, outputBuffer, unloadCall]
  · rw [hunits]
    cases hw : p.config.outputWidth <;> cases bias <;> cases expected <;> simp only [hunit] <;> rfl

theorem Coherent.obligations_opening {p : Plan} (h : p.Coherent) : gather obligations p.opening = [] := by
  have hbuffer (w : OutputWidth) : obligationsOfAll [outputBuffer w, .blank] = [] := by
    cases w <;> rfl
  simp only [opening, fileScopeFunctions, wakeHandler, wakeStatusHelper, gather_append, obligations_declarations]
  (repeat' split) <;>
    simp [h.obligations_units, EmitStep.obligations, operations, hbuffer, obligationsOfAll, Operation.obligations]

/-! ## Cores and camera -/

theorem obligations_locals : gather obligations p.locals = [] := by
  have hvariables : obligationsOfAll p.localVariables = [] := by
    simp only [localVariables, printoutLocals]
    (repeat' split) <;> rfl
  simp only [locals]
  split
  · rfl
  · simp [EmitStep.obligations, operations, hvariables, obligationsOfAll, Operation.obligations]

theorem obligations_powerSequence (c : PowerController) (direction : PowerDirection) (m : GroupMask) :
    obligationsOfAll (powerSequence c direction m) = [] := rfl

theorem obligations_selectClock (source : ClockSource) (divider : ClockDivider) (note : Option String) (device : Device) :
    obligationsOfAll (selectClock source divider note device) = [] := by
  simp only [selectClock, ClockSource.readyWait]
  cases source <;> cases note <;> (repeat' split) <;> rfl

theorem simple_enablePll : p.enablePll.all isSimple = true := by
  simp only [enablePll]
  split <;> rfl

theorem simple_trimOperations : p.trimOperations.all isSimple = true := by
  simp only [trimOperations]
  split
  · cases p.config.clockTrim with
    | none => rfl
    | some t =>
      simp only [Option.map_some, Option.getD_some, ClockTrim.operations, ClockTrim.sharedWrites, ClockTrim.fastWrites]
      cases t.hirc8m <;> cases t.hirc <;> cases t.hirc96m <;> rfl
  · rfl

theorem simple_sdkCoreClock : p.sdkCoreClock.all isSimple = true := by
  simp only [sdkCoreClock]
  split
  · rfl
  · simp only [List.all_append, simple_trimOperations, simple_enablePll]
    rfl

theorem simple_simulationPowerUp : p.simulationPowerUp.all isSimple = true := by
  simp only [simulationPowerUp, powerUp]
  cases p.device.powerController <;> rfl

theorem simple_simulationOscillator : p.simulationOscillator.all isSimple = true := by
  simp only [simulationOscillator]
  cases p.device.powerController with
  | bbfc => rfl
  | gcfr =>
    simp only [List.all_append, simple_enablePll]
    rfl

theorem simple_simulationCoreClock : p.simulationCoreClock.all isSimple = true := by
  have hpower : (if p.device.modernSim then [] else p.simulationPowerUp).all isSimple = true := by
    split
    · rfl
    · exact p.simple_simulationPowerUp
  simp only [simulationCoreClock]
  split
  · rfl
  · simp only [List.all_append, simple_simulationOscillator, hpower]
    rfl

theorem simple_coreClock : p.coreClock.all isSimple = true := by
  simp only [coreClock]
  split
  · exact p.simple_sdkCoreClock
  · exact p.simple_simulationCoreClock

theorem simple_bootCompanion (m : CompanionMemory) : (p.bootCompanion m).all isSimple = true := by
  have haddress : (p.bootAddress m).all isSimple = true := by
    simp only [bootAddress]
    (repeat' split) <;> rfl
  have hmemory : p.exclusiveMemory.all isSimple = true := by
    simp only [exclusiveMemory]
    (repeat' split) <;> rfl
  have hrelease : p.releaseCompanion.all isSimple = true := by
    simp only [releaseCompanion]
    (repeat' split) <;> rfl
  simp only [bootCompanion, List.all_append, haddress, hmemory, hrelease, Bool.and_self]

theorem simple_debuggerPause : p.debuggerPause.all isSimple = true := by
  simp only [debuggerPause]
  split <;> rfl

theorem simple_companionBringUp : p.companionBringUp.all isSimple = true := by
  simp only [companionBringUp]
  (repeat' split) <;> rfl

theorem simple_coreOperations : p.coreOperations.all isSimple = true := by
  refine p.coreOperations_of_parts (P := fun ops => ops.all isSimple = true) (fun as bs has hbs => ?_) rfl p.simple_coreClock
    p.simple_debuggerPause p.simple_bootCompanion p.simple_companionBringUp
  rw [List.all_append, has, hbs]
  rfl

theorem obligations_camera : obligationsOfAll p.camera = [] := by
  simp only [camera]
  split <;> rfl

theorem obligations_epilogue : obligationsOfAll p.epilogue = [] := by
  simp only [epilogue, handoff, deepSleep]
  cases p.config.topology <;> (repeat' split) <;> rfl

/-! ## On and off -/

theorem obligations_enableBody : obligationsOfAll p.enableBody = [] := by
  have hclock : obligationsOfAll p.enableClock = [] := by
    simp only [enableClock]
    (repeat' split) <;> exact obligations_selectClock _ _ _ _
  simp only [enableBody, powerUp, completionVector, obligationsOfAll_append, hclock, obligations_powerSequence]
  cases p.config.topology <;> rfl

theorem obligations_acceleratorBringUp : gather obligations p.acceleratorBringUp = [] := by
  have hbase : obligationsOfAll p.measureBasePower = [] := by
    simp only [measureBasePower]
    split <;> rfl
  have hboost : gather obligations p.boostOn = [] := by
    simp only [boostOn]
    cases p.config.isSplit <;> cases p.config.boost <;> rfl
  have hcall : obligationsOfAll p.enableCall = [] := rfl
  simp only [acceleratorBringUp]
  cases p.sdkRuntime with
  | false => rfl
  | true =>
    cases p.config.measureEnergy <;> cases p.config.isSplit <;>
      simp [EmitStep.obligations, operations, hbase, hcall, hboost, obligations_enableBody, obligationsOfAll,
        Operation.obligations]

theorem obligations_shutdown : obligationsOfAll p.shutdown = [] := by
  simp only [shutdown]
  split <;> rfl

/-! ## Runs -/

/-- What a wait for the accelerator asks for. -/
def waitObligations : List Obligation := p.completionWait.obligations

theorem waitObligations_eq : p.waitObligations = if p.waitStrategy = .interrupt then [.stamp] else [] := by
  simp only [waitObligations, completionWait]
  cases p.waitStrategy <;> cases p.config.waitMode <;> rfl

theorem obligations_loadAndStart (note : String) : obligationsOfAll (p.loadAndStart note) = [] := by
  simp only [loadAndStart]
  split <;> rfl

theorem obligations_stopAndContinue : obligationsOfAll p.stopAndContinue = [] := by
  simp only [stopAndContinue]
  split <;> rfl

theorem obligations_loadKernels :
    obligationsOfAll p.loadKernels = if p.config.measureEnergy then [.counter, .counter] else [] := by
  have hswitch : obligationsOfAll p.switchToPll = [] := by
    simp only [switchToPll]
    split
    · exact obligations_selectClock _ _ _ _
    · rfl
  simp only [loadKernels, measureLoading]
  cases p.config.measureEnergy with
  | true =>
    simp only [if_true, obligationsOfAll_append, hswitch]
    rfl
  | false => cases p.config.loadKernels <;> rfl

theorem obligations_configure :
    gather obligations p.configure =
      (if p.config.measureEnergy then [Obligation.counter, .counter] else []) ++
        (if p.config.verifyKernels then [Obligation.check] else []) ++ [Obligation.check] := by
  have hhead : obligationsOfAll
      (if p.embedded then [.statement "printf(\"\\n*** CNN Inference Test ***\\n\");", .blank] else []) = [] := by
    split <;> rfl
  have hbias : p.loadBias.obligations = [] := by
    simp only [loadBias]
    (repeat' split) <;> rfl
  simp only [configure, fatalCheck]
  cases p.config.verifyKernels <;>
    simp [EmitStep.obligations, operations, hhead, hbias, obligations_loadKernels, obligationsOfAll, Operation.obligations]

theorem obligations_firstRun :
    gather obligations p.firstRun =
      if p.config.measureEnergy then .counter :: p.waitObligations else p.waitObligations := by
  simp only [firstRun, measureRuns]
  cases p.config.measureEnergy <;>
    simp [EmitStep.obligations, operations, obligations_loadAndStart, obligations_stopAndContinue, obligationsOfAll,
      Operation.obligations, waitObligations]

theorem obligations_furtherRuns :
    gather obligations p.furtherRuns = if p.config.oneshot > 0 then .counter :: p.waitObligations else [] := by
  simp only [furtherRuns]
  split <;>
    simp [EmitStep.obligations, operations, obligationsOfAll, Operation.obligations, waitObligations]

theorem obligations_execute :
    gather obligations p.execute = gather obligations p.firstRun ++ gather obligations p.furtherRuns := by
  have hleave : obligationsOfAll p.leavePll = [] := by
    simp only [leavePll]
    split
    · rw [obligationsOfAll_append, obligations_selectClock]
      rfl
    · rfl
  have hboost : gather obligations p.boostOff = [] := by
    simp only [boostOff]
    cases p.config.isSplit <;> cases p.config.forever <;> cases p.config.boost <;> rfl
  simp [execute, hboost, EmitStep.obligations, operations, hleave]

theorem obligations_retrieve :
    gather obligations p.retrieve =
      (if p.config.verifyOutput then [Obligation.check] else []) ++ if p.verifies then [Obligation.check] else [] := by
  have hretrieval : p.retrieval.obligations = [] := by
    simp only [retrieval]
    cases p.config.retrieval <;> rfl
  have hreport : obligationsOfAll p.passReport = [] := by
    simp only [passReport]
    cases p.config.fifo <;> cases p.config.measureEnergy <;> rfl
  simp only [retrieve, fatalCheck]
  cases p.config.verifyOutput <;> cases p.verifies <;> cases p.embedded <;>
    simp [EmitStep.obligations, operations, hretrieval, hreport, obligationsOfAll, Operation.obligations]

theorem obligations_endlessLoop : obligationsOfAll p.endlessLoop = p.waitObligations := by
  have hhead : obligationsOfAll (if p.embedded then
      [.statement "printf(\"Starting endless loop...\\n\");", .blank, callProvided "LED_On" ["1"], .blank] else []) = [] := by
    split <;> rfl
  simp [endlessLoop, hhead, obligationsOfAll, Operation.obligations, waitObligations]

theorem obligations_ending : gather obligations p.ending = if p.config.forever then p.waitObligations else [] := by
  have hprintout : obligationsOfAll p.classPrintout = [] := rfl
  simp only [ending, acceleratorShutdown, disableFunction]
  cases p.config.forever <;> cases p.config.isSplit <;> cases p.printsClasses <;>
    simp [EmitStep.obligations, operations, obligations_endlessLoop, obligations_shutdown, hprintout, obligationsOfAll,
      Operation.obligations]

/-! ## Checks -/

/-- Outside the phases of the accelerator, nothing is asked for. -/
theorem obligations_inside : gather obligations p.inside = gather obligations p.acceleratorPhases := by
  simp [inside, obligations_locals, EmitStep.obligations, operations, obligationsOfAll_of_simple p.simple_coreOperations,
    obligations_camera, obligations_epilogue]

/-- The checks in the code are those on the record. -/
theorem Coherent.checks_eq {p : Plan} (h : p.Coherent) :
    (gather obligations p.actions).count .check = p.fatalChecks := by
  have hwait : p.waitObligations.count .check = 0 := by
    rw [waitObligations_eq]
    split <;> rfl
  have hends : (gather obligations [Action.emit (.openUnit .main (.status "main"))]).count .check = 0 ∧
      (gather obligations [Action.emit (.closeUnit .main (some "0"))]).count .check = 0 := ⟨rfl, rfl⟩
  rw [actions_eq, gather_append, gather_append, gather_append, h.obligations_opening, obligations_inside]
  simp only [List.count_append, hends, acceleratorPhases, fatalChecks]
  cases p.owns with
  | false => rfl
  | true =>
    simp only [if_true, gather_append, obligations_acceleratorBringUp, obligations_configure, obligations_execute,
      obligations_firstRun, obligations_furtherRuns, obligations_retrieve, obligations_ending, List.count_append]
    by_cases hn : p.config.oneshot > 0 <;> cases p.config.measureEnergy <;> cases p.config.verifyKernels <;>
      cases p.config.verifyOutput <;> cases p.verifies <;> cases p.config.forever <;> simp [hn, hwait]

end Plan

end AccelFirmware
