import AccelFirmware.Proofs.CallOrder
import AccelFirmware.Proofs.InlinedMain
import AccelFirmware.Proofs.Touches

/-!
# Steps of the power

The writes of `main` to the registers that switch the power of groups, among its accelerator steps. The functions of the split
layout are inlined.
-/

namespace AccelFirmware

/-! ## Steps -/

inductive PowerStep where
  | write (register : Register) (mode : WriteMode) (value : String)
  | drive (step : AcceleratorStep)
  deriving DecidableEq, Repr

def PowerStep.step? : PowerStep → Option AcceleratorStep
  | .write _ _ _ => none
  | .drive step => some step

/-- The registers that switch the power of groups, in both controllers. -/
def powerRegisters : List Register :=
  [.named "MXC_BBFC->reg0", .named "MXC_BBFC->reg1", .named "MXC_BBFC->reg2", .named "MXC_BBFC->reg3",
   .named "MXC_GCFR->reg0", .named "MXC_GCFR->reg1", .named "MXC_GCFR->reg2", .named "MXC_GCFR->reg3"]

theorem register_mem_powerRegisters (c : PowerController) {index : Nat} (h : index ∈ [0, 1, 2, 3]) :
    c.register index ∈ powerRegisters := by
  have hall : ∀ c ∈ PowerController.all, ∀ index ∈ [0, 1, 2, 3], c.register index ∈ powerRegisters := by decide +kernel
  exact hall c (by cases c <;> decide) index h

namespace PowerController

variable (c : PowerController) (m : GroupMask)

def assignment (index : Nat) (value : UInt32) : PowerStep :=
  .write (c.register index) .assign ("0x" ++ hex value.toNat)

/-- Reset, memory, power and isolation of the groups in use, and the end of the reset. -/
def upSteps : List PowerStep :=
  [c.assignment 3 m.all, c.assignment 1 m.mask, c.assignment 0 m.mask, c.assignment 2 m.unmask, c.assignment 3 0]

def downSteps : List PowerStep :=
  [c.assignment 3 m.all, c.assignment 1 0, c.assignment 0 0, c.assignment 2 m.all, c.assignment 3 0]

end PowerController

/-- Neither switches power nor drives the accelerator. -/
def Touch.isIdle : Touch → Bool
  | .register r => !powerRegisters.contains r
  | .function name => !isAcceleratorFunction name
  | .handler _ | .condition _ => true
  | .completion | .endlessLoop => false

namespace Operation

def powerStep? : Operation → Option PowerStep
  | .write register mode value _ => if powerRegisters.contains register then some (.write register mode value) else none
  | op => op.acceleratorStep?.map .drive

def powerKinds : List Touch := powerRegisters.map .register

variable (taken : String → Bool)

def powerSteps (ops : List Operation) : Execution PowerStep :=
  (executionOfAll taken ops).filterMap powerStep?

@[simp] theorem powerSteps_nil : powerSteps taken [] = .ofList [] := rfl

@[simp] theorem powerSteps_append (as bs : List Operation) :
    powerSteps taken (as ++ bs) = (powerSteps taken as).andThen (powerSteps taken bs) := by
  simp [powerSteps, executionOfAll_append]

theorem powerStep?_eq_map {op : Operation} (h : ∀ t ∈ op.touches, t ∉ powerKinds) :
    op.powerStep? = op.acceleratorStep?.map .drive := by
  cases op with
  | write register mode value note =>
    have hother : register ∉ powerRegisters := fun hm =>
      h (.register register) (by simp [touches]) (List.mem_map_of_mem hm)
    simp [powerStep?, acceleratorStep?, hother]
  | _ => rfl

theorem acceleratorSteps_eq_powerSteps (ops : List Operation) :
    acceleratorSteps taken ops = (powerSteps taken ops).filterMap PowerStep.step? := by
  rw [acceleratorSteps, powerSteps, Execution.filterMap_filterMap]
  congr 1
  funext op
  cases op with
  | write register mode value note =>
    simp only [powerStep?]
    split <;> rfl
  | call callee args note | check callee policy =>
    simp only [powerStep?, acceleratorStep?]
    split <;> rfl
  | _ => rfl

/-- Away from the controllers there are only accelerator steps. -/
theorem powerSteps_of_avoids {ops : List Operation} (h : Avoids powerKinds ops) :
    powerSteps taken ops = (acceleratorSteps taken ops).filterMap fun step => some (.drive step) := by
  rw [powerSteps, acceleratorSteps, Execution.filterMap_filterMap]
  refine Execution.filterMap_congr _ ((h.steps taken).mono fun op hop => ?_)
  rw [powerStep?_eq_map hop]
  cases op.acceleratorStep? <;> rfl

/-! ## Idle operations -/

def Idle (ops : List Operation) : Prop := ∀ t ∈ touchesOfAll ops, t.isIdle = true

section

variable {as bs ops : List Operation}

@[simp] theorem idle_append : Idle (as ++ bs) ↔ Idle as ∧ Idle bs := by
  simp [Idle, or_imp, forall_and]

theorem idle_of_all (h : (touchesOfAll ops).all Touch.isIdle = true) : Idle ops :=
  List.all_eq_true.1 h

theorem idle_of_subset {allowed : List Touch} (hsub : touchesOfAll ops ⊆ allowed) (h : allowed.all Touch.isIdle = true) :
    Idle ops :=
  fun t ht => List.all_eq_true.1 h t (hsub ht)

theorem powerStep?_eq_none {op : Operation} (h : ∀ t ∈ op.touches, t.isIdle = true) : op.powerStep? = none := by
  cases op with
  | write register mode value note =>
    have hother : register ∉ powerRegisters := by simpa [touches, Touch.isIdle] using h
    simp [powerStep?, hother]
  | call callee args note | check callee policy =>
    have hother : isAcceleratorFunction callee.name = false := by simpa [touches, Touch.isIdle] using h
    simp [powerStep?, acceleratorStep?, hother]
  | await wait => simp [touches, Touch.isIdle] at h
  | _ => rfl

theorem powerSteps_of_idle (h : Idle ops) : powerSteps taken ops = .ofList [] := by
  have hends : (executionOfAll taken ops).endless = none := by
    refine executionOfAll_ends taken ops fun hloop => ?_
    cases h _ hloop
  have honce : (executionOfAll taken ops).once.filterMap powerStep? = [] :=
    List.filterMap_eq_nil_iff.2 fun op hop =>
      powerStep?_eq_none fun t ht => h t ((executionOfAll_touches taken ops).1 op hop ht)
  rw [powerSteps, Execution.filterMap, hends, honce]
  rfl

end

/-! ## Sequences -/

theorem powerSteps_powerSequence (c : PowerController) (m : GroupMask) :
    powerSteps taken (powerSequence c .up m) = .ofList (c.upSteps m) ∧
      powerSteps taken (powerSequence c .down m) = .ofList (c.downSteps m) := by
  have hwrite {index : Nat} (h : index ∈ [0, 1, 2, 3]) (value : String) (note : Option String) :
      (Operation.write (c.register index) .assign value note).powerStep? = some (.write (c.register index) .assign value) :=
    if_pos (List.contains_iff_mem.2 (register_mem_powerRegisters c h))
  have hheading (text : String) : (Operation.comment text).powerStep? = none := rfl
  constructor <;>
    simp [powerSteps, powerSequence, powerWrites, executionOfAll, execution, hwrite, hheading, PowerController.upSteps,
      PowerController.downSteps, PowerController.assignment, PowerDirection.powered, PowerDirection.isolated]

end Operation

namespace Plan

variable (p : Plan)

open Operation AccelFirmware.Action EmitStep

/-! ## Idle phases -/

theorem idle_locals : Idle (gather (pushed .main) p.locals) := by
  simp [Idle, touches_locals]

theorem idle_camera : Idle p.camera :=
  idle_of_subset p.touches_camera rfl

theorem idle_companionBringUp : Idle p.companionBringUp :=
  idle_of_subset p.touches_companionBringUp rfl

theorem idle_enablePll : Idle p.enablePll := by
  simp only [enablePll]
  split <;> exact idle_of_all rfl

theorem idle_sdkCoreClock : Idle p.sdkCoreClock := by
  have htrim : Idle p.trimOperations := idle_of_subset p.touches_trimOperations rfl
  simp only [sdkCoreClock]
  split
  · exact idle_of_all rfl
  · simp only [idle_append, htrim, idle_enablePll, and_true]
    exact ⟨⟨idle_of_all rfl, idle_of_all rfl⟩, idle_of_all rfl⟩

theorem idle_simulationOscillator : Idle p.simulationOscillator := by
  simp only [simulationOscillator]
  cases p.device.powerController with
  | bbfc => exact idle_of_all rfl
  | gcfr => exact idle_append.2 ⟨idle_append.2 ⟨idle_of_all rfl, p.idle_enablePll⟩, idle_of_all rfl⟩

theorem idle_bootCompanion (m : CompanionMemory) : Idle (p.bootCompanion m) := by
  have haddress : Idle (p.bootAddress m) := by
    simp only [bootAddress]
    (repeat' split) <;> exact idle_of_all rfl
  have hmemory : Idle p.exclusiveMemory := by
    simp only [exclusiveMemory]
    (repeat' split) <;> exact idle_of_all rfl
  have hrelease : Idle p.releaseCompanion := by
    simp only [releaseCompanion]
    (repeat' split) <;> exact idle_of_all rfl
  exact idle_append.2 ⟨idle_append.2 ⟨haddress, hmemory⟩, hrelease⟩

theorem idle_selectClock (source : ClockSource) (divider : ClockDivider) (note : Option String) (device : Device) :
    Idle (selectClock source divider note device) := by
  simp only [selectClock, ClockSource.readyWait]
  cases note <;> cases source <;> cases device.supportsPll <;> exact idle_of_all rfl

theorem idle_passedClock : Idle p.passedClock := by
  simp only [passedClock]
  cases p.device.supportsPll <;> exact idle_of_all rfl

theorem idle_completionVector : Idle p.completionVector := by
  simp only [completionVector]
  cases p.config.topology <;> exact idle_of_all rfl

theorem idle_baseMeasurement : Idle p.measureBasePower.tail := by
  simp only [measureBasePower]
  cases p.config.topology <;> exact idle_of_all rfl

theorem idle_openedBoostOn : Idle p.openedBoostOn := by
  simp only [openedBoostOn, boostOn]
  cases p.config.isSplit <;> cases p.config.boost <;> exact idle_of_all rfl

theorem idle_openedBoostOff : Idle p.openedBoostOff := by
  simp only [openedBoostOff, boostOff]
  cases p.config.isSplit <;> cases p.config.forever <;> cases p.config.boost <;> exact idle_of_all rfl

theorem idle_epilogue : Idle p.epilogue := by
  simp only [epilogue, handoff, deepSleep]
  cases p.config.topology <;> (repeat' split) <;> exact idle_of_all rfl

/-! ## Power steps of the phases -/

/-- Older simulations of current parts switch the power on with the core. -/
def poweredWithCore : Bool := !p.sdk && !p.device.family.isLegacy && !p.device.modernSim

def upSteps : List PowerStep := p.device.powerController.upSteps p.mask

def downSteps : List PowerStep := p.device.powerController.downSteps p.mask

def corePowerSteps : List PowerStep := if p.poweredWithCore then p.upSteps else []

def leadPowerSteps : List PowerStep :=
  match p.config.topology with
  | .singleCore | .armHost => p.corePowerSteps
  | .companion => []

/-- The base power is measured with the power switched off. -/
def bringUpPowerSteps : List PowerStep :=
  if p.sdkRuntime then (if p.config.measureEnergy then p.downSteps else []) ++ p.upSteps else []

def drives (steps : List AcceleratorStep) : List PowerStep := steps.map .drive

def mainPowerSteps : Execution PowerStep where
  once := p.leadPowerSteps ++ p.bringUpPowerSteps ++ drives (p.config.mainSteps p.verifies).once ++
    if p.config.forever then [] else p.downSteps
  endless := (p.config.mainSteps p.verifies).endless.map drives

section

variable (taken : String → Bool)

theorem powerSteps_powerUp : powerSteps taken p.powerUp = .ofList p.upSteps :=
  (powerSteps_powerSequence taken _ _).1

theorem powerSteps_shutdown : powerSteps taken p.shutdown = .ofList p.downSteps := by
  have hclock : Idle (if p.sdkRuntime then
      [.comment "Disable CNN clock", callProvided "MXC_SYS_ClockDisable" ["MXC_SYS_PERIPH_CLOCK_CNN"], .blank]
      else []) := by
    split <;> exact idle_of_all rfl
  rw [shutdown, powerSteps_append, powerSteps_of_idle taken hclock, (powerSteps_powerSequence taken _ _).2]
  rfl

theorem powerSteps_simulationPowerUp : powerSteps taken p.simulationPowerUp = .ofList p.upSteps := by
  obtain ⟨clock, hclock, hidle⟩ : ∃ clock,
      p.simulationPowerUp = [Operation.blank] ++ p.powerUp ++ [Operation.blank] ++ clock ∧ Idle clock := by
    simp only [simulationPowerUp]
    cases p.device.powerController with
    | gcfr => exact ⟨_, rfl, idle_append.2 ⟨idle_selectClock _ _ _ _, idle_of_all rfl⟩⟩
    | bbfc => exact ⟨_, rfl, idle_of_all rfl⟩
  have hblank : Idle [.blank] := idle_of_all rfl
  simp only [hclock, powerSteps_append, powerSteps_of_idle taken hblank, powerSteps_of_idle taken hidle, powerSteps_powerUp,
    Execution.nil_andThen, Execution.andThen_nil]

theorem powerSteps_simulationCoreClock :
    powerSteps taken p.simulationCoreClock =
      .ofList (if !p.device.family.isLegacy && !p.device.modernSim then p.upSteps else []) := by
  cases hl : p.device.family.isLegacy with
  | true =>
    -- Older parts are done with their clock before it comes to the power.
    have hclock : Idle p.simulationCoreClock := by
      simp only [simulationCoreClock, hl]
      exact idle_of_all rfl
    exact powerSteps_of_idle taken hclock
  | false =>
    have hcache : Idle [callProvided "icache_enable", .blank] := idle_of_all rfl
    have htrim (first second third : Option String) :
        Idle [writeAt trimKey .assign "0x00000001" first, writeAt trimFast .assign "0x000001a0" second,
          writeAt trimKey .assign "0x00000000" third, .blank] := idle_of_all rfl
    simp only [Bool.false_eq_true, if_false, simulationCoreClock, hl, powerSteps_append, powerSteps_of_idle taken hcache,
      powerSteps_of_idle taken (htrim _ _ _), powerSteps_of_idle taken p.idle_simulationOscillator, Execution.nil_andThen]
    cases p.device.modernSim with
    | true => rfl
    | false => exact p.powerSteps_simulationPowerUp taken

theorem powerSteps_coreClock : powerSteps taken p.coreClock = .ofList p.corePowerSteps := by
  cases hs : p.sdk with
  | true =>
    rw [coreClock, if_pos hs, corePowerSteps, poweredWithCore, hs]
    exact powerSteps_of_idle taken p.idle_sdkCoreClock
  | false =>
    rw [coreClock, hs, corePowerSteps, poweredWithCore, hs]
    exact p.powerSteps_simulationCoreClock taken

theorem powerSteps_leadOps : powerSteps taken p.leadOps = .ofList p.leadPowerSteps := by
  have hblank : Idle [.blank] := idle_of_all rfl
  have hpause : Idle p.debuggerPause := idle_of_subset p.touches_debuggerPause rfl
  have hcore : powerSteps taken p.coreOperations = .ofList p.leadPowerSteps := by
    simp only [coreOperations, leadPowerSteps]
    cases p.config.topology with
    | singleCore =>
      simp only [powerSteps_append, powerSteps_coreClock, powerSteps_of_idle taken hpause, powerSteps_of_idle taken hblank,
        Execution.andThen_nil]
    | armHost =>
      cases p.device.companion with
      | none => exact p.powerSteps_coreClock taken
      | some m =>
        simp only [powerSteps_append, powerSteps_coreClock, powerSteps_of_idle taken (p.idle_bootCompanion m),
          powerSteps_of_idle taken hblank, Execution.andThen_nil]
    | companion => exact powerSteps_of_idle taken p.idle_companionBringUp
  simp only [leadOps, powerSteps_append, hcore, powerSteps_of_idle taken p.idle_locals,
    powerSteps_of_idle taken p.idle_camera, Execution.nil_andThen, Execution.andThen_nil]

theorem powerSteps_openedEnable : powerSteps taken p.openedEnable = .ofList p.upSteps := by
  have hblank : Idle [.blank] := idle_of_all rfl
  have henable (note : Option String) :
      Idle [callProvided "MXC_SYS_ClockEnable" ["MXC_SYS_PERIPH_CLOCK_CNN"] note, .blank] := idle_of_all rfl
  have hvector := p.idle_completionVector
  simp only [openedEnable]
  split
  · have hcomments : Idle (p.enableCall.take 2) := idle_of_all rfl
    simp only [powerSteps_append, powerSteps_powerUp, powerSteps_of_idle taken hcomments, powerSteps_of_idle taken hblank,
      powerSteps_of_idle taken p.idle_passedClock, powerSteps_of_idle taken (henable _),
      powerSteps_of_idle taken hvector, Execution.nil_andThen, Execution.andThen_nil]
  · have hclock : Idle p.enableClock := by
      simp only [enableClock]
      (repeat' split) <;> exact idle_selectClock _ _ _ _
    simp only [enableBody, powerSteps_append, powerSteps_powerUp, powerSteps_of_idle taken hblank,
      powerSteps_of_idle taken hclock, powerSteps_of_idle taken (henable _), powerSteps_of_idle taken hvector,
      Execution.andThen_nil]

theorem powerSteps_base :
    powerSteps taken (if p.config.measureEnergy then p.shutdown ++ p.measureBasePower.tail else []) =
      .ofList (if p.config.measureEnergy then p.downSteps else []) := by
  split
  · rw [powerSteps_append, powerSteps_shutdown, powerSteps_of_idle taken p.idle_baseMeasurement, Execution.andThen_nil]
  · rfl

theorem powerSteps_openedBringUp : powerSteps taken p.openedBringUp = .ofList p.bringUpPowerSteps := by
  simp only [openedBringUp, bringUpPowerSteps]
  split
  · have hblank : Idle [.blank] := idle_of_all rfl
    simp only [powerSteps_append, powerSteps_base, powerSteps_openedEnable, powerSteps_of_idle taken p.idle_openedBoostOn,
      powerSteps_of_idle taken hblank, Execution.andThen_nil, Execution.ofList_andThen_ofList]
  · rfl

theorem steps_runOps :
    acceleratorSteps taken p.runOps =
      .ofList (p.config.setupSteps ++ p.config.firstRunSteps ++ p.config.furtherSteps) := by
  simp [runOps, steps_configure, steps_firstRun, steps_furtherRuns, acceleratorSteps_of_isQuiet taken p.quiet_leavePll]

theorem touches_runOps : touchesOfAll p.runOps ⊆ runTouches := by
  simp only [runOps, touchesOfAll_append, List.append_subset]
  exact ⟨⟨⟨p.touches_configure, p.touches_firstRun⟩, p.touches_furtherRuns⟩, p.touches_leavePll⟩

theorem powerSteps_runOps :
    powerSteps taken p.runOps =
      .ofList (drives (p.config.setupSteps ++ p.config.firstRunSteps ++ p.config.furtherSteps)) := by
  have havoids : Avoids powerKinds p.runOps := avoids_of_subset p.touches_runOps rfl
  rw [powerSteps_of_avoids taken havoids, steps_runOps, Execution.filterMap_ofList, List.filterMap_eq_map']
  rfl

theorem powerSteps_retrieve :
    powerSteps taken (gather (pushed .main) p.retrieve) = .ofList (drives (p.config.resultSteps p.verifies)) := by
  have havoids : Avoids powerKinds (gather (pushed .main) p.retrieve) := avoids_of_subset p.touches_retrieve rfl
  rw [powerSteps_of_avoids taken havoids, steps_retrieve, Execution.filterMap_ofList, List.filterMap_eq_map']
  rfl

/-- The power is switched off, unless the runs go on without an end. -/
theorem powerSteps_openedEnding :
    powerSteps taken p.openedEnding =
      ⟨if p.config.forever then [] else p.downSteps,
        (p.config.mainSteps p.verifies).endless.map drives⟩ := by
  have hblank : Idle [.blank] := idle_of_all rfl
  have hprint : Idle (if p.printsClasses then p.classPrintout else []) := by
    split <;> exact idle_of_all rfl
  cases hf : p.config.forever with
  | true =>
    -- The split layout has the function that switches the power off, but nothing calls it.
    have hloop : p.openedEnding = p.endlessLoop := by
      cases hs : p.config.isSplit <;> simp [openedEnding, ending, hf, hs, disableFunction, pushed]
    have havoids : Avoids powerKinds p.endlessLoop := avoids_of_subset p.touches_endlessLoop rfl
    rw [hloop, powerSteps_of_avoids taken havoids, steps_endlessLoop, Configuration.mainSteps, if_pos hf]
    rfl
  | false =>
    have hsteps : powerSteps taken p.openedEnding = .ofList p.downSteps := by
      cases hs : p.config.isSplit with
      | true =>
        simp only [openedEnding, hf, hs, Bool.not_false, Bool.and_self, if_true, powerSteps_append, powerSteps_shutdown,
          powerSteps_of_idle taken hblank, powerSteps_of_idle taken hprint, Execution.andThen_nil]
      | false =>
        have hending : p.openedEnding = p.shutdown ++ if p.printsClasses then p.classPrintout else [] := by
          simp only [openedEnding, ending, acceleratorShutdown, hf, hs]
          cases p.printsClasses <;> simp [pushed]
        rw [hending, powerSteps_append, powerSteps_shutdown, powerSteps_of_idle taken hprint, Execution.andThen_nil]
    rw [hsteps, Configuration.mainSteps, hf]
    rfl

/-- The power steps of `main`, phase by phase. -/
theorem powerSteps_openedMain : powerSteps taken p.openedMain = p.mainPowerSteps := by
  simp only [openedMain, powerSteps_append, powerSteps_leadOps, powerSteps_openedBringUp, powerSteps_runOps,
    powerSteps_of_idle taken p.idle_openedBoostOff, powerSteps_retrieve, powerSteps_openedEnding,
    powerSteps_of_idle taken p.idle_epilogue, Execution.andThen_nil]
  simp [mainPowerSteps, Configuration.mainSteps, drives, Execution.andThen, Execution.ofList]

end

/-- With the functions inlined, the power steps of `main` are those of the plan. -/
theorem Coherent.power_main {p : Plan} (h : p.Coherent) (ho : p.owns = true) (taken : String → Bool) :
    (inlined taken p.functions (EmittedFunction.bodyOf "main" p.functions)).filterMap powerStep? = p.mainPowerSteps := by
  rw [h.inlined_main taken ho]
  exact p.powerSteps_openedMain taken

end Plan

end AccelFirmware
