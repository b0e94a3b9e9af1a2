import AccelFirmware.Proofs.CallOrder
import AccelFirmware.Proofs.InlinedMain
import AccelFirmware.Proofs.Touches

/-!
# Steps of the clock

What `main` does to the PLL and to the source of the accelerator clock, among the starts and waits of the accelerator. The
functions of the split layout are inlined.
-/

namespace AccelFirmware

/-! ## Steps -/

inductive ClockStep where
  /-- Switches the PLL on. -/
  | enable
  | disable
  /-- A wait for the PLL. -/
  | ready
  /-- Selects the source of the accelerator clock. -/
  | select (source : ClockSource)
  | start
  | wait
  deriving DecidableEq, Repr

/-- The register that switches the PLL on and off. -/
def pllControl : Register := .named "MXC_GCR->ito_ctrl"

def pllEnable : String := "MXC_F_GCR_ITO_CTRL_EN"

/-- The source that a word selects. -/
def Token.source? : Token → Option ClockSource
  | .word name => [ClockSource.ito, .pclk].find? fun source => source.selector.toList = name
  | .mark _ => none

/-- The source whose selector is the last one in a value. -/
def selectedSource? (value : String) : Option ClockSource :=
  (tokens value.toList).reverse.findSome? Token.source?

def AcceleratorStep.clockStep? : AcceleratorStep → Option ClockStep
  | .call name => if name = "cnn_start" then some .start else none
  | .check _ => none
  | .wait => some .wait

namespace Operation

/-- What a write means for the clock. -/
def clockWrite? (register : Register) (mode : WriteMode) (value : String) : Option ClockStep :=
  if register = pllControl then
    match mode with
    | .setBits => if value = pllEnable then some .enable else none
    | .keepBits => if value = "~" ++ pllEnable then some .disable else none
    | .assign => none
  else if register = clockRegister then (selectedSource? value).map .select
  else none

def clockStep? : Operation → Option ClockStep
  | .write register mode value _ => clockWrite? register mode value
  | .waitUntil condition _ => if condition = pllNotReady then some .ready else none
  | .call callee _ _ => if callee.name = "cnn_start" then some .start else none
  | .await _ => some .wait
  | _ => none

/-- What a step of the clock comes from. -/
def clockKinds : List Touch := [.register pllControl, .register clockRegister, .condition pllNotReady]

def runKinds : List Touch := [.function "cnn_start", .completion, .endlessLoop]

variable (taken : String → Bool)

def clockSteps (ops : List Operation) : Execution ClockStep :=
  (executionOfAll taken ops).filterMap clockStep?

@[simp] theorem clockSteps_nil : clockSteps taken [] = .ofList [] := rfl

@[simp] theorem clockSteps_append (as bs : List Operation) :
    clockSteps taken (as ++ bs) = (clockSteps taken as).andThen (clockSteps taken bs) := by
  simp [clockSteps, executionOfAll_append]

/-- Away from the PLL and the clock register there are only starts and waits. -/
theorem clockStep?_eq_bind {op : Operation} (h : ∀ t ∈ op.touches, t ∉ clockKinds) :
    op.clockStep? = op.acceleratorStep?.bind AcceleratorStep.clockStep? := by
  cases op with
  | write register mode value note =>
    obtain ⟨hpll, hclock⟩ : register ≠ pllControl ∧ register ≠ clockRegister := by
      simpa [touches, clockKinds] using h
    simp [clockStep?, clockWrite?, acceleratorStep?, hpll, hclock]
  | waitUntil condition note =>
    have hready : condition ≠ pllNotReady := by simpa [touches, clockKinds] using h
    simp [clockStep?, acceleratorStep?, hready]
  | call callee args note =>
    by_cases hstart : callee.name = "cnn_start"
    · have hdrives : isAcceleratorFunction "cnn_start" = true := rfl
      simp [clockStep?, acceleratorStep?, AcceleratorStep.clockStep?, hstart, hdrives]
    · cases hdrives : isAcceleratorFunction callee.name <;>
        simp [clockStep?, acceleratorStep?, AcceleratorStep.clockStep?, hstart, hdrives]
  | check callee policy =>
    cases hdrives : isAcceleratorFunction callee.name <;>
      simp [clockStep?, acceleratorStep?, AcceleratorStep.clockStep?, hdrives]
  | _ => rfl

theorem clockStep?_eq_none {op : Operation} (h : ∀ t ∈ op.touches, t ∉ clockKinds ++ runKinds) : op.clockStep? = none := by
  cases op with
  | write register mode value note =>
    obtain ⟨hpll, hclock⟩ : register ≠ pllControl ∧ register ≠ clockRegister := by
      simpa [touches, clockKinds, runKinds] using h
    simp [clockStep?, clockWrite?, hpll, hclock]
  | waitUntil condition note =>
    have hready : condition ≠ pllNotReady := by simpa [touches, clockKinds, runKinds] using h
    simp [clockStep?, hready]
  | call callee args note =>
    have hstart : callee.name ≠ "cnn_start" := by simpa [touches, clockKinds, runKinds] using h
    simp [clockStep?, hstart]
  | await wait => simp [touches, runKinds] at h
  | _ => rfl

theorem clockSteps_of_avoids {ops : List Operation} (h : Avoids clockKinds ops) :
    clockSteps taken ops = (acceleratorSteps taken ops).filterMap AcceleratorStep.clockStep? := by
  rw [clockSteps, acceleratorSteps, Execution.filterMap_filterMap]
  exact Execution.filterMap_congr _ ((h.steps taken).mono fun _ => clockStep?_eq_bind)

/-- Operations without a part in the protocol of the clock. -/
abbrev Silent (ops : List Operation) : Prop := Avoids (clockKinds ++ runKinds) ops

theorem clockSteps_of_silent {ops : List Operation} (h : Silent ops) : clockSteps taken ops = .ofList [] :=
  h.filterMap (by decide) (fun _ => clockStep?_eq_none) taken

theorem silent_powerSequence (c : PowerController) (direction : PowerDirection) (m : GroupMask) :
    Silent (powerSequence c direction m) := by
  refine avoids_of_all ?_
  rw [touches_powerSequence]
  cases c <;> decide +kernel

end Operation

namespace Plan

variable (p : Plan)

open Operation AccelFirmware.Action EmitStep

/-! ## Phases without clock steps -/

theorem silent_locals : Silent (gather (pushed .main) p.locals) := p.avoids_locals _

theorem silent_camera : Silent p.camera :=
  avoids_of_subset p.touches_camera rfl

theorem silent_companionBringUp : Silent p.companionBringUp :=
  avoids_of_subset p.touches_companionBringUp rfl

theorem silent_shutdown : Silent p.shutdown := by
  refine avoids_append.2 ⟨?_, silent_powerSequence _ _ _⟩
  split <;> exact avoids_of_all rfl

theorem silent_baseMeasurement : Silent p.measureBasePower.tail := by
  simp only [measureBasePower]
  cases p.config.topology <;> exact avoids_of_all rfl

theorem silent_completionVector : Silent p.completionVector := by
  simp only [completionVector]
  cases p.config.topology <;> exact avoids_of_all rfl

theorem silent_openedBoostOn : Silent p.openedBoostOn := by
  simp only [openedBoostOn, boostOn]
  cases p.config.isSplit <;> cases p.config.boost <;> exact avoids_of_all rfl

theorem silent_openedBoostOff : Silent p.openedBoostOff := by
  simp only [openedBoostOff, boostOff]
  cases p.config.isSplit <;> cases p.config.forever <;> cases p.config.boost <;> exact avoids_of_all rfl

theorem silent_epilogue : Silent p.epilogue := by
  simp only [epilogue, handoff, deepSleep]
  cases p.config.topology <;> (repeat' split) <;> exact avoids_of_all rfl

theorem silent_retrieve : Silent (gather (pushed .main) p.retrieve) := by
  have houtput : Silent (gather (pushed .main)
      (if p.config.verifyOutput then p.fatalCheck (.provided "check_output") else [])) := by
    split <;> exact avoids_of_all rfl
  have hverify : Silent (gather (pushed .main) (if p.verifies then p.fatalCheck (.emitted "fc_verify") else [])) := by
    split <;> exact avoids_of_all rfl
  have hreport : Silent (gather (pushed .main) (if p.embedded then [.push .main p.passReport] else [])) := by
    simp only [passReport]
    (repeat' split) <;> exact avoids_of_all rfl
  have hretrieval : Silent (gather (pushed .main) [.push .main [p.retrieval]]) := by
    simp only [retrieval]
    cases p.config.retrieval <;> exact avoids_of_all rfl
  simp only [retrieve, gather_append, avoids_append]
  exact ⟨⟨⟨houtput, hretrieval⟩, hverify⟩, hreport⟩

/-! ## Clock steps of the phases -/

def enableSteps : List ClockStep := if p.config.pll then [.enable] else []

/-- The clock of the core. Older parts and an older power controller have no PLL there. -/
def coreClockSteps : List ClockStep :=
  if p.device.family.isLegacy then []
  else if p.sdk then p.enableSteps
  else
    match p.device.powerController with
    | .gcfr => p.enableSteps ++ if p.device.modernSim then [] else [ClockStep.select .pclk]
    | .bbfc => []

def leadClockSteps : List ClockStep :=
  match p.config.topology with
  | .singleCore | .armHost => p.coreClockSteps
  | .companion => []

/-- A switch to the PLL, after the wait for it. -/
def pllSwitch : List ClockStep := [.ready, .select .ito]

/-- The wait inside the opened function, where its guard holds. -/
def guardSteps (taken : String → Bool) : List ClockStep :=
  if p.device.supportsPll && taken p.sourceGuard then [.ready] else []

def bringUpClockSteps (taken : String → Bool) : List ClockStep :=
  if p.sdkRuntime then
    if p.config.isSplit then p.guardSteps taken ++ [ClockStep.select p.requestedSource]
    else if p.config.pll then pllSwitch
    else [.select .pclk]
  else []

def kernelClockSteps : List ClockStep := if p.config.measureEnergy && p.config.pll then pllSwitch else []

/-- Starts and waits of the first run and the further ones. -/
def runClockSteps : List ClockStep :=
  (p.config.firstRunSteps ++ p.config.furtherSteps).filterMap AcceleratorStep.clockStep?

def leaveClockSteps : List ClockStep := if p.config.pll then [.select .pclk, .disable] else []

def mainClockSteps (taken : String → Bool) : Execution ClockStep where
  once := p.leadClockSteps ++ p.bringUpClockSteps taken ++ p.kernelClockSteps ++ p.runClockSteps ++ p.leaveClockSteps
  endless := if p.config.forever then some [.start, .wait] else none

section

variable (taken : String → Bool)

theorem selectedSource?_clockSelection {source : ClockSource} (h : source ≠ .parameter) (divider : ClockDivider) :
    selectedSource? (clockSelection source divider) = some source := by
  have hword : tokens source.selector.toList = [.word source.selector.toList] := by
    cases source with
    | parameter => exact absurd rfl h
    | ito | pclk => decide +kernel
  have hsource : Token.source? (.word source.selector.toList) = some source := by
    have hne : ClockSource.ito.selector ≠ ClockSource.pclk.selector := by decide
    cases source with
    | parameter => exact absurd rfl h
    | ito => simp [Token.source?]
    | pclk => simp [Token.source?, String.toList_inj, hne]
  -- The selector is the last word, behind a blank.
  obtain ⟨start, hstart⟩ : ∃ start, clockSelection source divider = start ++ " | " ++ source.selector := ⟨_, rfl⟩
  have hbar : " | ".toList = [' ', '|'] ++ [' '] := rfl
  have hchars : (clockSelection source divider).toList =
      (start.toList ++ [' ', '|']) ++ ' ' :: source.selector.toList := by
    have hends (a b c : String) : (a ++ b ++ c).toList = a.toList ++ b.toList ++ c.toList := by
      simp only [String.toList_append]
    rw [hstart, hends, hbar]
    simp only [List.append_assoc, List.cons_append, List.nil_append]
  rw [selectedSource?, hchars, tokens_append_mark rfl, hword]
  simp [hsource]

theorem clockStep?_ready (note : Option String) : (Operation.waitUntil pllNotReady note).clockStep? = some .ready := by
  rw [clockStep?, if_pos rfl]

theorem clockStep?_select {source : ClockSource} (h : source ≠ .parameter) (divider : ClockDivider)
    (note : Option String) :
    (Operation.write clockRegister .assign (clockSelection source divider) note).clockStep? = some (.select source) := by
  have hapart : clockRegister ≠ pllControl := by decide
  rw [clockStep?, clockWrite?, if_neg hapart, if_pos rfl, selectedSource?_clockSelection h]
  rfl

theorem clockSteps_ready (note : Option String) :
    clockSteps taken [.waitUntil pllNotReady note] = .ofList [.ready] := by
  simp only [clockSteps, executionOfAll, execution, Execution.andThen_nil, Execution.filterMap_ofList, List.filterMap_cons,
    List.filterMap_nil, clockStep?_ready]

theorem clockSteps_select {source : ClockSource} (h : source ≠ .parameter) (divider : ClockDivider)
    (note : Option String) :
    clockSteps taken [.write clockRegister .assign (clockSelection source divider) note] = .ofList [.select source] := by
  simp only [clockSteps, executionOfAll, execution, Execution.andThen_nil, Execution.filterMap_ofList, List.filterMap_cons,
    List.filterMap_nil, clockStep?_select h]

theorem clockSteps_selectClock (note : Option String) (device : Device) :
    clockSteps taken (selectClock .ito (.fixed 1) note device) = .ofList pllSwitch ∧
      clockSteps taken (selectClock .pclk (.fixed 1) note device) = .ofList [.select .pclk] := by
  have hnote : Silent (note.map comment).toList := by
    cases note <;> exact avoids_of_all rfl
  have hito : ClockSource.ito ≠ .parameter := by decide
  have hpclk : ClockSource.pclk ≠ .parameter := by decide
  constructor
  · simp only [selectClock, ClockSource.readyWait, clockSteps_append, clockSteps_of_silent taken hnote, clockSteps_ready,
      clockSteps_select taken hito, Execution.nil_andThen]
    rfl
  · simp only [selectClock, ClockSource.readyWait, clockSteps_append, clockSteps_of_silent taken hnote, clockSteps_nil,
      clockSteps_select taken hpclk, Execution.nil_andThen]

theorem clockSteps_enablePll : clockSteps taken p.enablePll = .ofList p.enableSteps := by
  simp only [enablePll, enableSteps]
  split <;> rfl

theorem clockSteps_sdkCoreClock (hl : p.device.family.isLegacy = false) :
    clockSteps taken p.sdkCoreClock = .ofList p.enableSteps := by
  have htrim : Silent p.trimOperations := avoids_of_subset p.touches_trimOperations rfl
  have hcache (note : Option String) : Silent [callProvided "MXC_ICC_Enable" ["MXC_ICC0"] note, .blank] := avoids_of_all rfl
  have hclock (text : String) : Silent [.comment text, callProvided "MXC_SYS_Clock_Select" ["MXC_SYS_CLOCK_IPO"]] :=
    avoids_of_all rfl
  have hupdate : Silent [callProvided "SystemCoreClockUpdate"] := avoids_of_all rfl
  simp only [sdkCoreClock, hl, Bool.false_eq_true, if_false, clockSteps_append, clockSteps_enablePll]
  simp [clockSteps_of_silent, htrim, hcache, hclock, hupdate]

theorem clockSteps_simulationOscillator :
    clockSteps taken p.simulationOscillator =
      .ofList (match p.device.powerController with | .gcfr => p.enableSteps | .bbfc => []) := by
  simp only [simulationOscillator]
  cases p.device.powerController with
  | bbfc => exact clockSteps_of_silent taken (avoids_of_all rfl)
  | gcfr =>
    have hstart (note : Option String) :
        Silent [writeNamed "MXC_GCR->clkctrl" .setBits "MXC_F_GCR_CLKCTRL_IPO_EN" note] := avoids_of_all rfl
    have hready (first second : Option String) :
        Silent [.waitUntil "(MXC_GCR->clkctrl & MXC_F_GCR_CLKCTRL_IPO_RDY) == 0" first,
          writeNamed "MXC_GCR->clkctrl" .setBits "MXC_S_GCR_CLKCTRL_SYSCLK_SEL_IPO" second] := avoids_of_all rfl
    simp only [clockSteps_append, clockSteps_enablePll, clockSteps_of_silent taken (hstart _),
      clockSteps_of_silent taken (hready _ _), Execution.nil_andThen, Execution.andThen_nil]

theorem clockSteps_simulationPowerUp :
    clockSteps taken p.simulationPowerUp =
      .ofList (match p.device.powerController with | .gcfr => [.select .pclk] | .bbfc => []) := by
  have hpower : Silent p.powerUp := silent_powerSequence _ _ _
  have hblank : Silent [.blank] := avoids_of_all rfl
  simp only [simulationPowerUp]
  cases p.device.powerController with
  | bbfc =>
    have hclock (first second : Option String) :
        Silent [writeNamed "MXC_GCR->pckdiv" .assign "0x00010000" first,
          writeNamed "MXC_GCR->perckcn" .keepBits "~0x2000000" second] := avoids_of_all rfl
    simp only [clockSteps_append, clockSteps_of_silent taken hblank, clockSteps_of_silent taken hpower,
      clockSteps_of_silent taken (hclock _ _), Execution.nil_andThen]
  | gcfr =>
    have hselect := (clockSteps_selectClock taken (some "CNN clock: APB div 1") p.device).2
    have henable (note : Option String) :
        Silent [writeNamed "MXC_GCR->pclkdis0" .keepBits "~MXC_F_GCR_PCLKDIS0_CNN" note] := avoids_of_all rfl
    simp only [clockSteps_append, clockSteps_of_silent taken hblank, clockSteps_of_silent taken hpower, hselect,
      clockSteps_of_silent taken (henable _), Execution.nil_andThen, Execution.andThen_nil]

theorem clockSteps_coreClock : clockSteps taken p.coreClock = .ofList p.coreClockSteps := by
  simp only [coreClock, coreClockSteps]
  cases hl : p.device.family.isLegacy with
  | true =>
    simp only [sdkCoreClock, simulationCoreClock, hl]
    split <;> exact clockSteps_of_silent taken (avoids_of_all rfl)
  | false =>
    cases hs : p.sdk with
    | true => exact p.clockSteps_sdkCoreClock taken hl
    | false =>
      have hcache : Silent [callProvided "icache_enable", .blank] := avoids_of_all rfl
      have htrim (first second third : Option String) :
          Silent [writeAt trimKey .assign "0x00000001" first, writeAt trimFast .assign "0x000001a0" second,
            writeAt trimKey .assign "0x00000000" third, .blank] := avoids_of_all rfl
      simp only [simulationCoreClock, hl, Bool.false_eq_true, if_false, clockSteps_append, clockSteps_simulationOscillator,
        clockSteps_of_silent taken hcache, clockSteps_of_silent taken (htrim _ _ _)]
      cases p.device.modernSim <;> cases hc : p.device.powerController <;>
        simp [clockSteps_simulationPowerUp, hc]

theorem clockSteps_leadOps (ho : p.owns = true) : clockSteps taken p.leadOps = .ofList p.leadClockSteps := by
  have hcore : clockSteps taken p.coreOperations = .ofList p.leadClockSteps := by
    simp only [coreOperations, leadClockSteps]
    cases ht : p.config.topology with
    | singleCore =>
      have hpause : Silent p.debuggerPause := avoids_of_subset p.touches_debuggerPause rfl
      have hblank : Silent [.blank] := avoids_of_all rfl
      simp [clockSteps_coreClock, clockSteps_of_silent, hpause, hblank]
    | armHost => simp [owns, ht, Topology.ownsAccelerator] at ho
    | companion => exact clockSteps_of_silent taken p.silent_companionBringUp
  simp [leadOps, hcore, clockSteps_of_silent, silent_locals, silent_camera]

/-! ## Bring-up -/

theorem clockSteps_passedClock :
    clockSteps taken p.passedClock = .ofList (p.guardSteps taken ++ [ClockStep.select p.requestedSource]) := by
  have hwait : clockSteps taken (if p.device.supportsPll then
      [.guarded p.sourceGuard (.waitUntil pllNotReady (some "Wait for PLL"))] else []) = .ofList (p.guardSteps taken) := by
    rw [guardSteps]
    cases p.device.supportsPll with
    | false => rfl
    | true =>
      cases ht : taken p.sourceGuard <;>
        simp [clockSteps, executionOfAll, execution, clockStep?_ready, ht]
  have hsource : p.requestedSource ≠ .parameter := by
    rw [requestedSource]
    split <;> decide
  rw [passedClock, clockSteps_append, hwait, clockSteps_select taken hsource]
  rfl

theorem clockSteps_openedEnable (hr : p.sdkRuntime = true) :
    clockSteps taken p.openedEnable = .ofList (p.bringUpClockSteps taken) := by
  have hpower : Silent p.powerUp := silent_powerSequence _ _ _
  have hblank : Silent [.blank] := avoids_of_all rfl
  have henable (note : Option String) :
      Silent [callProvided "MXC_SYS_ClockEnable" ["MXC_SYS_PERIPH_CLOCK_CNN"] note, .blank] := avoids_of_all rfl
  have hvector := p.silent_completionVector
  simp only [openedEnable, bringUpClockSteps, if_pos hr]
  cases hs : p.config.isSplit with
  | true =>
    have hcomments : Silent (p.enableCall.take 2) := avoids_of_all rfl
    simp only [if_true, clockSteps_append, clockSteps_passedClock, clockSteps_of_silent taken hcomments,
      clockSteps_of_silent taken hpower, clockSteps_of_silent taken hblank, clockSteps_of_silent taken (henable _),
      clockSteps_of_silent taken hvector, Execution.nil_andThen, Execution.andThen_nil]
  | false =>
    have hclock : clockSteps taken p.enableClock = .ofList (if p.config.pll then pllSwitch else [.select .pclk]) := by
      simp only [enableClock, hs, Bool.false_eq_true, if_false]
      split
      · exact (clockSteps_selectClock taken _ _).1
      · exact (clockSteps_selectClock taken _ _).2
    simp only [Bool.false_eq_true, if_false, enableBody, clockSteps_append, hclock, clockSteps_of_silent taken hpower,
      clockSteps_of_silent taken hblank, clockSteps_of_silent taken (henable _), clockSteps_of_silent taken hvector,
      Execution.nil_andThen, Execution.andThen_nil]

theorem clockSteps_openedBringUp : clockSteps taken p.openedBringUp = .ofList (p.bringUpClockSteps taken) := by
  cases hr : p.sdkRuntime with
  | false => simp [openedBringUp, bringUpClockSteps, hr]
  | true =>
    have hbase : Silent (if p.config.measureEnergy then p.shutdown ++ p.measureBasePower.tail else []) := by
      split
      · exact avoids_append.2 ⟨p.silent_shutdown, p.silent_baseMeasurement⟩
      · exact avoids_of_all rfl
    have hblank : Silent [.blank] := avoids_of_all rfl
    simp [openedBringUp, hr, p.clockSteps_openedEnable taken hr, clockSteps_of_silent, hbase, hblank,
      silent_openedBoostOn]

/-! ## Runs -/

theorem clockSteps_loadKernels : clockSteps taken p.loadKernels = .ofList p.kernelClockSteps := by
  simp only [loadKernels, kernelClockSteps]
  cases p.config.measureEnergy with
  | false =>
    simp only [Bool.false_eq_true, if_false]
    split <;> exact clockSteps_of_silent taken (avoids_of_all rfl)
  | true =>
    have hswitch : clockSteps taken p.switchToPll = .ofList (if p.config.pll then pllSwitch else []) := by
      simp only [switchToPll]
      split
      · exact (clockSteps_selectClock taken _ _).1
      · rfl
    obtain ⟨loops, hloops, hsilent⟩ : ∃ loops, p.measureLoading = p.switchToPll ++ loops ∧ Silent loops :=
      ⟨_, rfl, avoids_of_all rfl⟩
    simpa [hloops, clockSteps_of_silent taken hsilent] using hswitch

theorem clockSteps_configure :
    clockSteps taken (gather (pushed .main) p.configure) = .ofList p.kernelClockSteps := by
  have hhead : Silent
      (if p.embedded then [.statement "printf(\"\\n*** CNN Inference Test ***\\n\");", .blank] else []) := by
    split <;> exact avoids_of_all rfl
  have hinit (note : Option String) : Silent [callProvided "cnn_init" [] note] := avoids_of_all rfl
  have hverify : Silent (gather (pushed .main)
      (if p.config.verifyKernels then p.fatalCheck (.provided "cnn_verify_weights") else [])) := by
    split <;> exact avoids_of_all rfl
  have hbias : Silent (gather (pushed .main) [.push .main [p.loadBias]]) := by
    simp only [loadBias]
    (repeat' split) <;> exact avoids_of_all rfl
  have hcheck : Silent (gather (pushed .main) (p.fatalCheck (.provided "cnn_configure"))) := avoids_of_all rfl
  simp only [configure, gather_append, gather_push, gather_advance, gather_nil, pushed, if_true, List.append_nil] at hbias ⊢
  simp only [clockSteps_append, clockSteps_of_silent taken hhead, clockSteps_of_silent taken (hinit _),
    clockSteps_of_silent taken hverify, clockSteps_of_silent taken hbias, clockSteps_of_silent taken hcheck,
    clockSteps_loadKernels, Execution.nil_andThen, Execution.andThen_nil]

theorem avoids_runs :
    Avoids clockKinds (gather (pushed .main) p.firstRun ++ gather (pushed .main) p.furtherRuns) := by
  refine avoids_append.2 ⟨?_, ?_⟩
  · simp only [firstRun, stopAndContinue, measureRuns, loadAndStart]
    (repeat' split) <;> exact avoids_of_all rfl
  · simp only [furtherRuns]
    split <;> exact avoids_of_all rfl

theorem clockSteps_runs :
    clockSteps taken (gather (pushed .main) p.firstRun ++ gather (pushed .main) p.furtherRuns) =
      .ofList p.runClockSteps := by
  rw [clockSteps_of_avoids taken p.avoids_runs, acceleratorSteps_append, steps_firstRun, steps_furtherRuns]
  rfl

theorem clockSteps_leavePll : clockSteps taken p.leavePll = .ofList p.leaveClockSteps := by
  simp only [leavePll, leaveClockSteps]
  split
  · rw [clockSteps_append, (clockSteps_selectClock taken _ _).2]
    rfl
  · rfl

theorem clockSteps_openedEnding :
    clockSteps taken p.openedEnding = ⟨[], if p.config.forever then some [.start, .wait] else none⟩ := by
  have hprint : Silent (if p.printsClasses then p.classPrintout else []) := by
    split <;> exact avoids_of_all rfl
  have hblank : Silent [.blank] := avoids_of_all rfl
  cases hf : p.config.forever with
  | true =>
    have hloop : p.openedEnding = p.endlessLoop := by
      cases hs : p.config.isSplit <;> simp [openedEnding, ending, hf, hs, disableFunction, pushed]
    have hfree : Avoids clockKinds p.endlessLoop := by
      simp only [endlessLoop]
      split <;> exact avoids_of_all rfl
    rw [hloop, clockSteps_of_avoids taken hfree, steps_endlessLoop]
    rfl
  | false =>
    have hsilent : Silent p.openedEnding := by
      have hdown := p.silent_shutdown
      have hrest : Silent ([Operation.blank] ++ if p.printsClasses then p.classPrintout else []) :=
        avoids_append.2 ⟨hblank, hprint⟩
      cases hs : p.config.isSplit with
      | true =>
        have hending : p.openedEnding =
            p.shutdown ++ ([Operation.blank] ++ if p.printsClasses then p.classPrintout else []) := by
          simp [openedEnding, hf, hs]
        rw [hending]
        exact avoids_append.2 ⟨hdown, hrest⟩
      | false =>
        have hending : p.openedEnding = p.shutdown ++ if p.printsClasses then p.classPrintout else [] := by
          simp only [openedEnding, ending, acceleratorShutdown, hf, hs]
          cases p.printsClasses <;> simp [pushed]
        rw [hending]
        exact avoids_append.2 ⟨hdown, hprint⟩
    exact clockSteps_of_silent taken hsilent

/-- What comes after the bring-up. -/
theorem clockSteps_fromRuns :
    clockSteps taken (p.runOps ++ p.openedBoostOff ++ gather (pushed .main) p.retrieve ++ p.openedEnding ++ p.epilogue) =
      ⟨p.kernelClockSteps ++ p.runClockSteps ++ p.leaveClockSteps,
        if p.config.forever then some [.start, .wait] else none⟩ := by
  have hruns : clockSteps taken p.runOps = .ofList (p.kernelClockSteps ++ p.runClockSteps ++ p.leaveClockSteps) := by
    rw [runOps, List.append_assoc (gather (pushed .main) p.configure), clockSteps_append, clockSteps_append,
      clockSteps_configure, clockSteps_runs, clockSteps_leavePll]
    rfl
  simp only [clockSteps_append, hruns, clockSteps_of_silent taken p.silent_openedBoostOff,
    clockSteps_of_silent taken p.silent_retrieve, clockSteps_openedEnding, clockSteps_of_silent taken p.silent_epilogue,
    Execution.andThen_nil]
  simp [Execution.andThen, Execution.ofList]

theorem openedMain_eq :
    p.openedMain = p.leadOps ++ p.openedBringUp ++
      (p.runOps ++ p.openedBoostOff ++ gather (pushed .main) p.retrieve ++ p.openedEnding ++ p.epilogue) := by
  simp only [openedMain, List.append_assoc]

/-- The steps of the clock in `main`, phase by phase. -/
theorem clockSteps_openedMain (ho : p.owns = true) : clockSteps taken p.openedMain = p.mainClockSteps taken := by
  rw [openedMain_eq, clockSteps_append, clockSteps_append, clockSteps_leadOps p taken ho, clockSteps_openedBringUp,
    clockSteps_fromRuns]
  simp [mainClockSteps, Execution.andThen, Execution.ofList]

end

/-- With the functions inlined, the steps of the clock in `main` are those of the plan. -/
theorem Coherent.clock_main {p : Plan} (h : p.Coherent) (ho : p.owns = true) (taken : String → Bool) :
    (inlined taken p.functions (EmittedFunction.bodyOf "main" p.functions)).filterMap clockStep? =
      p.mainClockSteps taken := by
  rw [h.inlined_main taken ho]
  exact p.clockSteps_openedMain taken ho

end Plan

end AccelFirmware
