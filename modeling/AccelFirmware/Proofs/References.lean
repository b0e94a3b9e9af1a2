import AccelFirmware.Program.Sequence

/-!
# References of the phases

Which functions of the program the operations of every phase refer to. Most phases refer to none.
-/

namespace AccelFirmware

namespace Operation

@[simp] theorem referencesOfAll_append (as bs : List Operation) :
    referencesOfAll (as ++ bs) = referencesOfAll as ++ referencesOfAll bs := by
  simp [referencesOfAll_eq_flatMap]

@[simp] theorem references_callProvided (name : String) (args : List String) (note : Option String) :
    (callProvided name args note).references = [] := rfl

@[simp] theorem references_callEmitted (name : String) (args : List String) (note : Option String) :
    (callEmitted name args note).references = [name] := rfl

@[simp] theorem references_writeNamed (register : String) (mode : WriteMode) (value : String) (note : Option String) :
    (writeNamed register mode value note).references = [] := rfl

@[simp] theorem references_writeAt (address : UInt32) (mode : WriteMode) (value : String) (note : Option String) :
    (writeAt address mode value note).references = [] := rfl

end Operation

open Operation

/-! ## Pieces shared by phases -/

@[simp] theorem references_powerSequence (c : PowerController) (direction : PowerDirection) (m : GroupMask) :
    referencesOfAll (powerSequence c direction m) = [] := by
  simp [powerSequence, powerWrites, referencesOfAll, references]

theorem references_readyWait (device : Device) (source : ClockSource) :
    referencesOfAll (source.readyWait device) = [] := by
  cases source with
  | pclk => rfl
  | ito => rfl
  | parameter =>
    simp only [ClockSource.readyWait]
    split <;> rfl

@[simp] theorem references_selectClock (source : ClockSource) (divider : ClockDivider) (note : Option String)
    (device : Device) : referencesOfAll (selectClock source divider note device) = [] := by
  cases note <;> simp [selectClock, referencesOfAll, references, references_readyWait]

@[simp] theorem references_drivePin (port mask : String) (level : Level) :
    referencesOfAll (drivePin port mask level) = [] := rfl

@[simp] theorem references_unloadCall (w : OutputWidth) : (unloadCall w).references = [] := rfl

namespace Plan

variable (p : Plan)

/-! ## Cores and camera -/

theorem references_trimOperations : referencesOfAll p.trimOperations = [] := by
  simp only [trimOperations]
  split
  · cases p.config.clockTrim with
    | none => rfl
    | some t =>
      simp only [Option.map_some, Option.getD_some, ClockTrim.operations, ClockTrim.sharedWrites,
        ClockTrim.fastWrites]
      cases t.hirc8m <;> cases t.hirc <;> cases t.hirc96m <;> rfl
  · rfl

theorem references_coreClock : referencesOfAll p.coreClock = [] := by
  simp only [coreClock, sdkCoreClock, simulationCoreClock, simulationOscillator, simulationPowerUp, enablePll, powerUp]
  cases p.device.powerController <;> (repeat' split) <;>
    simp_all [referencesOfAll, references, references_trimOperations]

theorem references_bootCompanion (m : CompanionMemory) :
    referencesOfAll (p.bootCompanion m) = if p.hostsWakeHandler then ["WakeISR"] else [] := by
  have haddress : referencesOfAll (p.bootAddress m) = [] := by
    simp only [bootAddress]
    (repeat' split) <;> rfl
  have hmemory : referencesOfAll p.exclusiveMemory = [] := by
    simp only [exclusiveMemory]
    (repeat' split) <;> rfl
  simp only [bootCompanion, releaseCompanion, referencesOfAll_append, haddress, hmemory]
  (repeat' split) <;> simp_all [referencesOfAll, references, debuggerDelay]

/-- What the bring-up of the core adds to `main`. A host whose companion is missing gets no further than its own clock. -/
def coreOperations : List Operation :=
  match p.config.topology with
  | .singleCore => p.coreClock ++ p.debuggerPause ++ [.blank]
  | .armHost =>
      match p.device.companion with
      | none => p.coreClock
      | some m => p.coreClock ++ p.bootCompanion m ++ [.blank]
  | .companion => p.companionBringUp

theorem coreOperations_host {m : CompanionMemory} (ht : p.config.topology = .armHost) (hm : p.device.companion = some m) :
    p.coreOperations = p.coreClock ++ p.bootCompanion m ++ [.blank] := by
  simp only [coreOperations, ht, hm]

/-- What holds of the parts of a bring-up, and is kept where operations are put together, holds of the whole. -/
theorem coreOperations_of_parts {P : List Operation → Prop} (happend : ∀ as bs, P as → P bs → P (as ++ bs))
    (hblank : P [.blank]) (hclock : P p.coreClock) (hpause : P p.debuggerPause) (hboot : ∀ m, P (p.bootCompanion m))
    (hcompanion : P p.companionBringUp) : P p.coreOperations := by
  simp only [coreOperations]
  cases p.config.topology with
  | singleCore => exact happend _ _ (happend _ _ hclock hpause) hblank
  | armHost =>
    cases p.device.companion with
    | none => exact hclock
    | some m => exact happend _ _ (happend _ _ hclock (hboot m)) hblank
  | companion => exact hcompanion

theorem references_coreOperations :
    referencesOfAll p.coreOperations =
      if p.hostsWakeHandler && p.device.companion.isSome then ["WakeISR"] else [] := by
  simp only [coreOperations]
  cases ht : p.config.topology with
  | singleCore =>
    simp only [debuggerPause, debuggerDelay, referencesOfAll_append, references_coreClock, hostsWakeHandler, ht]
    split <;> simp [referencesOfAll, references]
  | armHost =>
    cases p.device.companion with
    | none => simp [references_coreClock]
    | some m => simp [references_coreClock, references_bootCompanion, referencesOfAll, references]
  | companion =>
    simp only [companionBringUp, hostsWakeHandler, ht]
    (repeat' split) <;> simp_all [referencesOfAll, references]

theorem references_camera : referencesOfAll p.camera = [] := by
  simp only [camera]
  split <;> rfl

theorem references_handoff :
    referencesOfAll p.handoff =
      if p.config.topology = .armHost ∧ p.config.sleep ∧ ¬ p.embedded then ["_MXC_LP_ClearWakeStatus"] else [] := by
  simp only [handoff, deepSleep]
  cases p.config.topology <;> (repeat' split) <;> simp_all [referencesOfAll, references]

theorem references_epilogue :
    referencesOfAll p.epilogue =
      if p.config.topology = .armHost ∧ p.config.sleep ∧ ¬ p.embedded then ["_MXC_LP_ClearWakeStatus"] else [] := by
  have hpass : referencesOfAll (if p.sdk then [] else [.blank, callProvided "pass"]) = [] := by
    split <;> rfl
  simp [epilogue, references_handoff, hpass]

/-! ## Heads -/

theorem references_includes (part : Part) : referencesOfAll (p.includes part) = [] := by
  have hplatform : referencesOfAll (p.platformHeaders part) = [] := by
    simp only [platformHeaders, simulationHeaders]
    (repeat' split) <;> rfl
  have hprogram : referencesOfAll (p.programHeaders part) = [] := by
    simp only [programHeaders]
    (repeat' split) <;> rfl
  simp only [includes, systemHeaders, constants, referencesOfAll_append, hplatform, hprogram]
  (repeat' split) <;> rfl

theorem references_localVariables : referencesOfAll p.localVariables = [] := by
  simp only [localVariables, printoutLocals]
  (repeat' split) <;> rfl

theorem references_failBody : referencesOfAll p.failBody = [] := by
  simp only [failBody]
  split <;> rfl

theorem references_handlerBody : referencesOfAll p.handlerBody = [] := by
  have hgroups : referencesOfAll
      (p.config.groups.members.map fun g => writeAt (p.device.ctlAddress g) .keepBits p.acknowledgement) = [] := by
    simp [referencesOfAll_eq_flatMap]
  simp only [handlerBody, referencesOfAll, referencesOfAll_append, hgroups]
  (repeat' split) <;> rfl

/-! ## Accelerator -/

theorem references_measureBasePower : referencesOfAll p.measureBasePower = ["cnn_disable"] := by
  simp only [measureBasePower]
  split <;> rfl

theorem references_enableCall : referencesOfAll p.enableCall = ["cnn_enable"] := rfl

theorem references_enableBody :
    referencesOfAll p.enableBody = if p.config.topology = .companion then [] else ["CNN_ISR"] := by
  have hclock : referencesOfAll p.enableClock = [] := by
    simp only [enableClock]
    (repeat' split) <;> simp
  simp only [enableBody, powerUp, completionVector, referencesOfAll_append, hclock, references_powerSequence]
  cases p.config.topology <;> simp [referencesOfAll, references]

theorem references_shutdown : referencesOfAll p.shutdown = [] := by
  simp only [shutdown]
  split <;> simp [referencesOfAll, references]

/-! ## Runs -/

theorem references_completionWait :
    (Operation.await p.completionWait).references = if p.waitStrategy = .poll then ["cnn_wait"] else [] := by
  simp only [completionWait]
  cases p.waitStrategy <;> cases p.config.waitMode <;> rfl

theorem references_loadAndStart (note : String) : referencesOfAll (p.loadAndStart note) = [] := by
  simp only [loadAndStart]
  split <;> rfl

theorem references_loadKernels : referencesOfAll p.loadKernels = [] := by
  simp only [loadKernels, measureLoading, switchToPll]
  (repeat' split) <;> simp [referencesOfAll, references, loadWeights]

theorem references_loadBias : p.loadBias.references = [] := by
  simp only [loadBias]
  (repeat' split) <;> rfl

theorem references_stopAndContinue :
    referencesOfAll p.stopAndContinue = if p.config.stopStart then ["cnn_stop", "cnn_continue"] else [] := by
  simp only [stopAndContinue]
  split <;> rfl

theorem references_measureRuns :
    referencesOfAll p.measureRuns = if p.waitStrategy = .poll then ["cnn_wait"] else [] := by
  simp [measureRuns, referencesOfAll, references_loadAndStart, references_completionWait, references]

theorem references_leavePll : referencesOfAll p.leavePll = [] := by
  simp only [leavePll]
  split <;> simp [referencesOfAll, references]

theorem references_retrieval :
    p.retrieval.references =
      match LayerKind.ofRetrieval? p.config.retrieval with
      | some kind => [kind.functionName]
      | none => [] := by
  simp only [retrieval]
  cases LayerKind.ofRetrieval? p.config.retrieval <;> rfl

theorem references_passReport : referencesOfAll p.passReport = [] := by
  simp only [passReport]
  (repeat' split) <;> rfl

theorem references_endlessLoop :
    referencesOfAll p.endlessLoop = if p.waitStrategy = .poll then ["cnn_wait"] else [] := by
  have hhead : referencesOfAll (if p.embedded then
      [.statement "printf(\"Starting endless loop...\\n\");", .blank, callProvided "LED_On" ["1"], .blank] else []) = [] := by
    split <;> rfl
  simp [endlessLoop, hhead, referencesOfAll, references, references_completionWait]

theorem references_classPrintout : referencesOfAll p.classPrintout = [] := rfl

end Plan

end AccelFirmware
