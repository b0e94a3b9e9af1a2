import AccelFirmware.Proofs.PowerBalance

/-!
# `main` on the host

A host leaves the accelerator to its companion. Its `main` brings up the cores: with the power of the accelerator in older
simulations, and with a handler for the signal of the companion where there are interrupts.
-/

namespace AccelFirmware

/-! ## Steps towards the companion -/

inductive WakeStep where
  | semaphoreClock
  | handler
  | companionClock
  deriving DecidableEq, Repr

namespace Operation

/-- The clocks of the semaphores and of the companion, and the handler for the signal of the companion. -/
def wakeStep? : Operation → Option WakeStep
  | .call callee args _ =>
      if callee.name = "MXC_SYS_ClockEnable" then
        if args = ["MXC_SYS_PERIPH_CLOCK_SMPHR"] then some .semaphoreClock
        else if args = ["MXC_SYS_PERIPH_CLOCK_CPU1"] then some .companionClock
        else none
      else none
  | .installVector _ handler _ => if handler = "WakeISR" then some .handler else none
  | .write register mode value _ =>
      if register = .named "MXC_GCR->perckcn1" ∧ mode = .keepBits ∧ value = "~MXC_F_GCR_PERCKCN1_CPU1" then
        some .companionClock
      else none
  | _ => none

def wakeKinds : List Touch :=
  [.endlessLoop, .function "MXC_SYS_ClockEnable", .handler "WakeISR", .register (.named "MXC_GCR->perckcn1")]

/-- All by which a host deals with its companion. -/
def companionKinds : List Touch :=
  wakeKinds ++
    [.completion, .function "MXC_Delay", .register (.named "MXC_FCR->urvbootaddr"), .register (.named "MXC_NBBFC->reg4"),
     .register (.named "MXC_FCR->urvctrl"), .register (.address Plan.memoryControl)]

variable (taken : String → Bool)

def wakeSteps (ops : List Operation) : Execution WakeStep := (executionOfAll taken ops).filterMap wakeStep?

@[simp] theorem wakeSteps_append (as bs : List Operation) :
    wakeSteps taken (as ++ bs) = (wakeSteps taken as).andThen (wakeSteps taken bs) := by
  simp [wakeSteps, executionOfAll_append]

theorem wakeStep?_eq_none {op : Operation} (h : ∀ t ∈ op.touches, t ∉ wakeKinds) : op.wakeStep? = none := by
  cases op with
  | call callee args note =>
    have hname : callee.name ≠ "MXC_SYS_ClockEnable" := fun he =>
      h (.function callee.name) (by simp [touches]) (by simp [wakeKinds, he])
    simp [wakeStep?, hname]
  | installVector irq handler note =>
    have hname : handler ≠ "WakeISR" := fun he => h (.handler handler) (by simp [touches]) (by simp [wakeKinds, he])
    simp [wakeStep?, hname]
  | write register mode value note =>
    have hname : register ≠ .named "MXC_GCR->perckcn1" := fun he =>
      h (.register register) (by simp [touches]) (by simp [wakeKinds, he])
    simp [wakeStep?, hname]
  | _ => rfl

theorem wakeSteps_of_avoids {ops : List Operation} (h : Avoids wakeKinds ops) : wakeSteps taken ops = .ofList [] :=
  h.filterMap (by decide) (fun _ => wakeStep?_eq_none) taken

end Operation

namespace Plan

variable {p : Plan}

open Operation AccelFirmware.Action EmitStep

/-! ## The body of `main` -/

theorem inside_of_host (ho : p.owns = false) : gather (pushed .main) p.inside = p.leadOps ++ p.epilogue := by
  simp [inside, acceleratorPhases, ho, leadOps, pushed]

theorem Coherent.inlined_host (h : p.Coherent) (ho : p.owns = false) (taken : String → Bool) :
    inlined taken p.functions (EmittedFunction.bodyOf "main" p.functions) =
      executionOfAll taken (p.leadOps ++ p.epilogue) := by
  rw [h.main_body, inside_of_host ho]
  exact inlined_of_references taken _ (independent_append.2 ⟨p.independent_leadOps, p.independent_epilogue⟩)

/-! ## Wake steps -/

/-- A part with a companion core is a current one. -/
theorem Coherent.current (h : p.Coherent) (hd : p.config.topology.isDualCore = true) : p.device.family.isLegacy = false := by
  have hfound : (DeviceIssue.legacyCompanion, p.device.family = .ai84 && p.device.companion.isSome) ∈
      p.device.findings := by simp [Device.findings]
  have hfine := Device.finding_eq_false h.sound hfound rfl
  rw [h.companion hd, Bool.and_true, decide_eq_false_iff_not] at hfine
  cases hf : p.device.family with
  | ai84 => exact absurd hf hfine
  | ai85 | ai87 => rfl

variable (p)

theorem avoids_enablePll : Avoids companionKinds p.enablePll := by
  simp only [enablePll]
  split <;> exact avoids_of_all rfl

theorem avoids_sdkCoreClock (hl : p.device.family.isLegacy = false) : Avoids companionKinds p.sdkCoreClock := by
  have htrim : Avoids companionKinds p.trimOperations := avoids_of_subset p.touches_trimOperations rfl
  simp only [sdkCoreClock, hl, Bool.false_eq_true, if_false, avoids_append, htrim, avoids_enablePll, and_true]
  exact ⟨⟨avoids_of_all rfl, avoids_of_all rfl⟩, avoids_of_all rfl⟩

theorem avoids_simulationOscillator : Avoids companionKinds p.simulationOscillator := by
  simp only [simulationOscillator]
  cases p.device.powerController with
  | bbfc => exact avoids_of_all rfl
  | gcfr => exact avoids_append.2 ⟨avoids_append.2 ⟨avoids_of_all rfl, p.avoids_enablePll⟩, avoids_of_all rfl⟩

theorem avoids_simulationPowerUp : Avoids companionKinds p.simulationPowerUp := by
  simp only [simulationPowerUp, powerUp, selectClock, ClockSource.readyWait]
  cases p.device.powerController <;> exact avoids_of_all rfl

theorem avoids_simulationCoreClock (hl : p.device.family.isLegacy = false) : Avoids companionKinds p.simulationCoreClock := by
  simp only [simulationCoreClock, hl, Bool.false_eq_true, if_false, avoids_append, avoids_simulationOscillator, and_true]
  refine ⟨avoids_of_all rfl, avoids_of_all rfl, ?_⟩
  split
  · exact avoids_of_all rfl
  · exact p.avoids_simulationPowerUp

theorem avoids_coreClock (hl : p.device.family.isLegacy = false) : Avoids companionKinds p.coreClock := by
  simp only [coreClock]
  split
  · exact p.avoids_sdkCoreClock hl
  · exact p.avoids_simulationCoreClock hl

/-- The handler is installed once the semaphores have their clock, and ahead of the clock of the companion. -/
def wakeSequence : List WakeStep :=
  if p.hostsWakeHandler then [.semaphoreClock, .handler, .companionClock] else [.companionClock]

variable {p} (taken : String → Bool)

theorem wakeSteps_bootCompanion (m : CompanionMemory) : wakeSteps taken (p.bootCompanion m) = .ofList p.wakeSequence := by
  have haddress : Avoids wakeKinds (p.bootAddress m) := by
    simp only [bootAddress]
    (repeat' split) <;> exact avoids_of_all rfl
  have hmemory : Avoids wakeKinds p.exclusiveMemory := by
    simp only [exclusiveMemory]
    (repeat' split) <;> exact avoids_of_all rfl
  -- Whatever the address and the memory of the companion are, its release comes last.
  have hrelease : wakeSteps taken p.releaseCompanion = .ofList p.wakeSequence := by
    have hpause : Avoids wakeKinds (if p.sdk && p.config.debugWait > 0 then
        [Operation.blank] ++ debuggerDelay p.config.debugWait ++ [Operation.blank] else []) := by
      split <;> exact avoids_of_all rfl
    simp only [releaseCompanion, wakeSequence]
    split
    · rw [wakeSteps_append, wakeSteps_append, wakeSteps_of_avoids taken hpause, Execution.andThen_nil]
      rfl
    · rfl
  simp only [bootCompanion, wakeSteps_append, wakeSteps_of_avoids taken haddress, wakeSteps_of_avoids taken hmemory, hrelease,
    Execution.nil_andThen]

/-- The steps towards the companion in the `main` of a host. -/
theorem Coherent.wake_host (h : p.Coherent) (ht : p.config.topology = .armHost) :
    (inlined taken p.functions (EmittedFunction.bodyOf "main" p.functions)).filterMap wakeStep? = .ofList p.wakeSequence := by
  have ho : p.owns = false := by simp [owns, ht, Topology.ownsAccelerator]
  have hd : p.config.topology.isDualCore = true := by simp [ht, Topology.isDualCore]
  have hclock : Avoids wakeKinds p.coreClock := (p.avoids_coreClock (h.current hd)).mono (List.subset_append_left _ _)
  have hcamera : Avoids wakeKinds p.camera := avoids_of_subset p.touches_camera rfl
  have hblank : Avoids wakeKinds [.blank] := avoids_of_all rfl
  have hepilogue : Avoids wakeKinds p.epilogue := by
    simp only [epilogue, handoff, deepSleep, ht]
    (repeat' split) <;> exact avoids_of_all rfl
  obtain ⟨m, hm⟩ := Option.isSome_iff_exists.1 (h.companion hd)
  rw [h.inlined_host ho, ← wakeSteps]
  simp only [leadOps, p.coreOperations_host ht hm, wakeSteps_append, wakeSteps_of_avoids taken (p.avoids_locals _), wakeSteps_of_avoids taken hcamera,
    wakeSteps_of_avoids taken hblank, wakeSteps_of_avoids taken hepilogue,
    wakeSteps_of_avoids taken hclock, wakeSteps_bootCompanion taken m,
    Execution.nil_andThen, Execution.andThen_nil]

/-! ## Power -/

theorem Coherent.power_host (h : p.Coherent) (ht : p.config.topology = .armHost) :
    (inlined taken p.functions (EmittedFunction.bodyOf "main" p.functions)).filterMap powerStep? =
      .ofList p.corePowerSteps := by
  have ho : p.owns = false := by simp [owns, ht, Topology.ownsAccelerator]
  have hlead : p.leadPowerSteps = p.corePowerSteps := by rw [leadPowerSteps, ht]
  rw [h.inlined_host ho, ← powerSteps, powerSteps_append, powerSteps_leadOps, powerSteps_of_idle taken p.idle_epilogue,
    Execution.andThen_nil, hlead]

end Plan

end AccelFirmware
