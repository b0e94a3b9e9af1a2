import AccelFirmware.Proofs.ClockSteps
import AccelFirmware.Proofs.Neighbours

/-!
# The protocol of the PLL

The PLL is enabled before anything waits for it, clocks the accelerator from the first start on, and is disabled once the bus
clock is back. Programs keep to this except where the core clock has no branch that enables the PLL, or where the accelerator
is clocked before its bring-up.
-/

namespace AccelFirmware

/-! ## The protocol -/

structure PllProtocol (x : Execution ClockStep) : Prop where
  /-- The PLL is enabled, and nothing waits for it before. -/
  enabled : ∃ before after, x.once = before ++ ClockStep.enable :: after ∧ .ready ∉ before
  /-- The selection next to the first start is that of the PLL. -/
  selected : ∃ before between after, x.once = before ++ ClockStep.select .ito :: (between ++ ClockStep.start :: after) ∧
    .start ∉ before ++ between ∧ ∀ source, .select source ∉ between
  /-- After the last wait the bus clock is selected, and then the PLL disabled. -/
  released : ∃ runs idle between after,
    x.once = runs ++ ClockStep.wait :: (idle ++ ClockStep.select .pclk :: (between ++ ClockStep.disable :: after)) ∧
      .wait ∉ idle ++ between ++ after ∧ ∀ source, .select source ∉ between
  disabledOnce : x.once.count .disable = 1 ∧ ∀ steps, x.endless = some steps → .disable ∉ steps

namespace Plan

variable (p : Plan)

/-! ## Runs in between -/

theorem mem_runClockSteps {s : ClockStep} (h : s ∈ p.runClockSteps) : s = .start ∨ s = .wait := by
  obtain ⟨step, _, hs⟩ := List.mem_filterMap.1 h
  cases step with
  | check name => cases hs
  | wait => exact Or.inr (Option.some.inj hs).symm
  | call name =>
    simp only [AcceleratorStep.clockStep?] at hs
    split at hs
    · exact Or.inl (Option.some.inj hs).symm
    · cases hs

theorem runClockSteps_eq :
    p.runClockSteps =
      (if p.config.measureEnergy then (List.replicate energyLoops.toNat [ClockStep.start, .wait]).flatten
        else [ClockStep.start, .wait]) ++
        List.replicate p.config.oneshot.toNat ClockStep.wait := by
  have hstart : p.config.startSteps.filterMap AcceleratorStep.clockStep? = [.start] := by
    simp only [Configuration.startSteps]
    split <;> rfl
  have hstop : p.config.stopSteps.filterMap AcceleratorStep.clockStep? = [] := by
    simp only [Configuration.stopSteps]
    split <;> rfl
  have hfirst : p.config.firstRunSteps.filterMap AcceleratorStep.clockStep? =
      if p.config.measureEnergy then (List.replicate energyLoops.toNat [.start, .wait]).flatten else [.start, .wait] := by
    simp only [Configuration.firstRunSteps, Configuration.measured]
    split
    · simp [List.filterMap_flatten, hstop, hstart, AcceleratorStep.clockStep?]
    · simp [hstop, hstart, AcceleratorStep.clockStep?]
  have hfurther : p.config.furtherSteps.filterMap AcceleratorStep.clockStep? =
      List.replicate p.config.oneshot.toNat .wait := by
    simp [Configuration.furtherSteps, List.filterMap_flatten, AcceleratorStep.clockStep?]
  rw [runClockSteps, List.filterMap_append, hfirst, hfurther]

theorem rounds_eq (n : Nat) :
    ∃ between : List ClockStep,
      (List.replicate (n + 1) [ClockStep.start, .wait]).flatten = .start :: (between ++ [ClockStep.wait]) := by
  induction n with
  | zero => exact ⟨[], rfl⟩
  | succ n ih =>
    obtain ⟨between, hrounds⟩ := ih
    refine ⟨.wait :: .start :: between, ?_⟩
    rw [List.replicate_succ, List.flatten_cons, hrounds]
    rfl

/-- The runs begin with a start and end with a wait. -/
theorem runClockSteps_ends :
    (∃ rest, p.runClockSteps = .start :: rest) ∧ ∃ runs, p.runClockSteps = runs ++ [ClockStep.wait] := by
  obtain ⟨between, hfirst⟩ : ∃ between : List ClockStep, (if p.config.measureEnergy then
      (List.replicate energyLoops.toNat [ClockStep.start, .wait]).flatten else [.start, .wait]) =
      .start :: (between ++ [ClockStep.wait]) := by
    split
    · exact rounds_eq 99
    · exact ⟨[], rfl⟩
  rw [runClockSteps_eq, hfirst]
  refine ⟨⟨_, rfl⟩, ?_⟩
  cases p.config.oneshot.toNat with
  | zero => exact ⟨.start :: between, by simp⟩
  | succ n => exact ⟨.start :: (between ++ ClockStep.wait :: List.replicate n .wait), by simp [List.replicate_succ']⟩

/-! ## Where the protocol is kept -/

variable {p}

/-- The clock of the core enables the PLL at most, and never selects it. -/
theorem mem_leadClockSteps {s : ClockStep} (h : s ∈ p.leadClockSteps) : s = .enable ∨ s = .select .pclk := by
  have henable {s : ClockStep} (h : s ∈ p.enableSteps) : s = .enable := by
    simp only [enableSteps] at h
    split at h
    · exact List.mem_singleton.1 h
    · cases h
  have hcore {s : ClockStep} (h : s ∈ p.coreClockSteps) : s = .enable ∨ s = .select .pclk := by
    simp only [coreClockSteps] at h
    split at h
    · cases h
    · split at h
      · exact Or.inl (henable h)
      · split at h
        · rcases List.mem_append.1 h with h | h
          · exact Or.inl (henable h)
          · split at h
            · cases h
            · exact Or.inr (List.mem_singleton.1 h)
        · cases h
  simp only [leadClockSteps] at h
  split at h
  · exact hcore h
  · exact hcore h
  · cases h

theorem enable_mem_leadClockSteps (hs : p.config.topology = .singleCore) (h : .enable ∈ p.leadClockSteps) :
    p.device.family.isLegacy = false ∧ (p.config.isEmbedded = true ∨ p.device.powerController = .gcfr) := by
  have hsdk : p.sdk = p.config.isEmbedded := sdk_eq_embedded (by simp [owns, hs, Topology.ownsAccelerator])
  simp only [leadClockSteps, hs, coreClockSteps, hsdk] at h
  split at h
  · cases h
  · rename_i hl
    refine ⟨by simpa using hl, ?_⟩
    split at h
    · exact Or.inl ‹_›
    · cases hc : p.device.powerController with
      | gcfr => exact Or.inr rfl
      | bbfc => simp [hc] at h

theorem mem_guardSteps {taken : String → Bool} {s : ClockStep} (h : s ∈ p.guardSteps taken) : s = .ready := by
  rw [guardSteps] at h
  split at h
  · exact List.mem_singleton.1 h
  · cases h

/-- The bring-up and the measurement of loading wait for a source and select it, where there are interrupts. -/
theorem mem_bringUpClockSteps {taken : String → Bool} {s : ClockStep}
    (h : s ∈ p.bringUpClockSteps taken ++ p.kernelClockSteps) :
    p.sdkRuntime = true ∧ (s = .ready ∨ ∃ source, s = .select source) := by
  have hswitch {s : ClockStep} (h : s ∈ pllSwitch) : s = .ready ∨ ∃ source, s = .select source := by
    rcases List.mem_cons.1 h with rfl | h
    · exact Or.inl rfl
    · exact Or.inr ⟨.ito, List.mem_singleton.1 h⟩
  rcases List.mem_append.1 h with h | h
  · simp only [bringUpClockSteps] at h
    split at h
    · refine ⟨‹_›, ?_⟩
      split at h
      · rcases List.mem_append.1 h with h | h
        · exact Or.inl (mem_guardSteps h)
        · exact Or.inr ⟨_, List.mem_singleton.1 h⟩
      · split at h
        · exact hswitch h
        · exact Or.inr ⟨_, List.mem_singleton.1 h⟩
    · cases h
  · simp only [kernelClockSteps] at h
    split at h
    · rename_i he
      exact ⟨sdkRuntime_of_split (p.config.split_of_measureEnergy (Bool.and_eq_true_iff.1 he).1), hswitch h⟩
    · cases h

/-- A bring-up on the PLL ends with the switch to it, and so does what follows it up to the first run. -/
theorem bringUp_ends (hr : p.sdkRuntime = true) (hp : p.config.pll = true) (taken : String → Bool) :
    ∃ before, p.bringUpClockSteps taken ++ p.kernelClockSteps = before ++ [ClockStep.select .ito] ∧
      ∀ s ∈ before, s = .ready ∨ s = .select .ito := by
  obtain ⟨before, hbefore, hall⟩ : ∃ before, p.bringUpClockSteps taken = before ++ [ClockStep.select .ito] ∧
      ∀ s ∈ before, s = .ready ∨ s = .select .ito := by
    cases hs : p.config.isSplit with
    | false => exact ⟨[.ready], by simp [bringUpClockSteps, hr, hp, hs, pllSwitch], by simp⟩
    | true =>
      exact ⟨p.guardSteps taken, by simp [bringUpClockSteps, hr, hp, hs, requestedSource],
        fun s hs => Or.inl (mem_guardSteps hs)⟩
  simp only [kernelClockSteps, hp, Bool.and_true]
  split
  · refine ⟨before ++ [ClockStep.select .ito, .ready], by simp [hbefore, pllSwitch], fun s hs => ?_⟩
    rcases List.mem_append.1 hs with hs | hs
    · exact hall s hs
    · rcases List.mem_cons.1 hs with rfl | hs
      · exact Or.inr rfl
      · exact Or.inl (List.mem_singleton.1 hs)
  · exact ⟨before, by simp [hbefore], hall⟩

theorem leadClockSteps_eq (hs : p.config.topology = .singleCore) (hp : p.config.pll = true)
    (hl : p.device.family.isLegacy = false)
    (hc : p.config.isEmbedded = true ∨ p.device.modernSim = true ∧ p.device.powerController = .gcfr) :
    p.leadClockSteps = [.enable] := by
  have hsdk : p.sdk = p.config.isEmbedded := sdk_eq_embedded (by simp [owns, hs, Topology.ownsAccelerator])
  have henable : p.enableSteps = [.enable] := by simp [enableSteps, hp]
  simp only [leadClockSteps, hs, coreClockSteps, hl, hsdk, Bool.false_eq_true, if_false]
  rcases hc with he | ⟨hm, hg⟩
  · rw [if_pos he, henable]
  · cases he : p.config.isEmbedded with
    | true => exact henable
    | false => simp [hg, hm, henable]

/-- The steps of a program that enables the PLL or switches to it. -/
theorem mem_mainClockSteps (hp : p.config.pll = true) (taken : String → Bool) :
    (.enable ∈ (p.mainClockSteps taken).once → .enable ∈ p.leadClockSteps) ∧
      (.select .ito ∈ (p.mainClockSteps taken).once → p.sdkRuntime = true) := by
  have hsplit (s : ClockStep) (h : s ∈ (p.mainClockSteps taken).once) :
      s ∈ p.leadClockSteps ∨ s ∈ p.bringUpClockSteps taken ++ p.kernelClockSteps ∨ s ∈ p.runClockSteps ∨
        s = .select .pclk ∨ s = .disable := by
    simp only [mainClockSteps, leaveClockSteps, if_pos hp, List.mem_append, List.mem_cons, List.not_mem_nil, or_false] at h ⊢
    tauto
  constructor
  · intro h
    rcases hsplit _ h with h | h | h | h | h
    · exact h
    · rcases (mem_bringUpClockSteps h).2 with h | ⟨_, h⟩ <;> cases h
    · rcases p.mem_runClockSteps h with h | h <;> cases h
    · cases h
    · cases h
  · intro h
    rcases hsplit _ h with h | h | h | h | h
    · rcases mem_leadClockSteps h with h | h <;> cases h
    · exact (mem_bringUpClockSteps h).1
    · rcases p.mem_runClockSteps h with h | h <;> cases h
    · cases h
    · cases h

/-- The protocol needs a core clock that enables the PLL, and a bring-up that selects it. -/
theorem pllProtocol_iff (hs : p.config.topology = .singleCore) (hp : p.config.pll = true) (taken : String → Bool) :
    PllProtocol (p.mainClockSteps taken) ↔
      p.device.family.isLegacy = false ∧
        (p.config.isEmbedded = true ∨ p.device.modernSim = true ∧ p.device.powerController = .gcfr) := by
  constructor
  · rintro ⟨⟨before, after, henable, _⟩, ⟨before', between, after', hselect, _⟩, _, _⟩
    obtain ⟨hlead, hruntime⟩ := mem_mainClockSteps hp taken
    obtain ⟨hl, he | hg⟩ := enable_mem_leadClockSteps hs (hlead (by simp [henable]))
    · exact ⟨hl, Or.inl he⟩
    · have hr := hruntime (by simp [hselect])
      simp only [sdkRuntime, Bool.or_eq_true] at hr
      rcases hr with he | hm
      · exact ⟨hl, Or.inl he⟩
      · exact ⟨hl, Or.inr ⟨hm, hg⟩⟩
  · rintro ⟨hl, hc⟩
    have hr : p.sdkRuntime = true := by
      rcases hc with he | ⟨hm, _⟩
      · simp [sdkRuntime, embedded, he]
      · simp [sdkRuntime, hm]
    obtain ⟨before, hbefore, hall⟩ := bringUp_ends hr hp taken
    obtain ⟨⟨rest, hrest⟩, ⟨runs, hruns⟩⟩ := p.runClockSteps_ends
    have honce : (p.mainClockSteps taken).once =
        ClockStep.enable :: (before ++ [ClockStep.select .ito]) ++
          (p.runClockSteps ++ [ClockStep.select .pclk, .disable]) := by
      simp [mainClockSteps, leaveClockSteps, hp, leadClockSteps_eq hs hp hl hc, ← hbefore]
    have hcount : p.runClockSteps.count .disable = 0 ∧ before.count .disable = 0 := by
      constructor <;> refine List.count_eq_zero.2 fun hm => ?_
      · rcases p.mem_runClockSteps hm with h | h <;> cases h
      · rcases hall _ hm with h | h <;> cases h
    refine ⟨⟨[], _, by rw [honce]; rfl, by simp⟩,
      ⟨.enable :: before, [], rest ++ [ClockStep.select .pclk, .disable], ?_, ?_, by simp⟩,
      ⟨ClockStep.enable :: before ++ ClockStep.select .ito :: runs, [], [], [], ?_, by simp, by simp⟩, ?_, ?_⟩
    · simp [honce, hrest]
    · intro hm
      simp only [List.append_nil, List.mem_cons] at hm
      rcases hm with hm | hm
      · cases hm
      · rcases hall _ hm with h | h <;> cases h
    · simp [honce, hruns]
    · simp [honce, List.count_append, hcount]
    · intro steps hsteps
      simp only [mainClockSteps] at hsteps
      split at hsteps
      · cases hsteps
        simp
      · cases hsteps

end Plan

namespace Synthesis

variable {c : Configuration} {d : Device} {i : Inputs} {s : Synthesis}

open Operation

/-- A single core keeps to the protocol of the PLL exactly when its core clock has a branch that enables the PLL and its
bring-up selects it: the parts are current ones, and the program is embedded or runs in a current simulation of the newer
power controller. -/
theorem main_pll_protocol_iff (h : run c d i = .ok s) (hs : c.topology = .singleCore) (hp : c.pll = true)
    (taken : String → Bool) :
    PllProtocol
        ((inlined taken s.plan.functions (EmittedFunction.bodyOf "main" s.plan.functions)).filterMap clockStep?) ↔
      d.family.isLegacy = false ∧ (c.isEmbedded = true ∨ d.modernSim = true ∧ d.powerController = .gcfr) := by
  obtain ⟨hcoherent, rfl, rfl, _⟩ := run_ok h
  have ho : s.plan.owns = true := by simp [Plan.owns, hs, Topology.ownsAccelerator]
  rw [hcoherent.clock_main ho]
  exact Plan.pllProtocol_iff hs hp taken

/-- A simulation on the PLL. -/
def simulatedSettings : Settings := { Settings.initial with pll := true, groups := .ofList [0] }

def simulatedConfiguration : Configuration := ⟨simulatedSettings, by decide⟩

theorem main_pll_protocol_simulated :
    ∃ s, run simulatedConfiguration { Device.ai87 with powerController := .bbfc } .empty = .ok s ∧
      ∀ taken, ¬ PllProtocol
        ((inlined taken s.plan.functions (EmittedFunction.bodyOf "main" s.plan.functions)).filterMap clockStep?) := by
  obtain ⟨s, hs⟩ := exists_run (c := simulatedConfiguration) (d := { Device.ai87 with powerController := .bbfc })
    (i := .empty) (by decide)
  refine ⟨s, hs, fun taken => ?_⟩
  rw [main_pll_protocol_iff hs rfl rfl]
  decide

end Synthesis

/-! ## Waits in front of a switch -/

namespace Operation

/-- The value of a comparison of symbols, where no two symbols are the same number. -/
def sameSymbol (condition : String) : Bool :=
  match tokens condition.toList with
  | [.word left, .mark ' ', .mark '=', .mark '=', .mark ' ', .word right] => left = right
  | _ => false

def IsReadyWait (op : Operation) : Prop := op.clockStep? = some .ready

def SelectsPll (op : Operation) : Prop := op.clockStep? = some (.select .ito)

end Operation

open Operation

/-- Every switch to the PLL comes right after a wait for it, and there are no waits for it but those. -/
structure WaitsForPll (ops : List Operation) : Prop where
  waited : Follows IsReadyWait SelectsPll ops
  meant : Leads IsReadyWait SelectsPll ops

theorem joinable_waitsForPll : Joinable WaitsForPll where
  nil := ⟨(joinable_follows _ _).nil, (joinable_leads _ _).nil⟩
  append hx hy := ⟨hx.waited.append hy.waited, hx.meant.append hy.meant⟩

section

variable {taken : String → Bool} {ops : List Operation}

/-- Operations that neither wait for the PLL nor switch to it. -/
theorem waitsForPll_of_clockSteps (h : (clockSteps taken ops).All fun s => s ≠ .ready ∧ s ≠ .select .ito) :
    (executionOfAll taken ops).Throughout WaitsForPll :=
  .of_all h.of_filterMap fun _ hall =>
    ⟨.of_forall fun op hop hs => (hall op hop _ hs).2 rfl, .of_forall fun op hop hs => (hall op hop _ hs).1 rfl⟩

theorem waitsForPll_of_silent (h : Silent ops) : (executionOfAll taken ops).Throughout WaitsForPll := by
  refine waitsForPll_of_clockSteps ?_
  rw [clockSteps_of_silent taken h]
  exact Execution.all_ofList (by simp)

theorem waitsForPll_selectClock (note : Option String) (device : Device) :
    (executionOfAll taken (selectClock .ito (.fixed 1) note device)).Throughout WaitsForPll := by
  have hwait := Plan.clockStep?_ready none
  have hito : ClockSource.ito ≠ .parameter := by decide
  have hwrite := Plan.clockStep?_select hito (.fixed 1) none
  have hpair : WaitsForPll [.waitUntil pllNotReady, .write clockRegister .assign (clockSelection .ito (.fixed 1))] :=
    ⟨.pair hwait (by simp [SelectsPll, hwait]), .pair hwrite (by simp [IsReadyWait, hwrite])⟩
  have hnote : Silent (note.map comment).toList := by
    cases note <;> exact avoids_of_all rfl
  rw [selectClock, List.append_assoc, executionOfAll_append]
  exact (waitsForPll_of_silent hnote).andThen joinable_waitsForPll (.ofList hpair)

end

namespace Plan

variable {p : Plan} {taken : String → Bool}

open AccelFirmware.Action EmitStep

theorem waitsForPll_enableBody (hp : p.config.pll = true) (hs : p.config.isSplit = false) :
    (executionOfAll taken p.enableBody).Throughout WaitsForPll := by
  have hpower : Silent (p.powerUp ++ [Operation.blank]) := avoids_append.2 ⟨silent_powerSequence _ _ _, avoids_of_all rfl⟩
  have hclock : p.enableClock = selectClock .ito (.fixed 1) (some "CNN clock: PLL div 1") p.device := by
    simp [enableClock, hs, hp]
  have henable (note : Option String) :
      Silent [callProvided "MXC_SYS_ClockEnable" ["MXC_SYS_PERIPH_CLOCK_CNN"] note, .blank] := avoids_of_all rfl
  rw [enableBody, hclock, executionOfAll_append, executionOfAll_append, executionOfAll_append]
  exact (((waitsForPll_of_silent hpower).andThen joinable_waitsForPll (waitsForPll_selectClock _ _)).andThen
    joinable_waitsForPll (waitsForPll_of_silent (henable _))).andThen joinable_waitsForPll
      (waitsForPll_of_silent p.silent_completionVector)

/-- In the combined layout the bring-up alone switches to the PLL. -/
theorem waitsForPll_combined (ho : p.owns = true) (hp : p.config.pll = true) (hs : p.config.isSplit = false) :
    (executionOfAll taken p.openedMain).Throughout WaitsForPll := by
  have he : p.config.measureEnergy = false := by
    cases he : p.config.measureEnergy with
    | false => rfl
    | true => rw [p.config.split_of_measureEnergy he] at hs; cases hs
  have hlead : (executionOfAll taken p.leadOps).Throughout WaitsForPll := by
    refine waitsForPll_of_clockSteps ?_
    rw [p.clockSteps_leadOps taken ho]
    refine Execution.all_ofList fun s hm => ?_
    rcases mem_leadClockSteps hm with rfl | rfl <;> simp
  have hbringUp : (executionOfAll taken p.openedBringUp).Throughout WaitsForPll := by
    simp only [openedBringUp, openedEnable, he, hs]
    split
    · have hend : Silent (p.openedBoostOn ++ [Operation.blank]) :=
        avoids_append.2 ⟨p.silent_openedBoostOn, avoids_of_all rfl⟩
      simp only [Bool.false_eq_true, if_false, List.nil_append, List.append_assoc, executionOfAll_append taken p.enableBody]
      exact (waitsForPll_enableBody hp hs).andThen joinable_waitsForPll (waitsForPll_of_silent hend)
    · exact waitsForPll_of_silent (avoids_of_all rfl)
  have hruns : (executionOfAll taken (p.runOps ++ p.openedBoostOff ++ gather (pushed .main) p.retrieve ++
      p.openedEnding ++ p.epilogue)).Throughout WaitsForPll := by
    refine waitsForPll_of_clockSteps ?_
    rw [clockSteps_fromRuns]
    refine ⟨fun s hm => ?_, fun steps hsteps s hm => ?_⟩
    · simp only [kernelClockSteps, he, leaveClockSteps, if_pos hp, List.mem_append] at hm
      rcases hm with (hm | hm) | hm
      · simp at hm
      · rcases p.mem_runClockSteps hm with rfl | rfl <;> simp
      · rcases List.mem_cons.1 hm with rfl | hm
        · simp
        · simp [List.mem_singleton.1 hm]
    · have hround : steps = [.start, .wait] := by
        simp only at hsteps
        split at hsteps
        · exact (Option.some.inj hsteps).symm
        · cases hsteps
      rw [hround] at hm
      rcases List.mem_cons.1 hm with rfl | hm
      · simp
      · simp [List.mem_singleton.1 hm]
  rw [openedMain_eq, executionOfAll_append, executionOfAll_append]
  exact (hlead.andThen joinable_waitsForPll hbringUp).andThen joinable_waitsForPll hruns

end Plan

namespace Synthesis

variable {c : Configuration} {d : Device} {i : Inputs} {s : Synthesis}

/-- Every switch to the PLL comes right after a wait for it exactly in the combined layout. The split layout guards the wait
by a comparison with a symbol that `main` does not pass, so there the wait is never taken. -/
theorem main_waits_for_pll_iff (h : run c d i = .ok s) (ho : c.topology.ownsAccelerator = true) (hp : c.pll = true) :
    (∀ rounds, WaitsForPll ((inlined sameSymbol s.plan.functions
      (EmittedFunction.bodyOf "main" s.plan.functions)).laps rounds)) ↔ c.isSplit = false := by
  obtain ⟨hcoherent, rfl, rfl, _⟩ := run_ok h
  constructor
  · intro hall
    by_contra hs
    have hsplit : s.plan.config.isSplit = true := by simpa using hs
    have hguard : sameSymbol s.plan.sourceGuard = false := by
      simp only [Plan.sourceGuard, Plan.requestedSource, if_pos hp]
      decide
    have hwaited : Follows IsReadyWait SelectsPll
        (inlined sameSymbol s.plan.functions (EmittedFunction.bodyOf "main" s.plan.functions)).once := by
      simpa [Execution.laps] using (hall 0).waited
    have hseen : Follows (· = ClockStep.ready) (· = ClockStep.select .ito) (s.plan.mainClockSteps sameSymbol).once := by
      rw [← hcoherent.clock_main ho, Execution.filterMap_once]
      refine hwaited.filterMap (fun _ hx => ⟨_, hx, rfl⟩) ?_
      rintro _ _ hx rfl
      exact hx
    obtain ⟨after, hafter⟩ : ∃ after, (s.plan.mainClockSteps sameSymbol).once =
        s.plan.leadClockSteps ++ ClockStep.select .ito :: after := by
      simp [Plan.mainClockSteps, Plan.bringUpClockSteps, Plan.guardSteps, Plan.sdkRuntime_of_split hsplit, hsplit, hguard,
        Plan.requestedSource, hp]
    -- Ahead of the switch there is only the clock of the core, which waits for no PLL.
    obtain ⟨y, hlast, rfl⟩ := hseen _ _ after hafter rfl
    rcases Plan.mem_leadClockSteps (List.mem_of_getLast? hlast) with hy | hy <;> cases hy
  · intro hs rounds
    rw [hcoherent.inlined_main sameSymbol ho]
    exact (Plan.waitsForPll_combined ho hp hs).laps joinable_waitsForPll rounds

theorem main_waits_for_pll_split : ∃ s, run .splitSample .ai87 .empty = .ok s ∧
    ¬ ∀ rounds, WaitsForPll ((inlined sameSymbol s.plan.functions
      (EmittedFunction.bodyOf "main" s.plan.functions)).laps rounds) := by
  obtain ⟨s, hs⟩ := exists_run (c := .splitSample) (d := .ai87) (i := .empty) (by decide)
  refine ⟨s, hs, ?_⟩
  rw [main_waits_for_pll_iff hs rfl rfl]
  decide

end Synthesis

end AccelFirmware
