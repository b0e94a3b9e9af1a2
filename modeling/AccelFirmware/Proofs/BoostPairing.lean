import AccelFirmware.Proofs.Reserved
import AccelFirmware.Proofs.PowerSteps

/-!
# Pairing of the boost circuit

A program with a boost circuit drives its pin high once before the first start, and low once after the last wait unless it runs
forever. Programs keep to this except where there is no bring-up that switches the circuit on.
-/

namespace AccelFirmware

/-! ## Steps of the pins -/

inductive PinStep where
  | drive (setup : PinSetup) (level : Level)
  | step (step : AcceleratorStep)
  deriving DecidableEq, Repr

def Effect.pinStep? : Effect → Option PinStep
  | .drive setup level => some (.drive setup level)
  | .plain op => op.acceleratorStep?.map .step

namespace PinState

/-- The pins that operations drive, among their accelerator steps. -/
def steps (st : PinState) (ops : List Operation) : List PinStep := (st.run ops).2.filterMap Effect.pinStep?

theorem steps_append (st : PinState) (as bs : List Operation) :
    st.steps (as ++ bs) = st.steps as ++ (st.run as).1.steps bs := by
  simp [steps, run_append]

theorem steps_of_unmentioned {ops : List Operation} (h : ∀ op ∈ ops, op.mentions pinVariable = false) (st : PinState) :
    st.steps ops = (ops.filterMap Operation.acceleratorStep?).map .step := by
  rw [steps, run_of_unmentioned h]
  simp only [List.filterMap_map, List.map_filterMap]
  rfl

end PinState

namespace Operation

variable (taken : String → Bool)

/-- What operations that come to an end do with the pins: the state before, the state after, and the steps in between. -/
structure Moves (before : PinState) (ops : List Operation) (after : PinState) (steps : List PinStep) : Prop where
  ends : (executionOfAll taken ops).endless = none
  state : (before.run (executionOfAll taken ops).once).1 = after
  steps : before.steps (executionOfAll taken ops).once = steps

section

variable {taken} {before after : PinState} {ops : List Operation}

theorem Moves.steps_append {steps : List PinStep} (h : Moves taken before ops after steps) (more : List Operation)
    (rounds : Nat) :
    before.steps ((executionOfAll taken (ops ++ more)).laps rounds) =
      steps ++ after.steps ((executionOfAll taken more).laps rounds) := by
  rw [executionOfAll_append, Execution.laps_andThen h.ends, Execution.laps_of_ends h.ends, PinState.steps_append, h.steps,
    h.state]

/-- Operations without loops are executed as they stand. -/
theorem moves_of_run {effects : List Effect} (hx : executionOfAll taken ops = .ofList ops)
    (hr : before.run ops = (after, effects)) : Moves taken before ops after (effects.filterMap Effect.pinStep?) := by
  refine ⟨by rw [hx]; rfl, ?_, ?_⟩
  · rw [hx, Execution.ofList, hr]
  · rw [hx, PinState.steps, Execution.ofList, hr]

theorem steps_of_neutral (h : Neutral ops) (rounds : Nat) :
    before.steps ((executionOfAll taken ops).laps rounds) = ((acceleratorSteps taken ops).laps rounds).map .step := by
  rw [PinState.steps_of_unmentioned ((h.steps pin_mem_reservedWords taken).laps rounds), Execution.filterMap_laps]
  rfl

/-- Without the variable of the pins, the state stays and only accelerator steps are seen. -/
theorem moves_of_neutral {steps : List AcceleratorStep} (h : Neutral ops) (hs : acceleratorSteps taken ops = .ofList steps) :
    Moves taken before ops before (steps.map .step) := by
  have hends : (executionOfAll taken ops).endless = none :=
    (Execution.filterMap_ends _).1 (congrArg Execution.endless hs)
  have honce : ∀ op ∈ (executionOfAll taken ops).once, op.mentions pinVariable = false := (h.steps pin_mem_reservedWords taken).1
  refine ⟨hends, ?_, ?_⟩
  · rw [PinState.run_of_unmentioned honce]
  · rw [PinState.steps_of_unmentioned honce, ← Execution.filterMap_once, ← acceleratorSteps, hs]
    rfl

end

end Operation

/-! ## The cycle of a pin -/

def BoostPin.setup (b : BoostPin) : PinSetup := .output b.portName b.pinName

/-- A pin is driven high once before the first start. It is driven low once after the last wait, or never by a program that
runs forever. No other pin is driven. -/
structure BoostCycle (setup : PinSetup) (endless : Bool) (steps : List PinStep) : Prop where
  on : ∃ before after, steps = before ++ .drive setup .high :: after ∧ .step (.call "cnn_start") ∉ before ∧
    ∀ other, .drive other .high ∉ before ++ after
  off : endless = false → ∃ before after, steps = before ++ .drive setup .low :: after ∧ .step .wait ∉ after ∧
    ∀ other, .drive other .low ∉ before ++ after
  stays : endless = true → ∀ other, .drive other .low ∉ steps

def switchOff (setup : PinSetup) (endless : Bool) : List PinStep := if endless then [] else [.drive setup .low]

theorem BoostCycle.of_steps (setup : PinSetup) (endless : Bool) (runs results : List AcceleratorStep)
    (h : endless = false → .wait ∉ results) :
    BoostCycle setup endless
      (.drive setup .high :: (runs.map .step ++ (switchOff setup endless ++ results.map .step))) := by
  refine ⟨⟨[], _, rfl, by simp, fun other => ?_⟩, fun he => ?_, fun he other => ?_⟩
  · cases endless <;> simp [switchOff]
  · subst he
    exact ⟨.drive setup .high :: runs.map .step, results.map .step, by simp [switchOff], by simpa using h rfl, by simp⟩
  · subst he
    simp [switchOff]

/-- A boost circuit goes through one cycle in every run, no pin is driven without one, and the variable of the pin is declared in
`main` before anything is done to it. -/
structure BoostPairing (c : Configuration) (body : List Operation) (steps : Nat → List PinStep) : Prop where
  cycle : ∀ b, c.boost = some b → ∀ rounds, BoostCycle b.setup c.forever (steps rounds)
  undriven : c.boost = none → ∀ rounds setup level, .drive setup level ∉ steps rounds
  declared : Operation.Declared pinVariable (.declare "mxc_gpio_cfg_t gpio_out;") body

namespace Plan

variable (p : Plan) (taken : String → Bool)

open Operation AccelFirmware.Action EmitStep

/-! ## Steps of the phases -/

/-- What comes before the boost circuit is switched on. -/
def beforeBoost : List Operation :=
  p.leadOps ++ ((if p.config.measureEnergy then p.shutdown ++ p.measureBasePower.tail else []) ++ p.openedEnable)

/-- What comes after the boost circuit is switched off. -/
def afterBoost : List Operation := gather (pushed .main) p.retrieve ++ p.openedEnding ++ p.epilogue

def runSteps : List AcceleratorStep := p.config.setupSteps ++ p.config.firstRunSteps ++ p.config.furtherSteps

def afterSteps : Execution AcceleratorStep := ⟨p.config.resultSteps p.verifies, (p.config.mainSteps p.verifies).endless⟩

theorem acceleratorSteps_leadOps : acceleratorSteps taken p.leadOps = .ofList [] := by
  rw [acceleratorSteps_eq_powerSteps, powerSteps_leadOps]
  simp only [leadPowerSteps, corePowerSteps]
  (repeat' split) <;> rfl

theorem acceleratorSteps_beforeBoost : acceleratorSteps taken p.beforeBoost = .ofList [] := by
  have hbase : acceleratorSteps taken (if p.config.measureEnergy then p.shutdown ++ p.measureBasePower.tail else []) =
      .ofList [] := by
    rw [acceleratorSteps_eq_powerSteps, powerSteps_base]
    split <;> rfl
  have henable : acceleratorSteps taken p.openedEnable = .ofList [] := by
    rw [acceleratorSteps_eq_powerSteps, powerSteps_openedEnable]
    rfl
  rw [beforeBoost, acceleratorSteps_append, acceleratorSteps_append, acceleratorSteps_leadOps, hbase, henable]
  rfl

theorem acceleratorSteps_afterBoost : acceleratorSteps taken p.afterBoost = p.afterSteps := by
  have hending : acceleratorSteps taken p.openedEnding = ⟨[], (p.config.mainSteps p.verifies).endless⟩ := by
    rw [acceleratorSteps_eq_powerSteps, powerSteps_openedEnding]
    simp only [Configuration.mainSteps]
    split <;> rfl
  have hepilogue : acceleratorSteps taken p.epilogue = .ofList [] := by
    rw [acceleratorSteps_eq_powerSteps, powerSteps_of_idle taken p.idle_epilogue]
    rfl
  rw [afterBoost, acceleratorSteps_append, acceleratorSteps_append, steps_retrieve, hending, hepilogue, Execution.andThen_nil]
  simp [Execution.andThen, Execution.ofList, afterSteps]

variable {p}

theorem neutral_beforeBoost (ho : p.owns = true) : Neutral p.beforeBoost :=
  lacks_append.2 ⟨p.neutral_leadOps ho,
    (mentionsOnly_append.2 ⟨p.mentions_base, p.mentions_openedEnable⟩).neutral (by decide)⟩

theorem neutral_afterBoost (ho : p.owns = true) : Neutral p.afterBoost :=
  lacks_append.2 ⟨lacks_append.2 ⟨p.neutral_retrieve, p.neutral_ending.2⟩, p.neutral_epilogue ho⟩

theorem not_wait_afterSteps (hf : p.config.forever = false) (rounds : Nat) : .wait ∉ p.afterSteps.laps rounds := by
  have hends : p.afterSteps.endless = none := by
    rw [afterSteps, Configuration.mainSteps, hf]
    rfl
  rw [Execution.laps_of_ends hends, afterSteps, Configuration.resultSteps]
  cases p.config.retrieval <;> (repeat' split) <;> simp

/-! ## The switch -/

variable {taken}

theorem moves_openedBoostOn {b : BoostPin} (hb : p.config.boost = some b) (st : PinState) :
    Moves taken st p.openedBoostOn ⟨b.setup, some b.setup⟩ [.drive b.setup .high] := by
  have hdrive := st.run_drivePin b.portName b.pinName .high
  cases hs : p.config.isSplit with
  | true =>
    rw [openedBoostOn, if_pos hs, hb]
    exact moves_of_run rfl hdrive
  | false =>
    have hheading (text : String) : st.run [.blank, .comment text] = (st, [.plain .blank, .plain (.comment text)]) := rfl
    obtain ⟨text, hops⟩ : ∃ text, p.openedBoostOn = [.blank, .comment text] ++ drivePin b.portName b.pinName .high := by
      simp only [openedBoostOn, boostOn, hs, hb]
      exact ⟨_, rfl⟩
    have hrun : st.run p.openedBoostOn =
        (⟨b.setup, some b.setup⟩, [.plain .blank, .plain (.comment text), .drive b.setup .high]) := by
      rw [hops, PinState.run_append, hheading, hdrive]
      rfl
    rw [hops] at hrun ⊢
    exact moves_of_run rfl hrun

theorem moves_openedBoostOff {b : BoostPin} (hb : p.config.boost = some b) :
    ∃ after, Moves taken ⟨b.setup, some b.setup⟩ p.openedBoostOff after (switchOff b.setup p.config.forever) := by
  have hblank (st : PinState) : st.run [.blank] = (st, [.plain .blank]) := rfl
  cases hf : p.config.forever with
  | true =>
    have hops : p.openedBoostOff = [] := by
      simp only [openedBoostOff, boostOff, hf]
      cases p.config.isSplit <;> rfl
    have hrun : PinState.run ⟨b.setup, some b.setup⟩ [] = (⟨b.setup, some b.setup⟩, []) := rfl
    rw [hops]
    exact ⟨_, moves_of_run rfl hrun⟩
  | false =>
    cases hs : p.config.isSplit with
    | true =>
      have hops : p.openedBoostOff = drivePin b.portName b.pinName .low ++ [Operation.blank] := by
        simp [openedBoostOff, hf, hs, hb]
      have hrun : PinState.run ⟨b.setup, some b.setup⟩ p.openedBoostOff =
          (⟨b.setup, some b.setup⟩, [.drive b.setup .low, .plain .blank]) := by
        rw [hops, PinState.run_append, PinState.run_drivePin, hblank]
        rfl
      rw [hops] at hrun ⊢
      exact ⟨_, moves_of_run rfl hrun⟩
    | false =>
      obtain ⟨text, hops⟩ : ∃ text, p.openedBoostOff = .comment text ::
          callProvided Level.low.driver ["gpio_out.port", "gpio_out.mask"] :: [.blank] := by
        simp only [openedBoostOff, boostOff, hf, hs, hb]
        exact ⟨_, rfl⟩
      have hcomment (st : PinState) : st.step (.comment text) = (st, [.plain (.comment text)]) := rfl
      have hrun : PinState.run ⟨b.setup, some b.setup⟩ p.openedBoostOff =
          (⟨b.setup, some b.setup⟩, [.plain (.comment text), .drive b.setup .low, .plain .blank]) := by
        rw [hops, PinState.run, hcomment, PinState.run_driver, hblank]
        rfl
      rw [hops] at hrun ⊢
      exact ⟨_, moves_of_run rfl hrun⟩

/-- A pin that has never been configured is not driven. -/
theorem moves_openedBoostOff_fresh (hs : p.config.isSplit = false) :
    Moves taken .fresh p.openedBoostOff .fresh [] := by
  cases hf : p.config.forever <;> cases hb : p.config.boost <;>
    simp only [openedBoostOff, boostOff, hs, hf, hb] <;> exact moves_of_run rfl rfl

/-! ## Steps of `main` -/

theorem openedMain_of_bringUp (hr : p.sdkRuntime = true) :
    p.openedMain = p.beforeBoost ++
      (p.openedBoostOn ++ (([Operation.blank] ++ p.runOps) ++ (p.openedBoostOff ++ p.afterBoost))) := by
  simp [openedMain, openedBringUp, hr, beforeBoost, afterBoost]

theorem openedMain_of_bare (hr : p.sdkRuntime = false) :
    p.openedMain = (p.leadOps ++ p.runOps) ++ (p.openedBoostOff ++ p.afterBoost) := by
  simp [openedMain, openedBringUp, hr, afterBoost]

theorem neutral_openedMain (ho : p.owns = true) (hb : p.config.boost = none) : Neutral p.openedMain := by
  have hblank : Neutral [.blank] := lacks_of_spelled (by repeat' constructor)
  obtain ⟨hon, hoff⟩ : Neutral p.openedBoostOn ∧ Neutral p.openedBoostOff := by
    simp only [openedBoostOn, openedBoostOff, boostOn, boostOff, hb]
    cases p.config.isSplit <;> cases p.config.forever <;> exact ⟨lacks_nil, lacks_nil⟩
  cases hr : p.sdkRuntime with
  | true =>
    rw [openedMain_of_bringUp hr]
    exact lacks_append.2 ⟨neutral_beforeBoost ho, lacks_append.2 ⟨hon, lacks_append.2
      ⟨lacks_append.2 ⟨hblank, p.neutral_runOps⟩, lacks_append.2 ⟨hoff, neutral_afterBoost ho⟩⟩⟩⟩
  | false =>
    rw [openedMain_of_bare hr]
    exact lacks_append.2 ⟨lacks_append.2 ⟨p.neutral_leadOps ho, p.neutral_runOps⟩,
      lacks_append.2 ⟨hoff, neutral_afterBoost ho⟩⟩

/-- After a bring-up the pin goes through its cycle. -/
theorem steps_openedMain {b : BoostPin} (hb : p.config.boost = some b) (ho : p.owns = true) (hr : p.sdkRuntime = true)
    (rounds : Nat) :
    PinState.fresh.steps ((executionOfAll taken p.openedMain).laps rounds) =
      .drive b.setup .high :: (p.runSteps.map .step ++
        (switchOff b.setup p.config.forever ++ (p.afterSteps.laps rounds).map .step)) := by
  have hbefore : Moves taken .fresh p.beforeBoost .fresh _ :=
    moves_of_neutral (neutral_beforeBoost ho) (p.acceleratorSteps_beforeBoost taken)
  have hon : Moves taken .fresh p.openedBoostOn _ _ := moves_openedBoostOn hb .fresh
  have hruns : acceleratorSteps taken ([Operation.blank] ++ p.runOps) = .ofList p.runSteps := by
    rw [acceleratorSteps_append, steps_runOps]
    rfl
  have hneutral : Neutral ([Operation.blank] ++ p.runOps) :=
    lacks_append.2 ⟨lacks_of_spelled (by repeat' constructor), p.neutral_runOps⟩
  obtain ⟨after, hoff⟩ : ∃ after, Moves taken _ p.openedBoostOff after _ := moves_openedBoostOff hb
  rw [openedMain_of_bringUp hr, hbefore.steps_append, hon.steps_append, (moves_of_neutral hneutral hruns).steps_append,
    hoff.steps_append, steps_of_neutral (neutral_afterBoost ho), acceleratorSteps_afterBoost]
  rfl

/-- Without a bring-up there is nothing but accelerator steps: what is left of the boost circuit drives no pin. -/
theorem steps_openedMain_of_bare (ho : p.owns = true) (hr : p.sdkRuntime = false) (rounds : Nat) :
    PinState.fresh.steps ((executionOfAll taken p.openedMain).laps rounds) =
      (p.runSteps ++ p.afterSteps.laps rounds).map .step := by
  have hcombined := isSplit_of_bare hr
  have hruns : acceleratorSteps taken (p.leadOps ++ p.runOps) = .ofList p.runSteps := by
    rw [acceleratorSteps_append, acceleratorSteps_leadOps, steps_runOps]
    rfl
  have hneutral : Neutral (p.leadOps ++ p.runOps) := lacks_append.2 ⟨p.neutral_leadOps ho, p.neutral_runOps⟩
  rw [openedMain_of_bare hr, (moves_of_neutral hneutral hruns).steps_append,
    (moves_openedBoostOff_fresh hcombined).steps_append, steps_of_neutral (neutral_afterBoost ho), acceleratorSteps_afterBoost]
  simp

/-! ## Mentions in `main` -/

/-- In the split layout, and without a boost circuit, the variable does not come up in `main`. -/
theorem neutral_inside (ho : p.owns = true) (h : p.config.isSplit = true ∨ p.config.boost = none) :
    Neutral (gather (pushed .main) p.inside) := by
  have hblank : Neutral [.blank] := lacks_of_spelled (by repeat' constructor)
  cases hb : p.config.boost with
  | none =>
    have hon : Neutral (gather (pushed .main) p.boostOn) := by
      simp only [boostOn, hb]
      cases p.config.isSplit <;> exact lacks_nil
    have hoff : Neutral (gather (pushed .main) p.boostOff) := by
      simp only [boostOff, hb]
      cases p.config.isSplit <;> cases p.config.forever <;> exact lacks_nil
    exact lacks_inside ho (List.Subset.refl _) hon hoff
  | some b =>
    have hs : p.config.isSplit = true := h.resolve_right (by simp [hb])
    have hcalls (name : String) (note : Option String) (hn : name ∈ ["cnn_boost_enable", "cnn_boost_disable"]) :=
      (mentions_boostCalls b name note hn).neutral (by decide)
    have hon : Neutral (gather (pushed .main) p.boostOn) := by
      simpa [boostOn, hs, hb, boostFunction, pushed] using hcalls "cnn_boost_enable" _ (by simp)
    have hoff : Neutral (gather (pushed .main) p.boostOff) := by
      have hcall := lacks_append.2 ⟨hcalls "cnn_boost_disable" (some "Turn off the boost circuit") (by simp), hblank⟩
      cases hf : p.config.forever with
      | true => simp [boostOff, hs, hf, boostFunction, pushed]
      | false => simpa [boostOff, hs, hb, hf, boostFunction, pushed] using hcall
    exact lacks_inside ho (List.Subset.refl _) hon hoff

theorem declared_inside (ho : p.owns = true) (h : p.config.boost = none ∨ p.sdkRuntime = true) :
    Declared pinVariable (.declare "mxc_gpio_cfg_t gpio_out;") (gather (pushed .main) p.inside) := by
  cases hs : p.config.isSplit with
  | true => exact (neutral_inside ho (.inl hs)).declared pin_mem_reservedWords _
  | false =>
    cases hb : p.config.boost with
    | none => exact (neutral_inside ho (.inr hb)).declared pin_mem_reservedWords _
    | some b =>
      -- Only here does `main` have the variable of its own: up to the switch nothing mentions it.
      have hr : p.sdkRuntime = true := h.resolve_left (by simp [hb])
      have hheading (text : String) : Neutral [.blank, .comment text] := lacks_of_spelled (by repeat' constructor)
      obtain ⟨text, rest, hon⟩ : ∃ text rest, gather (pushed .main) p.boostOn =
          [.blank, .comment text] ++ .declare "mxc_gpio_cfg_t gpio_out;" :: rest := by
        simp only [boostOn, hs, hb]
        exact ⟨_, _, rfl⟩
      have hneutral := lacks_append.2 ⟨p.neutral_enable ho, hheading text⟩
      rw [inside_eq ho, acceleratorBringUp, if_pos hr, gather_append, gather_append, hon]
      simpa using hneutral.declared_append pin_mem_reservedWords (.declare "mxc_gpio_cfg_t gpio_out;") _

/-! ## Pairing -/

/-- The pairing holds where nothing is to be switched, or a bring-up switches it on. -/
theorem boostPairing_iff (ho : p.owns = true) :
    BoostPairing p.config (gather (pushed .main) p.inside)
        (fun rounds => PinState.fresh.steps ((executionOfAll taken p.openedMain).laps rounds)) ↔
      p.config.boost = none ∨ p.sdkRuntime = true := by
  constructor
  · intro hpairing
    cases hb : p.config.boost with
    | none => exact Or.inl rfl
    | some b =>
      refine Or.inr ?_
      by_contra hr
      -- Without a bring-up the trace has accelerator steps only, and no drive to begin the cycle.
      obtain ⟨before, after, hsteps, -, -⟩ := (hpairing.cycle b hb 0).on
      have hdrive : PinStep.drive b.setup .high ∈ (p.runSteps ++ p.afterSteps.laps 0).map .step := by
        rw [← steps_openedMain_of_bare ho (by simpa using hr), hsteps]
        simp
      simp at hdrive
  · intro h
    refine ⟨fun b hb rounds => ?_, fun hb rounds setup level hdrive => ?_, declared_inside ho h⟩
    · have hr : p.sdkRuntime = true := h.resolve_left (by simp [hb])
      rw [steps_openedMain hb ho hr]
      exact BoostCycle.of_steps _ _ _ _ fun hf => not_wait_afterSteps hf rounds
    · have hneutral : Neutral p.openedMain := neutral_openedMain ho hb
      rw [steps_of_neutral hneutral] at hdrive
      simp at hdrive

end Plan

namespace Synthesis

variable {c : Configuration} {d : Device} {i : Inputs} {s : Synthesis}

open Operation

/-- The boost circuit is paired unless an older simulation has one: there no bring-up switches it on, and what switches it off
uses a variable that is never declared. -/
theorem main_boost_pairing_iff (h : run c d i = .ok s) (ho : c.topology.ownsAccelerator = true) (taken : String → Bool) :
    BoostPairing c (EmittedFunction.bodyOf "main" s.plan.functions)
        (fun rounds => PinState.fresh.steps
          ((inlined taken s.plan.functions (EmittedFunction.bodyOf "main" s.plan.functions)).laps rounds)) ↔
      c.boost = none ∨ c.isEmbedded = true ∨ d.modernSim = true := by
  obtain ⟨hcoherent, rfl, rfl, _⟩ := run_ok h
  have hr : s.plan.sdkRuntime = true ↔ s.plan.config.isEmbedded = true ∨ s.plan.device.modernSim = true := by
    simp [Plan.sdkRuntime, Plan.embedded]
  rw [hcoherent.inlined_main taken ho, hcoherent.main_body, Plan.boostPairing_iff ho, hr]

/-- A simulation with a boost circuit. -/
def boostedSimulation : Configuration :=
  ⟨{ Settings.initial with groups := .ofList [0], boost := some ⟨2, 5⟩ }, by decide⟩

theorem main_boost_pairing_simulation : ∃ s, run boostedSimulation .ai84 .empty = .ok s ∧
    ∀ taken, ¬ BoostPairing boostedSimulation (EmittedFunction.bodyOf "main" s.plan.functions)
      (fun rounds => PinState.fresh.steps
        ((inlined taken s.plan.functions (EmittedFunction.bodyOf "main" s.plan.functions)).laps rounds)) := by
  obtain ⟨s, hs⟩ := exists_run (c := boostedSimulation) (d := .ai84) (i := .empty) (by decide)
  refine ⟨s, hs, fun taken => ?_⟩
  rw [main_boost_pairing_iff hs rfl]
  decide

end Synthesis

end AccelFirmware
