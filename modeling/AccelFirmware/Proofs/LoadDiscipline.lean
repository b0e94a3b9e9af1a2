import AccelFirmware.Proofs.CallOrder
import AccelFirmware.Proofs.Layouts
import AccelFirmware.Proofs.Neighbours

/-!
# Loading around starts

Input from memory is loaded right ahead of a start. Input through the FIFO is loaded between a start and the wait for its
run, and at no other time. The first rule always holds; the second is broken where energy is measured, and by the endless
loop.
-/

namespace AccelFirmware

/-! ## Rules -/

/-- Input through the FIFO: every run that is waited for has been fed, and nothing is loaded while no run is open. -/
structure FedByFifo (steps : List AcceleratorStep) : Prop where
  fed : ∀ before run after, steps = before ++ AcceleratorStep.call "cnn_start" :: (run ++ AcceleratorStep.wait :: after) →
    .call "load_input" ∈ run
  opened : ∀ before after, steps = before ++ AcceleratorStep.call "load_input" :: after →
    ∃ idle since, before = idle ++ AcceleratorStep.call "cnn_start" :: since ∧ .wait ∉ since

namespace Operation

def IsStart (op : Operation) : Prop := op.acceleratorStep? = some (.call "cnn_start")

def IsLoad (op : Operation) : Prop := op.acceleratorStep? = some (.call "load_input")

end Operation

open Operation

/-- The rule for either way of input. In memory the rounds of the endless loop take the input that is there. -/
structure LoadDiscipline (fifo : Bool) (x : Execution Operation) : Prop where
  throughFifo : fifo = true → ∀ rounds, FedByFifo ((x.filterMap acceleratorStep?).laps rounds)
  fromMemory : fifo = false → Follows IsLoad IsStart x.once

/-! ## Input through the FIFO -/

namespace Configuration

variable {c : Configuration}

theorem load_mem_setupSteps (he : c.measureEnergy = true) : .call "load_input" ∈ c.setupSteps := by
  have hloops : Plan.energyLoops.toNat ≠ 0 := by decide
  have hload : AcceleratorStep.call "load_input" ∈ measured [.call "load_input"] :=
    List.mem_flatten.2 ⟨_, List.mem_replicate.2 ⟨hloops, rfl⟩, List.mem_singleton_self _⟩
  simp [setupSteps, kernelSteps, he, hload]

theorem load_not_mem_setupSteps (he : c.measureEnergy = false) : .call "load_input" ∉ c.setupSteps := by
  simp only [setupSteps, kernelSteps, he, Bool.false_eq_true, if_false]
  (repeat' split) <;> simp

/-- What follows the first load of a program that neither measures nor runs forever. -/
def openRun (c : Configuration) (golden : Bool) : List AcceleratorStep :=
  c.stopSteps ++ [AcceleratorStep.wait] ++ c.furtherSteps ++ c.resultSteps golden

theorem not_mem_openRun {x : AcceleratorStep} (hx : x ∈ [AcceleratorStep.call "cnn_start", .call "load_input"])
    (golden : Bool) : x ∉ c.openRun golden := by
  have hfurther : x ∉ c.furtherSteps := by
    intro hm
    obtain ⟨steps, hsteps, hm⟩ := List.mem_flatten.1 hm
    rw [List.eq_of_mem_replicate hsteps] at hm
    simp only [List.mem_cons, List.not_mem_nil, or_false] at hx hm
    rcases hx with rfl | rfl <;> simp at hm
  have hstop : x ∉ c.stopSteps := by
    simp only [List.mem_cons, List.not_mem_nil, or_false] at hx
    rcases hx with rfl | rfl <;> simp only [stopSteps] <;> split <;> simp
  have hresult : x ∉ c.resultSteps golden := by
    simp only [List.mem_cons, List.not_mem_nil, or_false] at hx
    rcases hx with rfl | rfl <;> simp only [resultSteps] <;> (repeat' split) <;> simp
  have hwait : x ≠ .wait := by
    rintro rfl
    simp at hx
  simp [openRun, hfurther, hstop, hresult, hwait]

theorem laps_of_fifo (hf : c.fifo = true) (he : c.measureEnergy = false) (hl : c.forever = false) (golden : Bool)
    (rounds : Nat) :
    (c.mainSteps golden).laps rounds =
      c.setupSteps ++ AcceleratorStep.call "cnn_start" :: .call "load_input" :: c.openRun golden := by
  simp [Execution.laps, mainSteps, firstRunSteps, startSteps, openRun, hf, he, hl]

/-- Measured loading and the endless loop are the two places that know nothing of the FIFO. -/
theorem fedByFifo_iff (hf : c.fifo = true) (golden : Bool) :
    (∀ rounds, FedByFifo ((c.mainSteps golden).laps rounds)) ↔ c.measureEnergy = false ∧ c.forever = false := by
  constructor
  · intro hall
    constructor
    · by_contra he
      obtain ⟨before, after, hsetup⟩ := List.append_of_mem (load_mem_setupSteps (by simpa using he))
      obtain ⟨rest, hrest⟩ : ∃ rest, (c.mainSteps golden).laps 0 =
          before ++ AcceleratorStep.call "load_input" :: (after ++ rest) := by
        simp [Execution.laps, mainSteps, hsetup]
      obtain ⟨idle, since, rfl, _⟩ := (hall 0).opened _ _ hrest
      exact c.not_mem_setupSteps (x := .call "cnn_start") (by simp) (by simp [hsetup])
    · by_contra hl
      have hforever : c.forever = true := by simpa using hl
      have hround : (c.mainSteps golden).laps 1 =
          (c.mainSteps golden).once ++ AcceleratorStep.call "cnn_start" :: ([] ++ [AcceleratorStep.wait]) := by
        simp [Execution.laps, mainSteps, hforever]
      cases (hall 1).fed _ _ _ hround
  · rintro ⟨he, hl⟩ rounds
    rw [laps_of_fifo hf he hl]
    have hstart : AcceleratorStep.call "cnn_start" ∉ c.setupSteps := c.not_mem_setupSteps (by simp)
    constructor
    · intro before run after hsplit
      have hrest : AcceleratorStep.call "cnn_start" ∉ AcceleratorStep.call "load_input" :: c.openRun golden := by
        simp [not_mem_openRun]
      obtain ⟨-, -, hrun⟩ := (List.append_cons_inj_of_notMem hstart hrest).1 hsplit
      cases run with
      | nil => cases hrun
      | cons x run =>
        obtain ⟨rfl, -⟩ := List.cons.inj hrun
        exact List.mem_cons_self ..
    · intro before after hsplit
      have hbefore : AcceleratorStep.call "load_input" ∉ c.setupSteps ++ [AcceleratorStep.call "cnn_start"] := by
        simp [load_not_mem_setupSteps he]
      have hsplit' : (c.setupSteps ++ [AcceleratorStep.call "cnn_start"]) ++
          AcceleratorStep.call "load_input" :: c.openRun golden = before ++ AcceleratorStep.call "load_input" :: after := by
        simpa using hsplit
      obtain ⟨rfl, -, -⟩ := (List.append_cons_inj_of_notMem hbefore (not_mem_openRun (by simp) golden)).1 hsplit'
      exact ⟨c.setupSteps, [], rfl, by simp⟩

end Configuration

/-! ## Input from memory -/

namespace Operation

/-- Every start comes right after a load, the endless loop aside. -/
def LoadsFirst (taken : String → Bool) (ops : List Operation) : Prop :=
  Follows IsLoad IsStart (executionOfAll taken ops).once

variable {taken : String → Bool} {as bs ops : List Operation}

theorem LoadsFirst.append (ha : LoadsFirst taken as) (hb : LoadsFirst taken bs) : LoadsFirst taken (as ++ bs) := by
  rw [LoadsFirst, executionOfAll_append]
  exact (joinable_follows _ _).once_andThen ha hb

theorem LoadsFirst.counted (h : LoadsFirst taken ops) (count : UInt32) : LoadsFirst taken [.counted count ops] := by
  have hone : executionOfAll taken [.counted count ops] = (executionOfAll taken ops).times count.toNat := by
    simp [executionOfAll, execution]
  rw [LoadsFirst, hone]
  exact (joinable_follows _ _).once_times h count.toNat

theorem loadsFirst_of_steps (h : .call "cnn_start" ∉ (acceleratorSteps taken ops).once) : LoadsFirst taken ops :=
  .of_forall fun op hop hs => h (List.mem_filterMap.2 ⟨op, hop, hs⟩)

theorem loadsFirst_of_isQuiet (h : ops.all isQuiet = true) : LoadsFirst taken ops := by
  refine loadsFirst_of_steps ?_
  rw [acceleratorSteps_of_isQuiet taken h]
  exact List.not_mem_nil

end Operation

namespace Plan

variable (p : Plan) {taken : String → Bool}

open AccelFirmware.Action EmitStep

theorem loadsFirst_loadAndStart (hf : p.config.fifo = false) (note : String) :
    LoadsFirst taken (p.loadAndStart note) := by
  have hload (text : Option String) : (callProvided "load_input" [] text).acceleratorStep? = some (.call "load_input") := rfl
  simp only [loadAndStart, hf]
  exact .pair (hload _) (by simp [IsStart, hload])

theorem loadsFirst_firstRun (hf : p.config.fifo = false) : LoadsFirst taken (gather (pushed .main) p.firstRun) := by
  have hstop : LoadsFirst taken p.stopAndContinue := by
    refine loadsFirst_of_steps ?_
    rw [steps_stopAndContinue]
    simp only [Configuration.stopSteps]
    split <;> simp [Execution.ofList]
  have hwait : LoadsFirst taken [.await p.completionWait] := by
    refine loadsFirst_of_steps ?_
    rw [acceleratorSteps_cons, stepsOf_await]
    simp [Execution.ofList, Execution.andThen]
  have hload (note : String) : LoadsFirst taken (p.loadAndStart note) := p.loadsFirst_loadAndStart hf note
  cases he : p.config.measureEnergy with
  | false =>
    have hrun : gather (pushed .main) p.firstRun =
        p.loadAndStart "Start CNN processing" ++ [Operation.blank] ++ p.stopAndContinue ++
          [Operation.await p.completionWait] ++ [Operation.blank] := by
      simp [firstRun, he, pushed]
    rw [hrun]
    exact ((((hload _).append (loadsFirst_of_isQuiet rfl)).append hstop).append hwait).append (loadsFirst_of_isQuiet rfl)
  | true =>
    obtain ⟨head, tail, hruns, hhead, htail⟩ : ∃ head tail, p.measureRuns =
        head ++ [Operation.counted energyLoops
          (p.loadAndStart "Run inference" ++ [Operation.await p.completionWait])] ++ tail ∧
          head.all isQuiet = true ∧ tail.all isQuiet = true := ⟨List.take 3 p.measureRuns, _, rfl, rfl, rfl⟩
    have hrun : gather (pushed .main) p.firstRun = p.stopAndContinue ++ p.measureRuns := by
      simp [firstRun, he, pushed]
    rw [hrun, hruns]
    exact hstop.append (((loadsFirst_of_isQuiet hhead).append (((hload _).append hwait).counted energyLoops)).append
      (loadsFirst_of_isQuiet htail))

/-- Outside of the first run there are no starts, unless in the endless loop. -/
theorem loadsFirst_inside (ho : p.owns = true) (hf : p.config.fifo = false) :
    LoadsFirst taken (gather (pushed .main) p.inside) := by
  have hstart : .call "cnn_start" ∈ [AcceleratorStep.call "cnn_start", .call "load_input"] := by simp
  have hsetup : LoadsFirst taken (gather (pushed .main) p.configure) := by
    refine loadsFirst_of_steps ?_
    rw [steps_configure]
    exact p.config.not_mem_setupSteps (by simp)
  have hfurther : LoadsFirst taken (gather (pushed .main) p.furtherRuns) := by
    refine loadsFirst_of_steps ?_
    rw [steps_furtherRuns]
    intro hm
    exact Configuration.not_mem_openRun hstart p.verifies (List.mem_append_left _ (List.mem_append_right _ hm))
  have hretrieve : LoadsFirst taken (gather (pushed .main) p.retrieve) := by
    refine loadsFirst_of_steps ?_
    rw [steps_retrieve]
    intro hm
    exact Configuration.not_mem_openRun hstart p.verifies (List.mem_append_right _ hm)
  have hending : LoadsFirst taken (gather (pushed .main) p.ending) := by
    refine loadsFirst_of_steps ?_
    rw [steps_ending]
    exact List.not_mem_nil
  have hlead : LoadsFirst taken p.leadOps :=
    ((loadsFirst_of_isQuiet p.quiet_locals).append (loadsFirst_of_isQuiet p.quiet_coreOperations)).append
      (loadsFirst_of_isQuiet p.quiet_camera)
  rw [inside_eq ho]
  exact ((((((hlead.append (loadsFirst_of_isQuiet p.quiet_acceleratorBringUp)).append
    (((hsetup.append (p.loadsFirst_firstRun hf)).append hfurther).append (loadsFirst_of_isQuiet p.quiet_leavePll))).append
    (loadsFirst_of_isQuiet p.quiet_boostOff)).append hretrieve).append hending).append
    (loadsFirst_of_isQuiet p.quiet_epilogue))

end Plan

namespace Synthesis

variable {c : Configuration} {d : Device} {i : Inputs} {s : Synthesis}

/-- The input is loaded where it should be, unless it goes through the FIFO of a program that measures energy or runs
forever: the loads under measurement come ahead of every start, and the rounds of the endless loop start without a load. -/
theorem main_load_discipline_iff (h : run c d i = .ok s) (ho : c.topology.ownsAccelerator = true)
    (taken : String → Bool) :
    LoadDiscipline c.fifo (executionOfAll taken (EmittedFunction.bodyOf "main" s.plan.functions)) ↔
      ¬ (c.fifo = true ∧ (c.measureEnergy = true ∨ c.forever = true)) := by
  have hsteps : (executionOfAll taken (EmittedFunction.bodyOf "main" s.plan.functions)).filterMap acceleratorStep? =
      c.mainSteps i.expected.isSome := main_steps h ho taken
  cases hf : c.fifo with
  | true =>
    have hiff := Configuration.fedByFifo_iff hf i.expected.isSome
    rw [← hsteps] at hiff
    have hcases : (c.measureEnergy = false ∧ c.forever = false) ↔
        ¬ (true = true ∧ (c.measureEnergy = true ∨ c.forever = true)) := by simp
    constructor
    · intro hall
      exact hcases.1 (hiff.1 (hall.throughFifo rfl))
    · intro hn
      exact ⟨fun _ => hiff.2 (hcases.2 hn), by simp⟩
  | false =>
    refine iff_of_true ⟨by simp, fun _ => ?_⟩ (by simp)
    obtain ⟨hcoherent, rfl, rfl, _⟩ := run_ok h
    rw [hcoherent.main_body]
    exact s.plan.loadsFirst_inside ho hf

/-- A program that runs forever on input through the FIFO. -/
def endlessSettings : Settings :=
  { Settings.initial with target := .embedded, fifo := true, forever := true, groups := .ofList [0] }

def endlessConfiguration : Configuration := ⟨endlessSettings, by decide⟩

theorem main_load_discipline_endless : ∃ s, run endlessConfiguration .ai85 .empty = .ok s ∧
    ∀ taken, ¬ LoadDiscipline true (executionOfAll taken (EmittedFunction.bodyOf "main" s.plan.functions)) := by
  obtain ⟨s, hs⟩ := exists_run (c := endlessConfiguration) (d := .ai85) (i := .empty) (by decide)
  refine ⟨s, hs, fun taken => ?_⟩
  have hiff := main_load_discipline_iff hs rfl taken
  intro hkept
  exact hiff.1 hkept ⟨rfl, Or.inr rfl⟩

end Synthesis

end AccelFirmware
