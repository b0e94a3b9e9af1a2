import AccelFirmware.Proofs.GroupMasks
import AccelFirmware.Proofs.PowerSteps

/-!
# Balance of the power

The groups in use are powered up once before anything is asked of the accelerator, and powered down once it is done. Programs
keep to this except where the core clock of older parts leaves the power-up out.
-/

namespace AccelFirmware

/-- Power around the accelerator steps of a program. -/
structure PowerBalance (c : Configuration) (d : Device) (m : GroupMask) (x : Execution PowerStep) : Prop where
  /-- The values of the writes stand for the groups in use. -/
  marks : m.Marks c.groups d
  /-- One power-up before the steps of the accelerator, which the initialisation leads, and one power-down after them; one
  more power-down ahead of all if energy is measured. -/
  sequences : ∃ runs : List AcceleratorStep,
    x.once = (if c.measureEnergy then d.powerController.downSteps m else []) ++ d.powerController.upSteps m ++
      (PowerStep.drive (.call "cnn_init") :: runs.map .drive) ++ if c.forever then [] else d.powerController.downSteps m
  /-- Nothing is switched in the endless loop, and only a program that runs forever has one. -/
  loop : ∀ steps, x.endless = some steps → c.forever = true ∧ ∀ s ∈ steps, ∃ step, s = .drive step

namespace Plan

variable {p : Plan}

theorem Coherent.marks (h : p.Coherent) : p.mask.Marks p.config.groups p.device :=
  GroupMask.marks_of_make h.mask (Device.groupCount_le h.sound)

/-- On a single core the power comes from the core clock or from the bring-up, not from both. -/
theorem leadPowerSteps_append (hs : p.config.topology = .singleCore) :
    p.leadPowerSteps ++ p.bringUpPowerSteps =
      if p.device.family.isLegacy = false ∨ p.config.isEmbedded = true ∨ p.device.modernSim = true then
        (if p.config.measureEnergy then p.downSteps else []) ++ p.upSteps
      else [] := by
  have hsdk : p.sdk = p.config.isEmbedded := sdk_eq_embedded (by simp [owns, hs, Topology.ownsAccelerator])
  have hlead : p.leadPowerSteps = p.corePowerSteps := by
    rw [leadPowerSteps, hs]
  cases he : p.config.isEmbedded with
  | true =>
    have hpowered : p.poweredWithCore = false := by simp [poweredWithCore, hsdk, he]
    have hruntime : p.sdkRuntime = true := by simp [sdkRuntime, embedded, he]
    simp [hlead, corePowerSteps, hpowered, bringUpPowerSteps, hruntime]
  | false =>
    -- Only embedded programs measure energy, so no power-down comes first.
    have hmeasure : p.config.measureEnergy = false := by
      by_contra hm
      have hembedded := p.config.embedded_of_split (p.config.split_of_measureEnergy (by simpa using hm))
      rw [he] at hembedded
      cases hembedded
    rw [hlead, corePowerSteps, bringUpPowerSteps, poweredWithCore, hsdk, sdkRuntime, embedded, he, hmeasure]
    cases p.device.family.isLegacy <;> cases p.device.modernSim <;> rfl

/-- The power is balanced where some branch switches it on. -/
theorem powerBalance_iff (h : p.Coherent) (hs : p.config.topology = .singleCore) :
    PowerBalance p.config p.device p.mask p.mainPowerSteps ↔
      p.device.family.isLegacy = false ∨ p.config.isEmbedded = true ∨ p.device.modernSim = true := by
  obtain ⟨runs, hruns⟩ : ∃ runs, (p.config.mainSteps p.verifies).once = .call "cnn_init" :: runs :=
    ⟨_, rfl⟩
  have hlead := leadPowerSteps_append hs
  constructor
  · rintro ⟨_, ⟨runs', hbalanced⟩, _⟩
    by_contra hunpowered
    rw [if_neg hunpowered] at hlead
    -- Nothing is switched before the initialisation, but a balanced program begins with a write.
    have honce : p.mainPowerSteps.once.head? = some (.drive (.call "cnn_init")) := by
      simp [mainPowerSteps, hlead, hruns, drives]
    rw [hbalanced] at honce
    cases hm : p.config.measureEnergy <;> rw [hm] at honce <;> cases honce
  · intro hpowered
    rw [if_pos hpowered] at hlead
    refine ⟨h.marks, ⟨runs, ?_⟩, ?_⟩
    · simp [mainPowerSteps, hlead, hruns, drives, downSteps, upSteps]
    · intro steps hsteps
      simp only [mainPowerSteps, Configuration.mainSteps] at hsteps
      split at hsteps
      · refine ⟨‹_›, fun s hm => ?_⟩
        cases hsteps
        obtain ⟨step, _, rfl⟩ := List.mem_map.1 hm
        exact ⟨step, rfl⟩
      · cases hsteps

end Plan

namespace Synthesis

variable {c : Configuration} {d : Device} {i : Inputs} {s : Synthesis}

open Operation

/-- On a single core the power is balanced unless an older part is simulated in its own environment: there the core clock comes
to an early end, and the power is switched off without ever having been on. -/
theorem main_power_balance_iff (h : run c d i = .ok s) (hs : c.topology = .singleCore) (taken : String → Bool) :
    PowerBalance c d s.plan.mask
        ((inlined taken s.plan.functions (EmittedFunction.bodyOf "main" s.plan.functions)).filterMap powerStep?) ↔
      d.family.isLegacy = false ∨ c.isEmbedded = true ∨ d.modernSim = true := by
  obtain ⟨hcoherent, rfl, rfl, _⟩ := run_ok h
  have ho : s.plan.owns = true := by simp [Plan.owns, hs, Topology.ownsAccelerator]
  rw [hcoherent.power_main ho]
  exact Plan.powerBalance_iff hcoherent hs

/-- A simulation with the settings that hold where nothing is said. -/
def plainSimulation : Configuration := ⟨{ Settings.initial with groups := .ofList [0] }, by decide⟩

theorem main_power_balance_legacy : ∃ s, run plainSimulation .ai84 .empty = .ok s ∧
    ∀ taken, ¬ PowerBalance plainSimulation .ai84 s.plan.mask
      ((inlined taken s.plan.functions (EmittedFunction.bodyOf "main" s.plan.functions)).filterMap powerStep?) := by
  obtain ⟨s, hs⟩ := exists_run (c := plainSimulation) (d := .ai84) (i := .empty) (by decide)
  refine ⟨s, hs, fun taken => ?_⟩
  rw [main_power_balance_iff hs rfl]
  decide

end Synthesis

end AccelFirmware
