import AccelFirmware.Proofs.HostMain
import AccelFirmware.Proofs.Reports

/-!
# What a host leaves to its companion

A host does not drive the accelerator. The one exception is by design: a simulation in the older environment powers the
accelerator up together with its core, on the host as on a single core, and the companion has no part in it.
-/

namespace AccelFirmware

/-! ## Driving the accelerator -/

/-- The registers that select or enable the clock of the accelerator. One of them, where other clocks are switched as well, takes
the value to tell. -/
def isClockWrite (register : Register) (value : String) : Bool :=
  [Register.named "MXC_GCR->pclkdiv", .named "MXC_GCR->pckdiv", .named "MXC_GCR->pclkdis0",
    .named "MXC_GCR->perckcn"].contains register ||
  register == .named "MXC_GCR->perckcn1" && value == "~0x20"

/-- Calls that switch the clock of the accelerator on, or let its interrupt through. -/
def isEnablingCall (name : String) (args : List String) : Bool :=
  (name == "MXC_SYS_ClockEnable" && args.contains "MXC_SYS_PERIPH_CLOCK_CNN") ||
  (name == "SYS_ClockEnable" && args.contains "SYS_PERIPH_CLOCK_AI") ||
  (["NVIC_SetVector", "NVIC_EnableIRQ", "NVIC_EnableEVENT"].contains name && args.contains "CNN_IRQn")

/-- The functions of the library of the accelerator, and the one that feeds it. -/
def isDriverFunction (name : String) : Bool :=
  "cnn_".toList.isPrefixOf name.toList || name == "load_input"

namespace Operation

/-- Whether an operation drives the accelerator: its power, its clock, its interrupt, its functions, or a wait for it. -/
def isDriver : Operation → Bool
  | .write register _ value _ => powerRegisters.contains register || isClockWrite register value
  | .call callee args _ => isDriverFunction callee.name || isEnablingCall callee.name args
  | .check callee _ => isDriverFunction callee.name
  | .installVector irq _ _ => irq == "CNN_IRQn"
  | .await _ => true
  | _ => false

mutual

/-- The operations that drive the accelerator, those in loops and under guards among them. -/
def drivers : Operation → List Operation
  | .guarded _ body => body.drivers
  | .counted _ body | .forever body => driversOfAll body
  | op => if op.isDriver then [op] else []

def driversOfAll : List Operation → List Operation
  | [] => []
  | op :: ops => op.drivers ++ driversOfAll ops

end

@[simp] theorem driversOfAll_append (as bs : List Operation) :
    driversOfAll (as ++ bs) = driversOfAll as ++ driversOfAll bs := by
  induction as with
  | nil => rfl
  | cons a as ih => rw [List.cons_append, driversOfAll, ih, driversOfAll, List.append_assoc]

end Operation

namespace PowerController

/-- The power of the accelerator and its clock, in simulations in the older environment. -/
def bringUpWithCore (c : PowerController) (m : GroupMask) : List Operation :=
  ((powerWrites .up m).map fun (index, value, purpose) =>
    .write (c.register index) .assign ("0x" ++ hex value.toNat) (some purpose)) ++
  match c with
  | .gcfr =>
      [.write clockRegister .assign (clockSelection .pclk (.fixed 1)),
       writeNamed "MXC_GCR->pclkdis0" .keepBits "~MXC_F_GCR_PCLKDIS0_CNN" (some "Enable CNN clock")]
  | .bbfc =>
      [writeNamed "MXC_GCR->pckdiv" .assign "0x00010000" (some "CNN clock 96M div 2"),
       writeNamed "MXC_GCR->perckcn" .keepBits "~0x2000000" (some "Enable CNN clock")]

end PowerController

namespace Plan

variable (p : Plan)

open Operation AccelFirmware.Action EmitStep

/-! ## Phases of a host -/

theorem drivers_includes (part : Part) : driversOfAll (p.includes part) = [] := by
  have hplatform : driversOfAll (p.platformHeaders part) = [] := by
    simp only [platformHeaders]
    (repeat' split) <;> rfl
  have hprogram : driversOfAll (p.programHeaders part) = [] := by
    simp only [programHeaders]
    (repeat' split) <;> rfl
  simp only [includes, systemHeaders, constants, driversOfAll_append, hplatform, hprogram]
  (repeat' split) <;> rfl

theorem drivers_locals : driversOfAll (gather (pushed .main) p.locals) = [] := by
  have hvariables : driversOfAll p.localVariables = [] := by
    simp only [localVariables, printoutLocals]
    (repeat' split) <;> rfl
  simp only [locals]
  split
  · rfl
  · simp only [gather_push, pushed, if_true, gather_nil, List.append_nil, driversOfAll_append, hvariables]
    rfl

theorem drivers_camera : driversOfAll p.camera = [] := by
  simp only [camera, cameraRegister]
  cases p.config.camera <;> cases p.device.modernSim <;> rfl

theorem drivers_simulationPowerUp :
    driversOfAll p.simulationPowerUp = p.device.powerController.bringUpWithCore p.mask := by
  have hwrite (index : Nat) (hindex : index ∈ [0, 1, 2, 3]) (value : String) (note : Option String) :
      (Operation.write (p.device.powerController.register index) .assign value note).drivers =
        [.write (p.device.powerController.register index) .assign value note] := by
    have hm := register_mem_powerRegisters p.device.powerController hindex
    simp [drivers, isDriver, hm]
  have hpower : driversOfAll p.powerUp = (powerWrites .up p.mask).map fun (index, value, purpose) =>
      .write (p.device.powerController.register index) .assign ("0x" ++ hex value.toNat) (some purpose) := by
    simp only [powerUp, powerSequence, powerWrites, List.map_cons, List.map_nil, driversOfAll, List.append_nil,
      hwrite 0 (by simp), hwrite 1 (by simp), hwrite 2 (by simp), hwrite 3 (by simp)]
    rfl
  simp only [simulationPowerUp, driversOfAll_append, hpower, PowerController.bringUpWithCore]
  cases p.device.powerController <;> rfl

theorem drivers_enablePll : driversOfAll p.enablePll = [] := by
  simp only [enablePll]
  split <;> rfl

theorem drivers_trimOperations : driversOfAll p.trimOperations = [] := by
  simp only [trimOperations]
  split
  · cases p.config.clockTrim with
    | none => rfl
    | some t =>
      simp only [Option.map_some, Option.getD_some, ClockTrim.operations, ClockTrim.sharedWrites, ClockTrim.fastWrites]
      cases t.hirc8m <;> cases t.hirc <;> cases t.hirc96m <;> rfl
  · rfl

theorem drivers_sdkCoreClock (hl : p.device.family.isLegacy = false) : driversOfAll p.sdkCoreClock = [] := by
  simp only [sdkCoreClock, hl, Bool.false_eq_true, if_false, driversOfAll_append, drivers_trimOperations, drivers_enablePll]
  rfl

theorem drivers_simulationOscillator : driversOfAll p.simulationOscillator = [] := by
  simp only [simulationOscillator]
  cases p.device.powerController with
  | bbfc => rfl
  | gcfr =>
    simp only [driversOfAll_append, drivers_enablePll]
    rfl

theorem drivers_simulationCoreClock (hl : p.device.family.isLegacy = false) :
    driversOfAll p.simulationCoreClock =
      if p.device.modernSim then [] else p.device.powerController.bringUpWithCore p.mask := by
  have hcache : driversOfAll [callProvided "icache_enable", .blank] = [] := rfl
  have htrimmed : driversOfAll
      [writeAt trimKey .assign "0x00000001" (some "Set TME"), writeAt trimFast .assign "0x000001a0" (some "96M trim"),
       writeAt trimKey .assign "0x00000000" (some "Clear TME"), .blank] = [] := rfl
  simp only [simulationCoreClock, hl, Bool.false_eq_true, if_false, driversOfAll_append, hcache, htrimmed,
    drivers_simulationOscillator, List.nil_append]
  split
  · rfl
  · exact p.drivers_simulationPowerUp

theorem drivers_coreClock (hl : p.device.family.isLegacy = false) :
    driversOfAll p.coreClock =
      if p.poweredWithCore then p.device.powerController.bringUpWithCore p.mask else [] := by
  simp only [coreClock, poweredWithCore, hl]
  cases p.sdk with
  | true => simpa using p.drivers_sdkCoreClock hl
  | false => cases hm : p.device.modernSim <;> simp [p.drivers_simulationCoreClock hl, hm]

theorem drivers_bootAddress (m : CompanionMemory) : driversOfAll (p.bootAddress m) = [] := by
  simp only [bootAddress]
  (repeat' split) <;> rfl

theorem drivers_exclusiveMemory : driversOfAll p.exclusiveMemory = [] := by
  simp only [exclusiveMemory]
  (repeat' split) <;> rfl

theorem drivers_releaseCompanion : driversOfAll p.releaseCompanion = [] := by
  simp only [releaseCompanion]
  (repeat' split) <;> rfl

theorem drivers_bootCompanion (m : CompanionMemory) : driversOfAll (p.bootCompanion m) = [] := by
  simp only [bootCompanion, driversOfAll_append, drivers_bootAddress, drivers_exclusiveMemory, drivers_releaseCompanion,
    List.append_nil]

theorem drivers_epilogue (ht : p.config.topology = .armHost) : driversOfAll p.epilogue = [] := by
  simp only [epilogue, handoff, deepSleep, ht]
  (repeat' split) <;> rfl

/-! ## Sources of a host -/

variable {p}

theorem Coherent.drivers_host (h : p.Coherent) (ht : p.config.topology = .armHost) (sink : Sink) :
    driversOfAll ((p.pieces sink).flatMap Piece.operations) =
      if sink = .main ∧ p.poweredWithCore = true then p.device.powerController.bringUpWithCore p.mask else [] := by
  have ho : p.owns = false := by simp [owns, ht, Topology.ownsAccelerator]
  have hd : p.config.topology.isDualCore = true := by simp [ht, Topology.isDualCore]
  -- Ahead of `main` there are includes and the functions of the host.
  have hhead (s : Sink) (part : Part) : driversOfAll (gather (operationsOn sink) (p.sourceHead s part)) = [] := by
    simp only [sourceHead, ho, Bool.false_eq_true, if_false, gather_push, gather_nil, List.append_nil, operationsOn]
    split
    · exact p.drivers_includes part
    · rfl
  have hdeclarations : driversOfAll (gather (operationsOn sink) p.declarations) = [] := by
    simp only [declarations]
    cases p.config.layout <;> simp [hhead]
  have hscope : driversOfAll (gather (operationsOn sink) p.fileScopeFunctions) = [] := by
    simp only [fileScopeFunctions, ho, Bool.false_eq_true, if_false, wakeHandler, wakeStatusHelper]
    cases sink <;> (repeat' split) <;> rfl
  have hopening : driversOfAll (gather (operationsOn sink) p.opening) = [] := by
    rw [opening, gather_append, driversOfAll_append, hdeclarations, hscope]
    rfl
  have hends : gather (operationsOn sink) [Action.emit (.openUnit .main (.status "main"))] = [] ∧
      gather (operationsOn sink) [Action.emit (.closeUnit .main (some "0"))] = [] := ⟨rfl, rfl⟩
  rw [operations_pieces, actions_eq]
  simp only [gather_append, hends, driversOfAll_append, hopening, List.nil_append, List.append_nil]
  by_cases hs : sink = .main
  · subst hs
    obtain ⟨m, hm⟩ := Option.isSome_iff_exists.1 (h.companion hd)
    have hblank : driversOfAll [.blank] = [] := rfl
    rw [operations_inside, inside_of_host ho]
    simp only [leadOps, p.coreOperations_host ht hm, driversOfAll_append, drivers_locals, drivers_camera, drivers_bootCompanion,
      p.drivers_epilogue ht, p.drivers_coreClock (h.current hd), hblank, List.nil_append, List.append_nil, true_and]
  · have hother : gather (operationsOn sink) p.inside = [] := by
      have hlocals : gather (operationsOn sink) p.locals = [] := by
        simp only [locals]
        split
        · rfl
        · simp [operationsOn, Ne.symm hs]
      simp [inside, acceleratorPhases, ho, hlocals, operationsOn, Ne.symm hs]
    simp [hother, hs, driversOfAll]

end Plan

namespace Synthesis

variable {c : Configuration} {d : Device} {i : Inputs} {s : Synthesis}

open Operation

/-- A host passes its stages to the companion, and no operation in its sources drives the accelerator. A simulation in the older
environment brings the accelerator up with the core, and does no more. -/
theorem host_delegates (h : run c d i = .ok s) (ht : c.topology = .armHost) :
    (∀ sink, s.program.text.texts.get sink = Piece.renderAll (s.plan.pieces sink)) ∧
    s.report.lifecycle.history = [.uninitialized, .delegated] ∧
    ∀ sink, driversOfAll ((s.plan.pieces sink).flatMap Piece.operations) =
      if sink = .main ∧ c.target = .simulation ∧ d.modernSim = false then
        d.powerController.bringUpWithCore s.plan.mask
      else [] := by
  refine ⟨text_eq h, ?_⟩
  obtain ⟨hcoherent, rfl, rfl, -⟩ := run_ok h
  have ho : s.plan.owns = false := by simp [Plan.owns, ht, Topology.ownsAccelerator]
  constructor
  · rw [report, (lifecycle_eq h).1, Plan.stages, ho]
    rfl
  · intro sink
    have hd : s.plan.config.topology.isDualCore = true := by simp [ht, Topology.isDualCore]
    have hsdk : s.plan.sdk = false ↔ s.plan.config.target = .simulation := by
      cases htarget : s.plan.config.target <;> simp [Plan.sdk, htarget, Target.usesSdk]
    rw [hcoherent.drivers_host ht sink]
    simp [Plan.poweredWithCore, hcoherent.current hd, hsdk]

def simulatedHost : Configuration :=
  ⟨{ Settings.initial with groups := .ofList [0], topology := .armHost }, by decide⟩

/-- A device with a companion, in the older environment. -/
def olderDevice : Device := { Device.ai85 with modernSim := false }

/-- On a current device the host drives nothing. In the older environment its `main` powers the accelerator up. -/
theorem host_delegates_ai85 :
    (∃ s, run simulatedHost .ai85 .empty = .ok s ∧ s.report.lifecycle.history = [.uninitialized, .delegated] ∧
      ∀ sink, driversOfAll ((s.plan.pieces sink).flatMap Piece.operations) = []) ∧
    ∃ s, run simulatedHost olderDevice .empty = .ok s ∧ s.report.lifecycle.history = [.uninitialized, .delegated] ∧
      ∃ value, Operation.write (olderDevice.powerController.register 0) .assign value (some "Power") ∈
        driversOfAll ((s.plan.pieces .main).flatMap Piece.operations) := by
  constructor
  · obtain ⟨s, hs⟩ := exists_run (c := simulatedHost) (d := .ai85) (i := .empty) (by decide)
    obtain ⟨-, hstages, hdrivers⟩ := host_delegates hs rfl
    refine ⟨s, hs, hstages, fun sink => ?_⟩
    rw [hdrivers sink, if_neg]
    rintro ⟨-, -, hmodern⟩
    cases hmodern
  · obtain ⟨s, hs⟩ := exists_run (c := simulatedHost) (d := olderDevice) (i := .empty) (by decide)
    obtain ⟨-, hstages, hdrivers⟩ := host_delegates hs rfl
    refine ⟨s, hs, hstages, "0x" ++ hex s.plan.mask.mask.toNat, ?_⟩
    rw [hdrivers .main, if_pos ⟨rfl, rfl, rfl⟩]
    simp [PowerController.bringUpWithCore, powerWrites, PowerDirection.powered]

end Synthesis

end AccelFirmware
