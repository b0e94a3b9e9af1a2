import AccelFirmware.Proofs.HostMain

/-!
# Agreement of two cores

A host and its companion are two programs, from two configurations that agree in their groups. One of them powers the
accelerator up, and the host has a handler for the signal of the companion if and only if the companion signals.
-/

namespace AccelFirmware

open Operation

/-! ## Power -/

/-- The power steps of `main`, with the functions of the split layout inlined. -/
def mainPower (taken : String → Bool) (functions : List EmittedFunction) : Execution PowerStep :=
  (inlined taken functions (EmittedFunction.bodyOf "main" functions)).filterMap powerStep?

def PowerStep.isWrite : PowerStep → Bool
  | .write _ _ _ => true
  | .drive _ => false

namespace PowerController

variable (c : PowerController) {m : GroupMask}

def steps (m : GroupMask) : PowerDirection → List PowerStep
  | .up => c.upSteps m
  | .down => c.downSteps m

theorem filter_steps (m : GroupMask) (direction : PowerDirection) :
    (c.steps m direction).filter PowerStep.isWrite = c.steps m direction := by
  cases direction <;> rfl

/-- Both directions are the same only where there is nothing to switch. -/
theorem upSteps_ne_downSteps (h : m.mask ≠ 0) : c.upSteps m ≠ c.downSteps m := by
  intro he
  have hpower : c.assignment 1 m.mask = c.assignment 1 0 := by
    have hsecond := congrArg (fun steps => steps[1]?) he
    exact Option.some.inj hsecond
  simp only [assignment, PowerStep.write.injEq, true_and] at hpower
  have hnumeral : hex m.mask.toNat = hex (0 : UInt32).toNat := by
    have htext := congrArg String.toList hpower
    simp only [String.toList_append, List.append_cancel_left_eq] at htext
    exact String.toList_injective htext
  exact h (UInt32.toNat_inj.1 (hex_injective hnumeral))

end PowerController

/-- The writes of an execution are whole sequences in these directions. -/
def Switches (c : PowerController) (m : GroupMask) (x : Execution PowerStep) (directions : List PowerDirection) : Prop :=
  ∀ rounds, (x.laps rounds).filter PowerStep.isWrite = directions.flatMap (c.steps m)

/-- Two programs of which one powers the groups up, once. -/
structure PoweredOnce (groups : GroupSet) (d : Device) (m : GroupMask) (taken taken' : String → Bool)
    (host companion : List EmittedFunction) : Prop where
  marks : m.Marks groups d
  distinct : d.powerController.steps m .up ≠ d.powerController.steps m .down
  once : ∃ ofHost ofCompanion, Switches d.powerController m (mainPower taken host) ofHost ∧
    Switches d.powerController m (mainPower taken' companion) ofCompanion ∧ (ofHost ++ ofCompanion).count .up = 1
  /-- No other function switches the power. -/
  elsewhere : ∀ f ∈ host ++ companion, f.signature.name ∉ "main" :: apiFunctions → Avoids powerKinds f.body

namespace Plan

variable {p : Plan}

theorem filter_drives (steps : List AcceleratorStep) : (drives steps).filter PowerStep.isWrite = [] := by
  simp [drives, PowerStep.isWrite]

/-- The directions in which the host switches the power. -/
def hostDirections (p : Plan) : List PowerDirection := if p.poweredWithCore then [.up] else []

/-- The directions in which the companion switches the power. -/
def companionDirections (p : Plan) : List PowerDirection :=
  (if p.sdkRuntime then (if p.config.measureEnergy then [.down] else []) ++ [.up] else []) ++
    if p.config.forever then [] else [.down]

theorem switches_companion (ht : p.config.topology = .companion) :
    Switches p.device.powerController p.mask p.mainPowerSteps p.companionDirections := by
  have hlead : p.leadPowerSteps = [] := by rw [leadPowerSteps, ht]
  have hup : p.upSteps = p.device.powerController.steps p.mask .up := rfl
  have hdown : p.downSteps = p.device.powerController.steps p.mask .down := rfl
  intro rounds
  -- The endless loop drives the accelerator and writes nothing, however many rounds are looked at.
  have hlaps : (p.mainPowerSteps.laps rounds).filter PowerStep.isWrite = p.mainPowerSteps.once.filter PowerStep.isWrite := by
    have hloop : (p.mainPowerSteps.endless.getD []).filter PowerStep.isWrite = [] := by
      simp only [mainPowerSteps]
      cases (p.config.mainSteps p.verifies).endless with
      | none => rfl
      | some steps => exact filter_drives steps
    simp [Execution.laps, List.filter_flatten, hloop]
  rw [hlaps]
  simp only [mainPowerSteps, hlead, bringUpPowerSteps, companionDirections, hup, hdown, List.nil_append, List.filter_append,
    filter_drives]
  cases p.sdkRuntime <;> cases p.config.measureEnergy <;> cases p.config.forever <;> simp [PowerController.filter_steps]

theorem switches_host : Switches p.device.powerController p.mask (.ofList p.corePowerSteps) p.hostDirections := by
  intro rounds
  rw [Execution.laps_of_ends rfl, Execution.ofList, corePowerSteps, hostDirections]
  split
  · have hup : p.upSteps = p.device.powerController.steps p.mask .up := rfl
    simpa [hup] using p.device.powerController.filter_steps p.mask .up
  · rfl

end Plan

/-! ## Signal -/

namespace Operation

/-- The write by which the companion wakes its host. -/
def isSignal : Operation → Bool
  | .write register mode value _ =>
      register = .named "MXC_SEMA->irq0" ∧ mode = .assign ∧ value = "MXC_F_SEMA_IRQ0_EN | MXC_F_SEMA_IRQ0_CM4_IRQ"
  | _ => false

def signalKinds : List Touch := [.register (.named "MXC_SEMA->irq0")]

theorem isSignal_eq_false {op : Operation} (h : ∀ t ∈ op.touches, t ∉ signalKinds) : op.isSignal = false := by
  cases op with
  | write register mode value note =>
    have hother : register ≠ .named "MXC_SEMA->irq0" := fun he =>
      h (.register register) (by simp [touches]) (by simp [signalKinds, he])
    simp [isSignal, hother]
  | _ => rfl

end Operation

/-- Some function has the write, be it in a loop or under a guard. Whether it is reached does not matter: a companion that runs
forever has the write behind its loop. -/
def Signals (functions : List EmittedFunction) : Prop :=
  ∃ f ∈ functions, everyStepOfAll (fun op => !op.isSignal) f.body = false

def DefinesHandler (functions : List EmittedFunction) : Prop :=
  ∃ f ∈ functions, f.sink = .main ∧ f.signature.name = "WakeISR"

/-- The wake steps of `main`, with the functions of the split layout inlined. -/
def mainWake (taken : String → Bool) (functions : List EmittedFunction) : Execution WakeStep :=
  (inlined taken functions (EmittedFunction.bodyOf "main" functions)).filterMap wakeStep?

/-- There is a handler for the signal: installed once the semaphores have their clock, ahead of the clock of the companion. -/
structure Awaits (taken : String → Bool) (functions : List EmittedFunction) : Prop where
  defined : DefinesHandler functions
  installed : ∀ rounds, (mainWake taken functions).laps rounds = [.semaphoreClock, .handler, .companionClock]

/-- The host awaits the signal if and only if the companion gives it; otherwise there is no trace of the handler. -/
structure WakeAgreement (taken : String → Bool) (host companion : List EmittedFunction) : Prop where
  agreed : Awaits taken host ↔ Signals companion
  unsignalled : ¬ Signals companion → ¬ DefinesHandler host ∧ ∀ rounds, .handler ∉ (mainWake taken host).laps rounds

/-- The operations of the function that a step defines as a whole. -/
def EmitStep.bodies : EmitStep → List Operation
  | .function _ _ body _ => body
  | _ => []

namespace Plan

variable {p : Plan}

open AccelFirmware.Action EmitStep

theorem definesHandler_iff (ht : p.config.topology = .armHost) : DefinesHandler p.functions ↔ p.hostsWakeHandler = true := by
  have ho : p.owns = false := by simp [owns, ht, Topology.ownsAccelerator]
  have hdefined : DefinesHandler p.functions ↔ ⟨.main, "WakeISR"⟩ ∈ p.definitions := by
    simp [DefinesHandler, ← functions_definitions, EmittedFunction.definition]
  rw [hdefined]
  simp only [definitions, failDefinitions, libraryDefinitions, unitDefinitions, hostDefinitions, apiDefinitions, ho]
  cases p.hostsWakeHandler <;> cases p.bringsHelper <;> simp

theorem Coherent.awaits_iff (h : p.Coherent) (ht : p.config.topology = .armHost) (taken : String → Bool) :
    Awaits taken p.functions ↔ p.hostsWakeHandler = true := by
  constructor
  · rintro ⟨hdefined, -⟩
    exact (definesHandler_iff ht).1 hdefined
  · intro hw
    refine ⟨(definesHandler_iff ht).2 hw, fun rounds => ?_⟩
    rw [mainWake, h.wake_host taken ht, Execution.laps_of_ends rfl, Execution.ofList, wakeSequence, if_pos hw]

/-! ## Companions without interrupts -/

theorem touches_body {f : EmittedFunction} {actions : List Action} (hf : f ∈ gather whole actions) :
    touchesOfAll f.body ⊆ touchesOfAll (gather bodies actions) := by
  obtain ⟨step, hstep, hf⟩ := List.mem_flatMap.1 hf
  obtain ⟨before, after, hsplit⟩ := List.append_of_mem hstep
  cases step with
  | function sink signature body result =>
    obtain rfl := List.mem_singleton.1 hf
    intro t ht
    simp [gather, hsplit, bodies, ht]
  | _ => cases hf

/-- The registers of the power and of the signal. -/
def coreKinds : List Touch := powerKinds ++ signalKinds

theorem Coherent.avoids_units (h : p.Coherent) : ∀ u ∈ p.units, Avoids coreKinds u.body := by
  have hlayer (s : LayerStyle) (weights : WeightMatrix) (bias : Option (List Int)) :
      Avoids coreKinds (s.weightedLayer weights bias).body := avoids_of_all rfl
  have hsoftmax (s : LayerStyle) : Avoids coreKinds s.softmaxOnly.body := by
    simp only [LayerStyle.softmaxOnly]
    cases s.width <;> exact avoids_of_all rfl
  have hverification (s : LayerStyle) (expected : List Int) : Avoids coreKinds (s.comparison expected).body :=
    avoids_of_all rfl
  obtain ⟨i, hu, -⟩ := h.units
  obtain ⟨hnil, -⟩ | ⟨-, kind, u, -, hl, hus⟩ := classificationUnits_ok hu
  · simp [hnil]
  · have hfirst : Avoids coreKinds u.body := by
      obtain ⟨-, rfl⟩ | ⟨-, weights, -, -, rfl⟩ := LayerStyle.layer_ok hl
      · exact hsoftmax _
      · exact hlayer _ _ _
    rw [hus]
    cases i.expected <;> simp [hfirst, hverification]

theorem avoids_handlerBody : Avoids coreKinds p.handlerBody := by
  have hgroups (groups : List UInt8) :
      Avoids coreKinds (groups.map fun g => writeAt (p.device.ctlAddress g) .keepBits p.acknowledgement) := by
    induction groups with
    | nil => exact avoids_of_all rfl
    | cons g groups ih =>
      rw [List.map_cons, ← List.singleton_append, avoids_append]
      exact ⟨avoids_of_all rfl, ih⟩
  have hheading : Avoids coreKinds [.comment "Acknowledge interrupt to all groups"] := avoids_of_all rfl
  have hrest : Avoids coreKinds ([Operation.blank] ++ (if p.embedded && !p.config.measureEnergy then
      [.statement "CNN_COMPLETE;" (some "Signal that processing is complete")] else []) ++ [.verbatim timerStop] ++
      if p.config.topology = .companion then
        [.blank, callProvided "NVIC_ClearPendingIRQ" ["CNN_IRQn"], callProvided "NVIC_ClearPendingEVENT" ["CNN_IRQn"]]
      else []) := by
    (repeat' split) <;> exact avoids_of_all rfl
  simpa [handlerBody] using avoids_append.2 ⟨hheading, avoids_append.2 ⟨hgroups p.config.groups.members, hrest⟩⟩

theorem avoids_applicationState (sink : Sink) : Avoids coreKinds (gather bodies (p.applicationState sink)) := by
  have hfail : Avoids coreKinds p.failBody := by
    simp only [failBody]
    split <;> exact avoids_of_all rfl
  simp only [applicationState]
  cases p.sdkRuntime <;> cases p.embedded <;> simp [bodies, hfail]

theorem avoids_library (sink : Sink) : Avoids coreKinds (gather bodies (p.completionFunction sink :: p.groupControl sink)) := by
  have hcompletion : Avoids coreKinds (gather bodies [p.completionFunction sink]) := by
    have hpoll : Avoids coreKinds [.waitUntil p.pollCondition] := avoids_of_all rfl
    simp only [completionFunction]
    cases p.waitStrategy <;> simp [bodies, avoids_handlerBody, hpoll]
  have hcontrol : Avoids coreKinds (gather bodies (p.groupControl sink)) := by
    simp only [groupControl]
    cases p.config.master with
    | none => exact avoids_of_all rfl
    | some master => cases p.waitStrategy <;> exact avoids_of_all rfl
  rw [← List.singleton_append, gather_append]
  exact avoids_append.2 ⟨hcompletion, hcontrol⟩

theorem avoids_declarations : Avoids coreKinds (gather bodies p.declarations) := by
  have hhead (sink : Sink) (part : Part) : Avoids coreKinds (gather bodies (p.sourceHead sink part)) := by
    simp only [sourceHead]
    cases p.owns <;> cases part <;>
      simp [bodies, Part.isApplication, Part.isLibrary, avoids_applicationState, avoids_library]
  simp only [declarations]
  cases p.config.layout <;> simp [hhead]

theorem avoids_unitActions {units : List CodeUnit} (h : ∀ u ∈ units, Avoids coreKinds u.body) :
    Avoids coreKinds (gather bodies (units.flatMap unitActions)) := by
  induction units with
  | nil => exact avoids_of_all rfl
  | cons u us ih =>
    obtain ⟨hu, hus⟩ := List.forall_mem_cons.1 h
    simp [gather_unitActions bodies (fun _ _ _ => rfl), bodies, hu, ih hus]

/-- Among the functions at file scope there is no more than the handler of the host that touches the registers of the signal. -/
theorem Coherent.avoids_fileScopeFunctions (h : p.Coherent) :
    Avoids powerKinds (gather bodies p.fileScopeFunctions) ∧
      (p.hostsWakeHandler = false → Avoids signalKinds (gather bodies p.fileScopeFunctions)) := by
  have howner : Avoids coreKinds (gather bodies (if p.owns then p.units.flatMap unitActions ++
      (if p.config.retrieval = .unload then [.push .main [outputBuffer p.config.outputWidth, .blank]] else []) else [])) := by
    cases p.owns with
    | false => exact avoids_nil
    | true =>
      simp only [if_true, gather_append, avoids_append, avoids_unitActions h.avoids_units, true_and]
      split <;> exact avoids_nil
  have hhelper : Avoids coreKinds (gather bodies (if p.bringsHelper then [wakeStatusHelper] else [])) := by
    split
    · exact avoids_of_all rfl
    · exact avoids_nil
  have hhandler : Avoids powerKinds (gather bodies (if p.hostsWakeHandler then [wakeHandler] else [])) := by
    split
    · exact avoids_of_all rfl
    · exact avoids_nil
  have hpower : powerKinds ⊆ coreKinds := List.subset_append_left _ _
  have hsignal : signalKinds ⊆ coreKinds := List.subset_append_right _ _
  have hfunctions : p.fileScopeFunctions = (if p.owns then p.units.flatMap unitActions ++
      (if p.config.retrieval = .unload then [Action.push .main [outputBuffer p.config.outputWidth, .blank]] else []) else []) ++
      (if p.hostsWakeHandler then [wakeHandler] else []) ++ if p.bringsHelper then [wakeStatusHelper] else [] := rfl
  rw [hfunctions]
  simp only [gather_append, avoids_append]
  refine ⟨⟨⟨howner.mono hpower, hhandler⟩, hhelper.mono hpower⟩, fun hw => ?_⟩
  rw [hw]
  exact ⟨⟨howner.mono hsignal, avoids_nil⟩, hhelper.mono hsignal⟩

/-- No function ahead of `main` touches the registers of the power. Without a handler for the signal, none touches those of the
signal either. -/
theorem Coherent.avoids_opening (h : p.Coherent) :
    Avoids powerKinds (gather bodies p.opening) ∧
      (p.hostsWakeHandler = false → Avoids signalKinds (gather bodies p.opening)) := by
  obtain ⟨hpower, hsignal⟩ := h.avoids_fileScopeFunctions
  simp only [opening, gather_append, avoids_append]
  exact ⟨⟨avoids_declarations.mono (List.subset_append_left _ _), hpower⟩,
    fun hw => ⟨avoids_declarations.mono (List.subset_append_right _ _), hsignal hw⟩⟩

theorem Coherent.power_elsewhere (h : p.Coherent) {f : EmittedFunction} (hf : f ∈ p.functions)
    (hname : f.signature.name ∉ "main" :: apiFunctions) : Avoids powerKinds f.body := by
  rw [functions_eq] at hf
  rcases List.mem_append.1 hf with hf | hf
  · rcases List.mem_append.1 hf with hf | hf
    · exact fun t ht => h.avoids_opening.1 t (touches_body hf ht)
    · have hdefinition : f.definition ∈ p.apiDefinitions := by
        rw [← p.define_inside.whole]
        exact List.mem_map_of_mem hf
      have hapi : ∀ definition ∈ p.apiDefinitions, definition.name ∈ apiFunctions := by
        simp only [apiDefinitions]
        (repeat' split) <;> simp [apiFunctions]
      exact absurd (List.mem_cons_of_mem _ (hapi _ hdefinition)) hname
  · obtain rfl := List.mem_singleton.1 hf
    exact absurd (List.mem_cons_self ..) hname

theorem avoids_shutdown (hr : p.sdkRuntime = false) : Avoids signalKinds p.shutdown := by
  simp only [shutdown, hr]
  refine avoids_append.2 ⟨avoids_of_all rfl, avoids_of_all ?_⟩
  rw [touches_powerSequence]
  cases p.device.powerController <;> decide +kernel

theorem avoids_ending (hr : p.sdkRuntime = false) : Avoids signalKinds (gather (pushed .main) p.ending) := by
  simp only [ending, acceleratorShutdown, isSplit_of_bare hr]
  cases p.config.forever with
  | true =>
    have hloop : Avoids signalKinds p.endlessLoop := avoids_of_subset p.touches_endlessLoop rfl
    simpa [pushed] using hloop
  | false =>
    have hprint : Avoids signalKinds p.classPrintout := avoids_of_all rfl
    cases p.printsClasses <;> simp [pushed, p.avoids_shutdown hr, hprint]

theorem avoids_inside (ht : p.config.topology = .companion) (hr : p.sdkRuntime = false) :
    Avoids signalKinds (gather (pushed .main) p.inside) := by
  have ho : p.owns = true := by simp [owns, ht, Topology.ownsAccelerator]
  have hs := isSplit_of_bare hr
  have hcore : Avoids signalKinds p.coreOperations := by
    rw [coreOperations, ht]
    exact avoids_of_subset p.touches_companionBringUp rfl
  have hcamera : Avoids signalKinds p.camera := avoids_of_subset p.touches_camera rfl
  have hbringUp : gather (pushed .main) p.acceleratorBringUp = [] := by
    simp [acceleratorBringUp, hr]
  have hruns : Avoids signalKinds p.runOps := avoids_of_subset p.touches_runOps rfl
  have hboost : Avoids signalKinds (gather (pushed .main) p.boostOff) := by
    simp only [boostOff, hs]
    cases p.config.forever <;> cases p.config.boost <;> exact avoids_of_all rfl
  have hepilogue : Avoids signalKinds p.epilogue := by
    simp only [epilogue, handoff, ht, hr]
    cases p.sdk <;> exact avoids_of_all rfl
  have hretrieve : Avoids signalKinds (gather (pushed .main) p.retrieve) := avoids_of_subset p.touches_retrieve rfl
  rw [inside_eq ho, hbringUp]
  simp only [leadOps, avoids_append, p.avoids_locals, hcore, hcamera, hruns, hboost, hretrieve, p.avoids_ending hr,
    hepilogue, List.append_nil, and_self]

theorem Coherent.signals_iff (h : p.Coherent) (ht : p.config.topology = .companion) :
    Signals p.functions ↔ p.sdkRuntime = true := by
  constructor
  · rintro ⟨f, hf, hsignal⟩
    by_contra hr
    have hr : p.sdkRuntime = false := by simpa using hr
    -- Without interrupts there is one layout only, in which `main` brings no functions with it.
    have hapi : gather whole p.inside = [] := by
      have hdefinitions := p.define_inside.whole
      simpa [apiDefinitions, isSplit_of_bare hr] using hdefinitions
    have havoids : Avoids signalKinds f.body := by
      rw [functions_eq, hapi, List.append_nil] at hf
      rcases List.mem_append.1 hf with hf | hf
      · exact fun t htouch => h.avoids_opening.2 (by simp [hostsWakeHandler, ht]) t (touches_body hf htouch)
      · obtain rfl := List.mem_singleton.1 hf
        exact avoids_inside ht hr
    rw [everyStepOfAll_of_touches (fun op hop => by simp [isSignal_eq_false hop]) f.body havoids] at hsignal
    cases hsignal
  · intro hr
    have ho : p.owns = true := by simp [owns, ht, Topology.ownsAccelerator]
    have hsignal : everyStepOfAll (fun op => !op.isSignal) p.epilogue = false := by
      simp only [epilogue, handoff, ht, hr]
      rfl
    refine ⟨⟨.main, .status "main", gather (pushed .main) p.inside, some "0"⟩, by simp [functions_eq], ?_⟩
    simp only [inside_eq ho, everyStepOfAll_append, hsignal, Bool.and_false]

/-! ## Agreement -/

/-- A host with the SDK has a companion that is embedded. -/
theorem sdk_of_targets {q : Plan}
    (h : (p.config.target, q.config.target) ∈
      [(Target.simulation, Target.simulation), (.embedded, .embedded), (.bareMetalArm, .embedded)]) :
    p.sdk = q.embedded := by
  simp only [List.mem_cons, Prod.mk.injEq, List.not_mem_nil, or_false] at h
  rcases h with ⟨hp, hq⟩ | ⟨hp, hq⟩ | ⟨hp, hq⟩ <;> simp [sdk, embedded, Configuration.isEmbedded, hp, hq, Target.usesSdk]

theorem Coherent.poweredOnce {q : Plan} (h : p.Coherent) (h' : q.Coherent) (hp : p.config.topology = .armHost)
    (hq : q.config.topology = .companion) (hd : p.device = q.device) (hm : p.mask = q.mask)
    (hone : p.poweredWithCore = !q.sdkRuntime) (taken taken' : String → Bool) :
    PoweredOnce p.config.groups p.device p.mask taken taken' p.functions q.functions := by
  have ho : q.owns = true := by simp [owns, hq, Topology.ownsAccelerator]
  have hhost : Switches p.device.powerController p.mask (mainPower taken p.functions) p.hostDirections := by
    rw [mainPower, h.power_host taken hp]
    exact p.switches_host
  have hcompanion : Switches p.device.powerController p.mask (mainPower taken' q.functions) q.companionDirections := by
    rw [mainPower, h'.power_main ho taken', hd, hm]
    exact switches_companion hq
  refine ⟨h.marks, ?_, ⟨_, _, hhost, hcompanion, ?_⟩, fun f hf => ?_⟩
  · refine p.device.powerController.upSteps_ne_downSteps fun hzero => ?_
    obtain ⟨g, hg⟩ : ∃ g, g ∈ p.config.groups := by
      have hx := p.config.no_conflict (x := (p.config.groups.members.isEmpty, .noGroups))
        (by simp [Settings.conflicts, Settings.groupConflicts])
      exact List.exists_mem_of_ne_nil _ (by simpa using hx)
    -- Some group is in use, so its bit is set in the mask.
    have hbit := (h.marks.used g.toNat).2 ⟨g, hg, rfl⟩
    simp [hzero] at hbit
  · rw [hostDirections, hone, companionDirections]
    cases q.sdkRuntime <;> cases q.config.measureEnergy <;> cases q.config.forever <;> rfl
  · rcases List.mem_append.1 hf with hf | hf
    · exact h.power_elsewhere hf
    · exact h'.power_elsewhere hf

theorem Coherent.wakeAgreement {q : Plan} (h : p.Coherent) (h' : q.Coherent) (hp : p.config.topology = .armHost)
    (hq : q.config.topology = .companion) (hone : p.hostsWakeHandler = q.sdkRuntime) (taken : String → Bool) :
    WakeAgreement taken p.functions q.functions := by
  have hsignals : Signals q.functions ↔ p.hostsWakeHandler = true := by
    rw [hone]
    exact h'.signals_iff hq
  refine ⟨(h.awaits_iff hp taken).trans hsignals.symm, fun hsilent => ?_⟩
  rw [hsignals] at hsilent
  refine ⟨fun hdefined => hsilent ((definesHandler_iff hp).1 hdefined), fun rounds => ?_⟩
  rw [mainWake, h.wake_host taken hp, Execution.laps_of_ends rfl, Execution.ofList, wakeSequence, if_neg hsilent]
  decide

end Plan

namespace Synthesis

variable {c c' : Configuration} {d : Device} {i i' : Inputs} {s s' : Synthesis}

/-- The programs of a host and its companion agree: one of the two powers the accelerator up, once, and the host awaits the
signal of the companion exactly where the companion gives it. -/
theorem cores_agree (h : run c d i = .ok s) (h' : run c' d i' = .ok s') (hhost : c.topology = .armHost)
    (hcompanion : c'.topology = .companion) (hgroups : c.groups = c'.groups)
    (htargets : (c.target, c'.target) ∈
      [(Target.simulation, Target.simulation), (.embedded, .embedded), (.bareMetalArm, .embedded)])
    (taken taken' : String → Bool) :
    s.WritesFunctions ∧ s'.WritesFunctions ∧
      PoweredOnce c.groups d s.plan.mask taken taken' s.plan.functions s'.plan.functions ∧
      WakeAgreement taken s.plan.functions s'.plan.functions := by
  have hwrites := writes_functions h
  have hwrites' := writes_functions h'
  obtain ⟨hp, rfl, rfl, _⟩ := run_ok h
  obtain ⟨hq, rfl, hdevice, _⟩ := run_ok h'
  have hsdk : s.plan.sdk = s'.plan.embedded := Plan.sdk_of_targets htargets
  have hcurrent : s.plan.device.family.isLegacy = false := hp.current (by simp [hhost, Topology.isDualCore])
  have hpowered : s.plan.poweredWithCore = !s'.plan.sdkRuntime := by
    simp [Plan.poweredWithCore, Plan.sdkRuntime, hsdk, hcurrent, hdevice]
  have hwakes : s.plan.hostsWakeHandler = s'.plan.sdkRuntime := by
    simp [Plan.hostsWakeHandler, Plan.sdkRuntime, hsdk, hhost, hdevice]
  have hmask : s.plan.mask = s'.plan.mask := by
    have hmake := hp.mask
    rw [hgroups, ← hdevice, hq.mask] at hmake
    exact (Except.ok.inj hmake).symm
  exact ⟨hwrites, hwrites', hp.poweredOnce hq hhost hcompanion hdevice.symm hmask hpowered taken taken',
    hp.wakeAgreement hq hhost hcompanion hwakes taken⟩

/-- A host that runs on bare metal. -/
def bareHost : Configuration :=
  ⟨{ Settings.initial with groups := .ofList [0, 2], topology := .armHost, target := .bareMetalArm }, by decide⟩

def embeddedCompanion : Configuration :=
  ⟨{ Settings.initial with groups := .ofList [0, 2], topology := .companion, target := .embedded }, by decide⟩

theorem cores_agree_ai85 : ∃ s s', run bareHost .ai85 .empty = .ok s ∧ run embeddedCompanion .ai85 .empty = .ok s' ∧
    s.WritesFunctions ∧ s'.WritesFunctions ∧
    ∀ taken taken', PoweredOnce bareHost.groups .ai85 s.plan.mask taken taken' s.plan.functions s'.plan.functions ∧
      WakeAgreement taken s.plan.functions s'.plan.functions := by
  obtain ⟨s, hs⟩ := exists_run (c := bareHost) (d := .ai85) (i := .empty) (by decide)
  obtain ⟨s', hs'⟩ := exists_run (c := embeddedCompanion) (d := .ai85) (i := .empty) (by decide)
  have hagree := cores_agree hs hs' rfl rfl rfl (by decide)
  obtain ⟨hhost, hcompanion, -⟩ := hagree (fun _ => true) fun _ => true
  exact ⟨s, s', hs, hs', hhost, hcompanion, fun taken taken' => (hagree taken taken').2.2⟩

end Synthesis

end AccelFirmware
