import AccelFirmware.Proofs.Functions
import Mathlib.Data.List.Basic

/-!
# Programs run

A plan that has passed the checks of a synthesis is coherent, and the actions of a coherent plan are never refused: function
names are distinct, every reference has its definition, and the stages follow each other as they may.
-/

namespace AccelFirmware

/-! ## Classification code -/

namespace LayerStyle

/-- The array that the descriptor of a layer's arrays stands for. -/
def decimals (name : String) (values : List Int) : ArrayLiteral :=
  ⟨name, values, ⟨"", ⟨false, 0, .decimal⟩⟩, 16⟩

/-- The descriptor of a layer's arrays is well-formed, whatever the array. -/
theorem array_eq (name : String) (values : List Int) : array name values = .ok (decimals name values) := by
  have hparse : ElementFormat.parse "%d" = .ok ⟨"", ⟨false, 0, .decimal⟩⟩ := by decide +kernel
  simp [array, ArrayLiteral.make, hparse, decimals]

variable (s : LayerStyle)

/-- The fully-connected layer with its literals. -/
def weightedLayer (w : WeightMatrix) (bias : Option (List Int)) : CodeUnit :=
  s.kernelCode w.cols bias.isSome
    ((.weights, s.literal (decimals "FC_WEIGHTS" (s.arrange w))) ::
      (bias.map fun b => (Sink.weights, s.literal (decimals "FC_BIAS" b))).toList)

theorem fullyConnected_eq (w : WeightMatrix) (bias : Option (List Int)) :
    s.fullyConnected w bias = .ok (s.weightedLayer w bias) := by
  cases bias <;> simp [fullyConnected, array_eq, weightedLayer, bind, Except.bind, pure, Except.pure, Functor.map, Except.map]

/-- The comparison with its literal. -/
def comparison (expected : List Int) : CodeUnit :=
  comparisonCode (s.literal (decimals "FC_EXPECTED" expected))

theorem verification_eq (expected : List Int) : s.verification expected = .ok (s.comparison expected) := by
  simp [verification, array_eq, comparison, bind, Except.bind, pure, Except.pure]

theorem mapM_verification (expected : Option (List Int)) :
    expected.mapM s.verification = .ok (expected.map s.comparison) := by
  cases expected <;> simp [verification_eq, pure, Except.pure, Functor.map, Except.map]

end LayerStyle

theorem LayerStyle.layer_ok {s : LayerStyle} {w : Option WeightMatrix} {b : Option (List Int)} {kind : LayerKind}
    {u : CodeUnit} (h : s.layer w b kind = .ok u) :
    (kind = .softmaxOnly ∧ u = s.softmaxOnly) ∨
    (kind = .fullyConnected ∧ ∃ m, w = some m ∧ m.rows * m.cols = m.values.length ∧ u = s.weightedLayer m b) := by
  cases kind with
  | softmaxOnly =>
    cases h
    exact Or.inl ⟨rfl, rfl⟩
  | fullyConnected =>
    right
    cases w with
    | none => cases h
    | some m =>
      simp only [layer, WeightMatrix.checkShape] at h
      by_cases hs : m.rows * m.cols = m.values.length
      · rw [if_pos hs, fullyConnected_eq] at h
        cases h
        exact ⟨rfl, m, rfl, hs, rfl⟩
      · rw [if_neg hs] at h
        cases h

/-- The classification code of an owner: its layer, then the comparison if there is expected output. -/
theorem classificationUnits_ok {c : Configuration} {i : Inputs} {us : List CodeUnit}
    (h : classificationUnits c i = .ok us) :
    us = [] ∧ (c.retrieval = .unload ∨ c.topology.ownsAccelerator = false) ∨
    c.topology.ownsAccelerator = true ∧ ∃ kind u, LayerKind.ofRetrieval? c.retrieval = some kind ∧
      (LayerStyle.standard c.outputWidth).layer i.weights i.bias kind = .ok u ∧
      us = u :: (i.expected.map (LayerStyle.standard c.outputWidth).comparison).toList := by
  simp only [classificationUnits] at h
  cases hk : LayerKind.ofRetrieval? c.retrieval with
  | none =>
    rw [hk] at h
    cases h
    refine Or.inl ⟨rfl, Or.inl ?_⟩
    cases hr : c.retrieval <;> simp [hr, LayerKind.ofRetrieval?] at hk
    rfl
  | some kind =>
    rw [hk] at h
    cases ho : c.topology.ownsAccelerator with
    | false =>
      simp only [ho] at h
      cases h
      exact Or.inl ⟨rfl, Or.inr rfl⟩
    | true =>
      simp only [ho, if_true] at h
      cases hl : (LayerStyle.standard c.outputWidth).layer i.weights i.bias kind with
      | error e => rw [hl] at h; cases h
      | ok u =>
        rw [hl, LayerStyle.mapM_verification] at h
        cases h
        exact Or.inr ⟨rfl, kind, u, rfl, hl, rfl⟩

theorem LayerStyle.layer_name {s : LayerStyle} {w : Option WeightMatrix} {b : Option (List Int)} {kind : LayerKind}
    {u : CodeUnit} (h : s.layer w b kind = .ok u) : u.signature.name = kind.functionName := by
  obtain ⟨rfl, rfl⟩ | ⟨rfl, m, rfl, _, rfl⟩ := layer_ok h
  · rfl
  · rfl

/-- A unit that refers to no function of the program. -/
def CodeUnit.IsSilent (u : CodeUnit) : Prop :=
  Operation.referencesOfAll u.declarations = [] ∧ Operation.referencesOfAll u.body = []

theorem LayerStyle.layer_silent {s : LayerStyle} {w : Option WeightMatrix} {b : Option (List Int)} {kind : LayerKind}
    {u : CodeUnit} (h : s.layer w b kind = .ok u) : u.IsSilent := by
  obtain ⟨rfl, rfl⟩ | ⟨rfl, m, rfl, _, rfl⟩ := layer_ok h
  · cases hw : s.width <;>
      simp [CodeUnit.IsSilent, softmaxOnly, hw, Operation.referencesOfAll, Operation.references, outputBuffer,
        Operation.calleeReferences]
  · cases hw : s.width <;> cases b <;>
      simp [CodeUnit.IsSilent, weightedLayer, kernelCode, hw, Operation.referencesOfAll, Operation.references, outputBuffer,
        Operation.calleeReferences]

/-! ## Legal configurations -/

namespace Configuration

variable (c : Configuration)

theorem legal_iff (s : Settings) : s.conflict? = none ↔ ∀ x ∈ s.conflicts, x.1 = false := by
  simp [Settings.conflict?]

theorem no_conflict {x : Bool × ConfigError} (hx : x ∈ c.conflicts) : x.1 = false :=
  (legal_iff c.toSettings).1 c.legal x hx

theorem master_of_oneshot (h : c.oneshot > 0) : c.master.isSome = true := by
  have hx := c.no_conflict (x := (c.master.isNone && c.oneshot > 0, .masterRequired .oneshot))
    (by simp [Settings.conflicts, Settings.groupConflicts])
  cases hm : c.master <;> simp_all

theorem master_of_stopStart (h : c.stopStart = true) : c.master.isSome = true := by
  have hx := c.no_conflict (x := (c.master.isNone && c.stopStart, .masterRequired .stopStart))
    (by simp [Settings.conflicts, Settings.groupConflicts])
  cases hm : c.master <;> simp_all

theorem master_mem {master : UInt8} (h : c.master = some master) : master ∈ c.groups := by
  have hx := c.no_conflict (x := (c.master.any fun m => !c.groups.members.contains m, .masterNotInGroups (c.master.getD 0)))
    (by simp [Settings.conflicts, Settings.groupConflicts])
  have hmember : master ∈ c.groups.members := by simpa [h] using hx
  exact hmember

theorem embedded_of_split (h : c.isSplit = true) : c.isEmbedded = true := by
  have hx := c.no_conflict (x := (c.layout = .splitApi && c.target ≠ .embedded, .unsupportedTarget .splitLayout c.target))
    (by simp [Settings.conflicts, Settings.targetConflicts])
  simp_all [isSplit, isEmbedded]

theorem split_of_measureEnergy (h : c.measureEnergy = true) : c.isSplit = true := by
  have hx := c.no_conflict (x := (c.measureEnergy && c.layout ≠ .splitApi, .requires .energyMeasurement .splitLayout))
    (by simp [Settings.conflicts, Settings.targetConflicts])
  simp_all [isSplit]

end Configuration

/-! ## Coherent plans -/

namespace Plan

/-- What the checks of a synthesis promise about its plan. -/
structure Coherent (p : Plan) : Prop where
  sound : p.device.errors = []
  companion : p.config.topology.isDualCore = true → p.device.companion.isSome = true
  pll : p.config.pll = true → p.device.clocks.pll.isSome = true
  golden : p.verifies = true → p.config.retrieval = .fullyConnected
  mask : GroupMask.make p.config.groups p.device = .ok p.mask
  units : ∃ i, classificationUnits p.config i = .ok p.units ∧ i.expected.isSome = p.verifies

variable {p : Plan}

def layerNames (p : Plan) : List String :=
  match LayerKind.ofRetrieval? p.config.retrieval with
  | none => []
  | some kind => kind.functionName :: if p.verifies then ["fc_verify"] else []

theorem Coherent.unit_names (h : p.Coherent) (ho : p.owns = true) :
    p.units.map (·.signature.name) = p.layerNames := by
  obtain ⟨i, hu, hv⟩ := h.units
  obtain ⟨hnil, hnone | howner⟩ | ⟨_, kind, u, hk, hl, hus⟩ := classificationUnits_ok hu
  · simp [hnil, layerNames, hnone, LayerKind.ofRetrieval?]
  · rw [owns, howner] at ho
    cases ho
  · rw [hus, layerNames, hk, ← hv]
    cases i.expected <;> simp [LayerStyle.layer_name hl, LayerStyle.comparison, LayerStyle.comparisonCode, Signature.status]

theorem Coherent.unitDefinition_names (h : p.Coherent) (ho : p.owns = true) :
    p.unitDefinitions.map Definition.name = p.layerNames := by
  rw [← h.unit_names ho, unitDefinitions, if_pos ho, List.map_map]
  rfl

theorem Coherent.unit_silent (h : p.Coherent) {u : CodeUnit} (hu : u ∈ p.units) : u.IsSilent := by
  obtain ⟨i, hus, _⟩ := h.units
  obtain ⟨hnil, _⟩ | ⟨_, kind, u', _, hl, hus⟩ := classificationUnits_ok hus
  · rw [hnil] at hu
    cases hu
  · rw [hus] at hu
    rcases List.mem_cons.1 hu with rfl | hu
    · exact LayerStyle.layer_silent hl
    · obtain ⟨e, _, rfl⟩ : ∃ e, i.expected = some e ∧ (LayerStyle.standard p.config.outputWidth).comparison e = u := by
        simpa using hu
      exact ⟨rfl, rfl⟩

/-! ## Names -/

/-- Every function that a program can have, in the order of their ends. -/
def allNames : List String :=
  ["fail", "CNN_ISR", "CNN_IRQHandler", "cnn_wait", "cnn_continue", "cnn_stop", "fc_layer", "softmax_layer", "fc_verify",
   "WakeISR", "_MXC_LP_ClearWakeStatus", "cnn_enable", "cnn_boost_enable", "cnn_boost_disable", "cnn_disable", "main"]

theorem Coherent.names_sublist (h : p.Coherent) :
    (p.definitions.map Definition.name).Sublist allNames := by
  have hfail : (p.failDefinitions.map Definition.name).Sublist ["fail"] := by
    simp only [failDefinitions]
    split <;> simp
  have hlibrary : (p.libraryDefinitions.map Definition.name).Sublist
      ["CNN_ISR", "CNN_IRQHandler", "cnn_wait", "cnn_continue", "cnn_stop"] := by
    have hname : [p.completionName].Sublist ["CNN_ISR", "CNN_IRQHandler", "cnn_wait"] := by
      simp only [completionName, handlerSignature]
      cases p.waitStrategy <;> cases p.config.topology <;> simp [Signature.procedure]
    simp only [libraryDefinitions]
    cases p.owns with
    | false => simp
    | true =>
      refine hname.append (?_ : List.Sublist _ ["cnn_continue", "cnn_stop"])
      split <;> simp
  have hunits : (p.unitDefinitions.map Definition.name).Sublist ["fc_layer", "softmax_layer", "fc_verify"] := by
    simp only [unitDefinitions]
    cases ho : p.owns with
    | false => simp
    | true =>
      have hnames := h.unit_names ho
      simp only [if_true, List.map_map, Function.comp_def, hnames, layerNames]
      cases LayerKind.ofRetrieval? p.config.retrieval with
      | none => simp
      | some kind => cases kind <;> cases p.verifies <;> simp [LayerKind.functionName]
  have hhost : (p.hostDefinitions.map Definition.name).Sublist ["WakeISR", "_MXC_LP_ClearWakeStatus"] := by
    simp only [hostDefinitions]
    cases p.hostsWakeHandler <;> cases p.bringsHelper <;> simp
  have hapi : (p.apiDefinitions.map Definition.name).Sublist
      ["cnn_enable", "cnn_boost_enable", "cnn_boost_disable", "cnn_disable"] := by
    simp only [apiDefinitions]
    cases p.owns <;> cases p.config.isSplit <;> cases p.sdkRuntime <;> simp
  rw [definitions]
  simp only [List.map_append]
  exact ((((hfail.append hlibrary).append hunits).append hhost).append hapi).append (List.Sublist.refl ["main"])

theorem Coherent.names_nodup (h : p.Coherent) : (p.definitions.map Definition.name).Nodup :=
  h.names_sublist.nodup (by decide)

/-! ## References -/

/-- The functions of a program apart from `main`. -/
def callees (p : Plan) : List Definition :=
  p.failDefinitions ++ p.libraryDefinitions ++ p.unitDefinitions ++ p.hostDefinitions ++ p.apiDefinitions

theorem definitions_eq (p : Plan) : p.definitions = p.callees ++ [⟨.main, "main"⟩] := rfl

def Has (p : Plan) (name : String) : Prop := name ∈ p.callees.map Definition.name

theorem has_of_mem (ds : List Definition) (hds : ds ⊆ p.callees) {name : String}
    (h : name ∈ ds.map Definition.name) : p.Has name :=
  List.map_subset _ hds h

theorem has_fail (ho : p.owns = true) (he : p.embedded = true) : p.Has "fail" :=
  has_of_mem p.failDefinitions (fun d hd => by simp [callees, hd]) (by simp [failDefinitions, ho, he])

theorem has_completion (ho : p.owns = true) : p.Has p.completionName :=
  has_of_mem p.libraryDefinitions (fun d hd => by simp [callees, hd]) (by simp [libraryDefinitions, ho])

theorem has_control (ho : p.owns = true) (hm : p.config.master.isSome = true) :
    p.Has "cnn_continue" ∧ p.Has "cnn_stop" := by
  constructor <;>
    exact has_of_mem p.libraryDefinitions (fun d hd => by simp [callees, hd])
      (by simp [libraryDefinitions, ho, hm])

theorem Coherent.has_layer (h : p.Coherent) (ho : p.owns = true) (name : String) (hn : name ∈ p.layerNames) :
    p.Has name :=
  has_of_mem p.unitDefinitions (fun d hd => by simp [callees, hd])
    (by simpa [unitDefinitions, ho, ← h.unit_names ho] using hn)

theorem has_wake (hw : p.hostsWakeHandler = true) : p.Has "WakeISR" :=
  has_of_mem p.hostDefinitions (fun d hd => by simp [callees, hd]) (by simp [hostDefinitions, hw])

theorem has_helper (hb : p.bringsHelper = true) : p.Has "_MXC_LP_ClearWakeStatus" :=
  has_of_mem p.hostDefinitions (fun d hd => by simp [callees, hd]) (by simp [hostDefinitions, hb])

theorem sdkRuntime_of_split (hs : p.config.isSplit = true) : p.sdkRuntime = true := by
  simp [sdkRuntime, embedded, p.config.embedded_of_split hs]

theorem isSplit_of_bare (hr : p.sdkRuntime = false) : p.config.isSplit = false := by
  by_contra hs
  rw [sdkRuntime_of_split (by simpa using hs)] at hr
  cases hr

/-- A core that owns the accelerator has the SDK exactly in embedded programs. -/
theorem sdk_eq_embedded (ho : p.owns = true) : p.sdk = p.embedded := by
  have hx := p.config.no_conflict
    (x := (p.config.target = .bareMetalArm && p.config.topology ≠ .armHost, .requires .bareMetal .armHost))
    (by simp [Settings.conflicts, Settings.targetConflicts])
  simp only [owns] at ho
  cases ht : p.config.target <;> cases hc : p.config.topology <;>
    simp_all [sdk, embedded, Configuration.isEmbedded, Target.usesSdk, Topology.ownsAccelerator]

theorem has_api (ho : p.owns = true) (hs : p.config.isSplit = true) :
    p.Has "cnn_enable" ∧ p.Has "cnn_boost_enable" ∧ p.Has "cnn_boost_disable" ∧ p.Has "cnn_disable" := by
  refine ⟨?_, ?_, ?_, ?_⟩ <;>
    exact has_of_mem p.apiDefinitions (fun d hd => by simp [callees, hd])
      (by simp [apiDefinitions, ho, hs, sdkRuntime_of_split hs])

theorem waitStrategy_eq_interrupt (hr : p.sdkRuntime = true) : p.waitStrategy = .interrupt := by
  simp only [sdkRuntime, embedded] at hr
  simp [waitStrategy, Configuration.waitStrategy, hr]

def Resolves (p : Plan) (names : List String) : Prop := ∀ n ∈ names, p.Has n

@[simp] theorem resolves_nil : p.Resolves [] := by
  simp [Resolves]

@[simp] theorem resolves_cons {n : String} {ns : List String} :
    p.Resolves (n :: ns) ↔ p.Has n ∧ p.Resolves ns := by
  simp [Resolves]

@[simp] theorem resolves_append {as bs : List String} : p.Resolves (as ++ bs) ↔ p.Resolves as ∧ p.Resolves bs := by
  simp [Resolves, or_imp, forall_and]

theorem resolves_completionWait (ho : p.owns = true) :
    p.Resolves (if p.waitStrategy = .poll then ["cnn_wait"] else []) := by
  have hname := has_completion ho
  simp only [completionName] at hname
  cases hw : p.waitStrategy with
  | interrupt => simp
  | poll => simpa [hw] using hname

theorem resolves_enableBody (ho : p.owns = true) (hr : p.sdkRuntime = true) :
    p.Resolves (Operation.referencesOfAll p.enableBody) := by
  have hname := has_completion ho
  simp only [completionName, waitStrategy_eq_interrupt hr, handlerSignature] at hname
  rw [references_enableBody]
  cases ht : p.config.topology with
  | companion => simp
  | singleCore => simpa [ht, Signature.procedure] using hname
  | armHost => simpa [ht, Signature.procedure] using hname

open AccelFirmware.Action EmitStep

theorem resolves_fatalCheck (ho : p.owns = true) (callee : Callee)
    (hc : p.Resolves (Operation.calleeReferences callee)) : p.Resolves (gather references (p.fatalCheck callee)) := by
  have hfail : p.Resolves (if p.config.target.failPolicy = .halt then ["fail"] else []) := by
    cases ht : p.config.target with
    | embedded => simpa [Target.failPolicy] using has_fail ho (by simp [embedded, Configuration.isEmbedded, ht])
    | simulation => simp [Target.failPolicy]
    | bareMetalArm => simp [Target.failPolicy]
  simp [fatalCheck, references, Operation.referencesOfAll, Operation.references, hc, hfail]

theorem resolves_acceleratorBringUp (ho : p.owns = true) :
    p.Resolves (gather references p.acceleratorBringUp) := by
  simp only [acceleratorBringUp]
  cases hr : p.sdkRuntime with
  | false => simp
  | true =>
    have hbody := resolves_enableBody ho hr
    have hbase : p.Resolves
        (gather references (if p.config.measureEnergy then [.push .main p.measureBasePower] else [])) := by
      cases he : p.config.measureEnergy with
      | false => simp
      | true =>
        obtain ⟨_, _, _, hdisable⟩ := has_api ho (p.config.split_of_measureEnergy he)
        simp [references, references_measureBasePower, hdisable]
    have henable : p.Resolves (gather references (if p.config.isSplit then
        [.push .main p.enableCall, .function .api enableSignature p.enableBody (some "CNN_OK")]
        else [.push .main p.enableBody])) := by
      cases hs : p.config.isSplit with
      | false => simpa [references] using hbody
      | true =>
        obtain ⟨henable, _⟩ := has_api ho hs
        simp [references, references_enableCall, henable, hbody]
    have hboost : p.Resolves (gather references p.boostOn) := by
      simp only [boostOn]
      cases hs : p.config.isSplit with
      | false => cases p.config.boost <;> simp [references, Operation.referencesOfAll, Operation.references]
      | true =>
        obtain ⟨_, henable, _⟩ := has_api ho hs
        cases p.config.boost <;> simp [boostFunction, references, Operation.referencesOfAll, henable]
    simp [hbase, henable, hboost, references, Operation.referencesOfAll, Operation.references]

theorem resolves_configure (ho : p.owns = true) : p.Resolves (gather references p.configure) := by
  have hcheck (name : String) := resolves_fatalCheck ho (.provided name) resolves_nil
  have hverify : p.Resolves (gather references
      (if p.config.verifyKernels then p.fatalCheck (.provided "cnn_verify_weights") else [])) := by
    split <;> simp [hcheck]
  have hhead : Operation.referencesOfAll
      (if p.embedded then [.statement "printf(\"\\n*** CNN Inference Test ***\\n\");", .blank] else []) = [] := by
    split <;> rfl
  simp [configure, hverify, hcheck, hhead, references, Operation.referencesOfAll, references_loadKernels,
    references_loadBias]

theorem resolves_stopAndContinue (ho : p.owns = true) :
    p.Resolves (Operation.referencesOfAll p.stopAndContinue) := by
  rw [references_stopAndContinue]
  cases hs : p.config.stopStart with
  | false => simp
  | true =>
    obtain ⟨hcontinue, hstop⟩ := has_control ho (p.config.master_of_stopStart hs)
    simp [hcontinue, hstop]

theorem resolves_execute (ho : p.owns = true) : p.Resolves (gather references p.execute) := by
  have hwait := resolves_completionWait ho
  have hstop := resolves_stopAndContinue ho
  have hfirst : p.Resolves (gather references p.firstRun) := by
    simp only [firstRun]
    split <;>
      simp [references, Operation.referencesOfAll, Operation.references, references_measureRuns,
        references_loadAndStart, references_completionWait, hwait, hstop]
  have hfurther : p.Resolves (gather references p.furtherRuns) := by
    simp only [furtherRuns]
    split
    · rename_i hn
      obtain ⟨hcontinue, _⟩ := has_control ho (p.config.master_of_oneshot hn)
      simp [references, Operation.referencesOfAll, Operation.references, references_completionWait, hwait, hcontinue]
    · simp
  have hboost : p.Resolves (gather references p.boostOff) := by
    simp only [boostOff]
    cases hs : p.config.isSplit with
    | false =>
      cases p.config.forever <;> cases p.config.boost <;>
        simp [references, Operation.referencesOfAll, Operation.references]
    | true =>
      obtain ⟨_, _, hdisable, _⟩ := has_api ho hs
      cases p.config.forever <;> cases p.config.boost <;>
        simp [boostFunction, references, Operation.referencesOfAll, Operation.references, hdisable]
  simp [execute, hfirst, hfurther, hboost, references, references_leavePll]

theorem Coherent.resolves_retrieve (h : p.Coherent) (ho : p.owns = true) :
    p.Resolves (gather references p.retrieve) := by
  have houtput : p.Resolves (gather references
      (if p.config.verifyOutput then p.fatalCheck (.provided "check_output") else [])) := by
    split
    · exact resolves_fatalCheck ho _ resolves_nil
    · simp
  have hretrieval : p.Resolves p.retrieval.references := by
    rw [references_retrieval]
    cases hk : LayerKind.ofRetrieval? p.config.retrieval with
    | none => simp
    | some kind => simpa using h.has_layer ho kind.functionName (by simp [layerNames, hk])
  have hverify : p.Resolves (gather references (if p.verifies then p.fatalCheck (.emitted "fc_verify") else [])) := by
    cases hv : p.verifies with
    | false => simp
    | true =>
      have hname := h.has_layer ho "fc_verify"
        (by simp [layerNames, h.golden hv, hv, LayerKind.ofRetrieval?])
      exact resolves_fatalCheck ho _ (by simpa [Operation.calleeReferences] using hname)
  have hreport : p.Resolves (gather references (if p.embedded then [.push .main p.passReport] else [])) := by
    split <;> simp [references, references_passReport]
  simp [retrieve, houtput, hretrieval, hverify, hreport, references, Operation.referencesOfAll]

theorem resolves_ending (ho : p.owns = true) : p.Resolves (gather references p.ending) := by
  have hwait := resolves_completionWait ho
  simp only [ending, acceleratorShutdown, disableFunction]
  cases hf : p.config.forever <;> cases hs : p.config.isSplit
  case true.false => simp [references, references_endlessLoop, hwait]
  case true.true => simp [references, references_endlessLoop, references_shutdown, hwait]
  case false.false => cases p.printsClasses <;> simp [references, references_shutdown, references_classPrintout]
  case false.true =>
    obtain ⟨_, _, _, hdisable⟩ := has_api ho hs
    cases p.printsClasses <;>
      simp [references, references_shutdown, references_classPrintout, Operation.referencesOfAll,
        Operation.references, hdisable]

theorem Coherent.resolves_inside (h : p.Coherent) : p.Resolves (gather references p.inside) := by
  have hlocals : p.Resolves (gather references p.locals) := by
    simp only [locals]
    split <;> simp [references, references_localVariables, Operation.referencesOfAll, Operation.references]
  have hcore : p.Resolves (Operation.referencesOfAll p.coreOperations) := by
    rw [references_coreOperations]
    cases hw : p.hostsWakeHandler with
    | false => simp
    | true => cases p.device.companion <;> simp [has_wake hw]
  have hphases : p.Resolves (gather references p.acceleratorPhases) := by
    simp only [acceleratorPhases]
    cases ho : p.owns with
    | false => simp
    | true =>
      simp [resolves_acceleratorBringUp ho, resolves_configure ho, resolves_execute ho, h.resolves_retrieve ho,
        resolves_ending ho]
  have hepilogue : p.Resolves (Operation.referencesOfAll p.epilogue) := by
    rw [references_epilogue]
    split
    · rename_i hh
      simpa using has_helper (by simp [bringsHelper, hh])
    · simp
  simp [inside, hlocals, hcore, hphases, hepilogue, references, references_camera]

theorem references_applicationState (sink : Sink) : gather references (p.applicationState sink) = [] := by
  simp only [applicationState]
  cases p.sdkRuntime <;> cases p.embedded <;>
    simp [references, references_failBody, Operation.referencesOfAll, Operation.references]

theorem references_library (sink : Sink) : gather references (p.completionFunction sink :: p.groupControl sink) = [] := by
  simp only [completionFunction, groupControl]
  cases p.waitStrategy <;> cases p.config.master <;>
    simp [references, references_handlerBody, Operation.referencesOfAll, Operation.references]

theorem references_declarations : gather references p.declarations = [] := by
  have hhead (sink : Sink) (part : Part) : gather references (p.sourceHead sink part) = [] := by
    simp only [sourceHead, gather_push, references, references_includes]
    cases p.owns with
    | false => simp
    | true => cases part <;> simp [Part.isApplication, Part.isLibrary, references_applicationState, references_library]
  simp only [declarations]
  cases p.config.layout <;> simp [hhead]

theorem references_unitActions {units : List CodeUnit} (h : ∀ u ∈ units, u.IsSilent) :
    gather references (units.flatMap unitActions) = [] := by
  induction units with
  | nil => rfl
  | cons u units ih =>
    obtain ⟨hd, hb⟩ := h u (by simp)
    rw [List.flatMap_cons, gather_append, ih fun u hu => h u (by simp [hu]), gather_unitActions references (fun _ _ _ => rfl)]
    simp [references, hd, hb]

theorem Coherent.references_fileScopeFunctions (h : p.Coherent) : gather references p.fileScopeFunctions = [] := by
  have hbuffer : (outputBuffer p.config.outputWidth).references = [] := by
    cases p.config.outputWidth <;> rfl
  have hunits := references_unitActions fun u hu => h.unit_silent hu
  simp only [fileScopeFunctions, gather_append, wakeHandler, wakeStatusHelper]
  (repeat' split) <;> simp [hunits, hbuffer, references, Operation.referencesOfAll, Operation.references]

/-- Nothing ahead of `main` refers to a function of the program. -/
theorem Coherent.references_opening (h : p.Coherent) : gather references p.opening = [] := by
  simp [opening, references_declarations, h.references_fileScopeFunctions]

/-! ## Stages -/

def ownerEvents (p : Plan) : List LifecycleEvent :=
  (if p.config.verifyKernels then [LifecycleEvent.fatalCheck] else []) ++
  [LifecycleEvent.fatalCheck, .advance .configured, .advance .running] ++
  (if p.config.oneshot > 0 then [LifecycleEvent.advance .running] else []) ++ [LifecycleEvent.advance .complete] ++
  (if p.config.verifyOutput then [LifecycleEvent.fatalCheck] else []) ++
  (if p.verifies then [LifecycleEvent.fatalCheck] else []) ++
  [LifecycleEvent.advance (if p.config.forever then .loopingForever else .tornDown)]

theorem others_acceleratorPhases (ho : p.owns = true) : others p.acceleratorPhases = p.ownerEvents.map .event := by
  have hup : others p.acceleratorBringUp = [] := by
    simp only [acceleratorBringUp, boostOn, boostFunction]
    (repeat' split) <;> rfl
  have hconfigure : others p.configure =
      (if p.config.verifyKernels then [.event .fatalCheck] else []) ++
        [.event .fatalCheck, .event (.advance .configured)] := by
    simp only [configure, fatalCheck, others_append]
    cases p.config.verifyKernels <;> rfl
  have hfirst : others p.firstRun = [.event (.advance .running)] := by
    simp only [firstRun]
    split <;> rfl
  have hfurther : others p.furtherRuns = if p.config.oneshot > 0 then [.event (.advance .running)] else [] := by
    simp only [furtherRuns]
    split <;> rfl
  have hboost : others p.boostOff = [] := by
    simp only [boostOff, boostFunction]
    (repeat' split) <;> rfl
  have hretrieve : others p.retrieve =
      (if p.config.verifyOutput then [.event .fatalCheck] else []) ++
        if p.verifies then [.event .fatalCheck] else [] := by
    simp only [retrieve, fatalCheck]
    cases p.config.verifyOutput <;> cases p.verifies <;> cases p.embedded <;> rfl
  have hending : others p.ending =
      [.event (.advance (if p.config.forever then .loopingForever else .tornDown))] := by
    simp only [ending, acceleratorShutdown, disableFunction]
    cases p.config.forever <;> cases p.config.isSplit <;> cases p.printsClasses <;> rfl
  simp [acceleratorPhases, ho, execute, ownerEvents, hup, hconfigure, hfirst, hfurther, hboost, hretrieve, hending,
    apply_ite (List.map Action.event)]

/-- The last stage of a program and those before it. -/
def stages (p : Plan) : List Stage × Stage :=
  if p.owns then
    ([Stage.uninitialized, .configured, .running] ++ (if p.config.oneshot > 0 then [Stage.running] else []) ++
        [Stage.complete],
      if p.config.forever then .loopingForever else .tornDown)
  else ([.uninitialized], .delegated)

def fatalChecks (p : Plan) : Nat :=
  if p.owns then 1 + p.config.verifyKernels.toNat + p.config.verifyOutput.toNat + p.verifies.toNat else 0

def lifecycleEvents (p : Plan) : List LifecycleEvent :=
  if p.owns then p.ownerEvents else [.advance .delegated]

theorem others_declarations : others p.declarations = [] := by
  have hhead (sink : Sink) (part : Part) : others (p.sourceHead sink part) = [] := by
    simp only [sourceHead, applicationState, completionFunction, groupControl]
    (repeat' split) <;> rfl
  simp only [declarations]
  cases p.config.layout <;> simp [hhead]

theorem others_fileScopeFunctions : others p.fileScopeFunctions = [] := by
  have hunits (us : List CodeUnit) : others (us.flatMap unitActions) = [] := by
    refine List.filter_eq_nil_iff.2 fun action haction => ?_
    obtain ⟨u, -, haction⟩ := List.mem_flatMap.1 haction
    rcases List.mem_append.1 haction with hliteral | hcode
    · obtain ⟨⟨sink, text⟩, -, hliteral⟩ := List.mem_flatMap.1 hliteral
      simp only [List.mem_cons, List.not_mem_nil, or_false] at hliteral
      rcases hliteral with rfl | rfl <;> simp [step?]
    · simp only [List.mem_cons, List.not_mem_nil, or_false] at hcode
      rcases hcode with rfl | rfl <;> simp [step?, Action.push, Action.function]
  simp only [fileScopeFunctions, others_append, wakeHandler, wakeStatusHelper]
  (repeat' split) <;> simp [hunits]

/-- The device of a coherent plan is not refused while the core is brought up. -/
theorem Coherent.others_coreBringUp (h : p.Coherent) : others p.coreBringUp = [] := by
  simp only [coreBringUp]
  cases ht : p.config.topology with
  | singleCore | companion => rfl
  | armHost =>
    obtain ⟨m, hm⟩ := Option.isSome_iff_exists.1 (h.companion (by simp [ht, Topology.isDualCore]))
    rw [hm]
    rfl

theorem Coherent.others_actions (h : p.Coherent) : others p.actions = p.lifecycleEvents.map .event := by
  have hlocals : others p.locals = [] := by
    simp only [locals]
    split <;> rfl
  have hphases : others p.acceleratorPhases = p.lifecycleEvents.map .event := by
    cases ho : p.owns with
    | true => simp [others_acceleratorPhases ho, lifecycleEvents, ho]
    | false => simp [acceleratorPhases, lifecycleEvents, ho]
  simp [actions_eq, opening, inside, others_declarations, others_fileScopeFunctions, hlocals, h.others_coreBringUp, hphases]

/-- The stages follow each other as they may, and every fatal check is counted. -/
theorem lifecycle_ok :
    Lifecycle.start.run p.lifecycleEvents = .ok ⟨p.stages.1, p.stages.2, p.fatalChecks⟩ := by
  simp only [lifecycleEvents, stages, fatalChecks, ownerEvents]
  cases p.owns with
  | false => rfl
  | true =>
    by_cases hn : p.config.oneshot > 0 <;> cases p.config.verifyKernels <;> cases p.config.verifyOutput <;>
      cases p.verifies <;> cases p.config.forever <;> simp only [hn] <;> rfl

/-! ## Runs -/

theorem plain_opening (p : Plan) : ∀ s ∈ steps p.opening, s.isPlain (fun _ => false) = true :=
  p.define_opening.isPlain fun _ _ => rfl

theorem sink_of_apiDefinition {d : Definition} (h : d ∈ p.apiDefinitions) : d.sink = .api := by
  simp only [apiDefinitions] at h
  (repeat' split at h) <;> simp at h
  · rcases h with rfl | rfl | rfl | rfl <;> rfl
  · rcases h with rfl | rfl <;> rfl

theorem plain_inside (p : Plan) : ∀ s ∈ steps p.inside, s.isPlain (· = .main) = true :=
  p.define_inside.isPlain fun d hd => by simp [sink_of_apiDefinition hd]

theorem steps_actions (p : Plan) :
    steps p.actions = steps p.opening ++ [EmitStep.openUnit .main (.status "main")] ++ steps p.inside ++
      [EmitStep.closeUnit .main (some "0")] := by
  simp [actions_eq]

/-- The functions ahead of `main`, those that its phases define on the way, and `main` itself. -/
theorem functions_eq (p : Plan) :
    p.functions = gather whole p.opening ++ gather whole p.inside ++
      [⟨.main, .status "main", gather (pushed .main) p.inside, some "0"⟩] := by
  rw [functions, steps_actions]
  exact Outline.run_around _ _ p.plain_opening p.plain_inside

theorem functions_definitions (p : Plan) : p.functions.map EmittedFunction.definition = p.definitions := by
  simp only [functions_eq, List.map_append, p.define_opening.whole, p.define_inside.whole, definitions]
  simp [EmittedFunction.definition, Signature.status]

/-- The functions of the library are functions of the program, whatever the layout. -/
theorem library_subset (ho : p.owns = true) :
    gather whole (p.completionFunction p.routeSink :: p.groupControl p.routeSink) ⊆ p.functions := by
  have hhead (sink : Sink) {part : Part} (hpart : part.isLibrary = true) :
      ∃ front, p.sourceHead sink part = front ++ (p.completionFunction sink :: p.groupControl sink) := by
    refine ⟨.push sink (p.includes part) :: if part.isApplication then p.applicationState sink else [], ?_⟩
    rw [sourceHead, if_pos ho, if_pos hpart]
    rfl
  have hdeclarations : ∃ front, p.declarations = front ++ (p.completionFunction p.routeSink :: p.groupControl p.routeSink) := by
    rw [declarations]
    cases hlayout : p.config.layout with
    | combined =>
      have hroute : p.routeSink = .main := by simp [routeSink, Configuration.isSplit, hlayout]
      rw [hroute]
      exact hhead .main rfl
    | splitApi =>
      have hroute : p.routeSink = .api := by simp [routeSink, Configuration.isSplit, hlayout]
      obtain ⟨front, hfront⟩ : ∃ front, p.sourceHead .api .library = front ++ _ := hhead .api rfl
      rw [hroute, hfront, ← List.append_assoc]
      exact ⟨_, rfl⟩
  obtain ⟨front, hfront⟩ := hdeclarations
  rw [functions_eq, opening, hfront, gather_append, gather_append]
  intro f hf
  simp only [List.mem_append]
  exact Or.inl (Or.inl (Or.inl (Or.inr hf)))

/-- The actions of a coherent plan are never refused. -/
theorem Coherent.run_ok (h : p.Coherent) :
    ∃ P, Program.ofActions p.actions = .ok P ∧ P.text.functions = p.definitions ∧
      P.lifecycle = ⟨p.stages.1, p.stages.2, p.fatalChecks⟩ := by
  have hdefinitions := p.functions_definitions
  rw [functions_eq, List.map_append] at hdefinitions
  obtain ⟨e, t, he, ht, hft⟩ := Emitter.run_around (.status "main") (some "0") p.plain_opening p.plain_inside
    hdefinitions h.names_nodup (by
      intro name hm
      rcases List.mem_append.1 hm with hm | hm
      · change name ∈ gather references p.opening at hm
        rw [h.references_opening] at hm
        cases hm
      · rw [definitions_eq, List.map_append]
        exact List.mem_append_left _ (h.resolves_inside name hm))
  rw [← steps_actions] at he
  exact ⟨_, Program.ofActions_ok he h.others_actions p.lifecycle_ok ht, hft, rfl⟩

theorem Coherent.functionNames_nodup (h : p.Coherent) : (functionNames p.functions).Nodup := by
  have hnames : functionNames p.functions = p.definitions.map Definition.name := by
    simp [← functions_definitions, functionNames, EmittedFunction.definition, Function.comp_def]
  rw [hnames]
  exact h.names_nodup

/-- The operations of `main` are those that its phases push. -/
theorem Coherent.main_body (h : p.Coherent) :
    EmittedFunction.bodyOf "main" p.functions = gather (pushed .main) p.inside :=
  EmittedFunction.bodyOf_of_mem h.functionNames_nodup
    (f := ⟨.main, .status "main", gather (pushed .main) p.inside, some "0"⟩) (by simp [functions_eq])

end Plan

end AccelFirmware
