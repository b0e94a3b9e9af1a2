import AccelFirmware.Proofs.Outcome
import AccelFirmware.Proofs.Reserved

/-!
# The source of `main`

The operations in the source of `main`, and which of them refer to the macros of the array literals: only the classification
code does, and only to arrays that are given.
-/

namespace AccelFirmware

namespace EmitStep

/-- The operations that a step puts on a sink, those of whole functions among them. -/
def operationsOn (sink : Sink) : EmitStep → List Operation
  | .push s ops => if s = sink then ops else []
  | .function s _ body _ => if s = sink then body else []
  | _ => []

/-- Where no function is written to a sink as a whole, its operations are those that are pushed. -/
theorem operationsOn_of_isPlain {sink : Sink} {step : EmitStep} (h : step.isPlain (· = sink) = true) :
    step.operationsOn sink = step.pushed sink := by
  cases step with
  | function s signature body result =>
    have hs : s ≠ sink := by simpa [isPlain] using h
    simp [operationsOn, pushed, hs]
  | _ => rfl

end EmitStep

namespace Plan

variable (p : Plan)

open Operation AccelFirmware.Action EmitStep Reserved

/-! ## Phases -/

/-- The part that the source of `main` is. -/
def mainPart : Part := if p.config.isSplit then .application else .whole

@[simp] theorem mainPart_isApplication : p.mainPart.isApplication = true := by
  simp only [mainPart]
  split <;> rfl

@[simp] theorem mainPart_isLibrary : p.mainPart.isLibrary = !p.config.isSplit := by
  simp only [mainPart]
  cases p.config.isSplit <;> rfl

/-- The functions of the program ahead of the classification code. -/
def stateOps : List Operation :=
  gather (operationsOn .main)
    (p.applicationState .main ++ if p.config.isSplit then [] else p.completionFunction .main :: p.groupControl .main)

def unitOps : List Operation := p.units.flatMap fun u => u.declarations ++ u.body

variable {p}

theorem operations_inside : gather (operationsOn .main) p.inside = gather (pushed .main) p.inside := by
  rw [gather, gather]
  exact List.flatMap_congr fun step hstep => operationsOn_of_isPlain (p.plain_inside step hstep)

theorem operations_opening (ho : p.owns = true) (hr : p.config.retrieval = .fullyConnected) :
    gather (operationsOn .main) p.opening = p.includes p.mainPart ++ (p.stateOps ++ p.unitOps) := by
  have hnohost : p.hostsWakeHandler = false ∧ p.bringsHelper = false := by
    cases ht : p.config.topology <;> simp_all [owns, Topology.ownsAccelerator, hostsWakeHandler, bringsHelper]
  have hdeclarations : gather (operationsOn .main) p.declarations = p.includes p.mainPart ++ p.stateOps := by
    cases hl : p.config.layout with
    | combined =>
      have hs : p.config.isSplit = false := by simp [Configuration.isSplit, hl]
      simp [declarations, hl, sourceHead, ho, Part.isApplication, Part.isLibrary, stateOps, mainPart, hs, operationsOn]
    | splitApi =>
      have hs : p.config.isSplit = true := by simp [Configuration.isSplit, hl]
      have hlibrary : gather (operationsOn .main) (p.completionFunction .api :: p.groupControl .api) = [] := by
        simp only [completionFunction, groupControl]
        cases p.waitStrategy <;> cases p.config.master <;> rfl
      simp [declarations, hl, hlibrary, sourceHead, ho, Part.isApplication, Part.isLibrary, stateOps, mainPart, hs,
        operationsOn]
  have hunits : gather (operationsOn .main) (p.units.flatMap unitActions) = p.unitOps := by
    simp [unitOps, gather_flatMap, gather_unitActions (operationsOn .main) (fun _ _ _ => rfl), operationsOn]
  have hscope : gather (operationsOn .main) p.fileScopeFunctions = p.unitOps := by
    rw [← hunits]
    simp only [fileScopeFunctions, hnohost.1, ho, hr]
    have hhelper : (p.config.topology = .armHost && p.config.sleep && !p.embedded) = false := hnohost.2
    simp [hhelper]
  rw [opening, gather_append, hdeclarations, hscope, List.append_assoc]

theorem operations_actions (ho : p.owns = true) (hr : p.config.retrieval = .fullyConnected) :
    gather (operationsOn .main) p.actions =
      p.includes p.mainPart ++ (p.stateOps ++ p.unitOps) ++ gather (pushed .main) p.inside := by
  rw [actions_eq, gather_append, gather_append, gather_append, operations_opening ho hr, operations_inside]
  simp [operationsOn]

/-! ## Reserved words -/

theorem mentions_drivePin {port mask : String} (hport : Excludes (otherWords [.pin]) ("gpio_out.port = " ++ port ++ ";"))
    (hmask : Excludes (otherWords [.pin]) ("gpio_out.mask = " ++ mask ++ ";")) (level : Level) :
    MentionsOnly [.pin] (drivePin port mask level) := by
  have hdeclare : MentionsOnly [.pin] [.declare "mxc_gpio_cfg_t gpio_out;"] := mentionsOnly_of_spelled (by repeat' constructor)
  have hdriver : MentionsOnly [.pin]
      [.statement "gpio_out.pad = MXC_GPIO_PAD_NONE;", .statement "gpio_out.func = MXC_GPIO_FUNC_OUT;",
       callProvided "MXC_GPIO_Config" ["&gpio_out"], callProvided level.driver ["gpio_out.port", "gpio_out.mask"]] := by
    cases level <;> exact mentionsOnly_of_spelled (by repeat' constructor)
  exact mentionsOnly_cons.2 ⟨hdeclare, mentionsOnly_cons.2 ⟨lacks_statement.2 hport,
    mentionsOnly_cons.2 ⟨lacks_statement.2 hmask, hdriver⟩⟩⟩

theorem mentions_boost : MentionsOnly [.pin] (gather (pushed .main) p.boostOn) ∧
    MentionsOnly [.pin] (gather (pushed .main) p.boostOff) := by
  cases hb : p.config.boost with
  | none =>
    simp only [boostOn, boostOff, hb]
    cases p.config.isSplit <;> cases p.config.forever <;> exact ⟨mentionsOnly_nil, mentionsOnly_nil⟩
  | some b =>
    have hcall (name : String) (note : Option String) (hn : name ∈ ["cnn_boost_enable", "cnn_boost_disable"]) :
        MentionsOnly [.pin] [callEmitted name [b.portName, b.pinName] note] := (mentions_boostCalls b name note hn).anywhere
    have hon := hcall "cnn_boost_enable" (some "Turn on the boost circuit") (by simp)
    have hoff := mentionsOnly_append.2
      ⟨hcall "cnn_boost_disable" (some "Turn off the boost circuit") (by simp), mentionsOnly_blank⟩
    have hdrive : MentionsOnly [.pin] (drivePin b.portName b.pinName .high) :=
      mentions_drivePin (excludes_others (.append (.append .literal (.append .literal (.decimal _))) .literal) rfl)
        (excludes_others (.append (.append .literal (.append .literal (.decimal _))) .literal) rfl) .high
    have hheading (text : String) : MentionsOnly [.pin] [.blank, .comment text] :=
      mentionsOnly_of_spelled (by repeat' constructor)
    have hclear : MentionsOnly [.pin] [.comment "Turn off the CNN Boost",
        callProvided "MXC_GPIO_OutClr" ["gpio_out.port", "gpio_out.mask"], .blank] :=
      mentionsOnly_of_spelled (by repeat' constructor)
    cases hs : p.config.isSplit with
    | true =>
      refine ⟨by simpa [boostOn, hs, hb, boostFunction, pushed] using hon, ?_⟩
      cases hf : p.config.forever with
      | true => simp [boostOff, hs, hf, boostFunction, pushed]
      | false => simpa [boostOff, hs, hb, hf, boostFunction, pushed] using hoff
    | false =>
      refine ⟨?_, ?_⟩
      · simpa [boostOn, hs, hb, pushed] using mentionsOnly_append.2 ⟨hheading _, hdrive⟩
      · cases hf : p.config.forever with
        | true => simp [boostOff, hs, hf]
        | false => simpa [boostOff, hs, hb, hf, pushed] using hclear

variable (p)

/-- The symbol that the head of a source declares, if it does. -/
def symbolWords (part : Part) : List Reserved :=
  if part.isApplication && p.config.target = .bareMetalArm then [.flashStart] else []

theorem mentions_headers (part : Part) :
    MentionsOnly [] (p.systemHeaders ++ p.platformHeaders part ++ p.programHeaders part ++ [Operation.blank]) := by
  have hsystem : MentionsOnly [] p.systemHeaders := by
    simp only [systemHeaders]
    (repeat' split) <;> exact mentionsOnly_of_spelled (by repeat' constructor)
  have hplatform : MentionsOnly [] (p.platformHeaders part) := by
    simp only [platformHeaders]
    (repeat' split) <;> exact mentionsOnly_of_spelled (by repeat' constructor)
  have hprogram : MentionsOnly [] (p.programHeaders part) := by
    simp only [programHeaders, mentionsOnly_append]
    refine ⟨⟨⟨?_, ?_⟩, ?_⟩, ?_⟩ <;> split <;> exact mentionsOnly_of_spelled (by repeat' constructor)
  simp only [mentionsOnly_append, hsystem, hplatform, hprogram, mentionsOnly_blank, and_self]

theorem mentions_includes (part : Part) : MentionsOnly (p.symbolWords part) (p.includes part) := by
  have hresults : MentionsOnly [] (if p.sdk then [] else [.define "CNN_FAIL" "0", .define "CNN_OK" "1", .blank]) := by
    split <;> exact mentionsOnly_of_spelled (by repeat' constructor)
  have hconstants : MentionsOnly (p.symbolWords part) (p.constants part) := by
    simp only [constants, mentionsOnly_append, hresults.anywhere, true_and, symbolWords]
    split <;> exact mentionsOnly_of_spelled (by repeat' constructor)
  exact mentionsOnly_append.2 ⟨(p.mentions_headers part).anywhere, hconstants⟩

theorem macros_includes (part : Part) : Lacks macroWords (p.includes part) := by
  refine (p.mentions_includes part).macros ?_
  simp only [symbolWords]
  split <;> decide

theorem mentions_failBody : MentionsOnly [.pin] p.failBody := by
  have hindicator : MentionsOnly [.pin] (if p.config.failIndicator then
      drivePin "MXC_GPIO2" "MXC_GPIO_PIN_4" .high ++ [Operation.blank] else []) := by
    have hdrive : MentionsOnly [.pin] (drivePin "MXC_GPIO2" "MXC_GPIO_PIN_4" .high) :=
      mentions_drivePin (excludes_others (.append (.append .literal .literal) .literal) rfl)
        (excludes_others (.append (.append .literal .literal) .literal) rfl) .high
    split
    · exact mentionsOnly_append.2 ⟨hdrive, mentionsOnly_blank⟩
    · exact mentionsOnly_nil
  exact mentionsOnly_append.2 ⟨hindicator, mentionsOnly_of_spelled (by repeat' constructor)⟩

theorem mentions_handlerBody : MentionsOnly [.time] p.handlerBody := by
  have hacknowledgement : Excludes (otherWords [.time]) p.acknowledgement := by
    simp only [acknowledgement]
    split <;> exact excludes_others .literal rfl
  have hgroups : MentionsOnly [.time]
      (p.config.groups.members.map fun g => writeAt (p.device.ctlAddress g) .keepBits p.acknowledgement) := by
    refine lacks_of_forall fun op hop => ?_
    obtain ⟨g, _, rfl⟩ := List.mem_map.1 hop
    simpa [Lacks, textsOfAll, texts, writeAt, Register.texts] using hacknowledgement
  have hheading : MentionsOnly [.time] [.comment "Acknowledge interrupt to all groups"] :=
    mentionsOnly_of_spelled (by repeat' constructor)
  have hrest : MentionsOnly [.time] ([Operation.blank] ++ (if p.embedded && !p.config.measureEnergy then
      [Operation.statement "CNN_COMPLETE;" (some "Signal that processing is complete")] else []) ++
      [Operation.verbatim timerStop]) := by
    split <;> exact mentionsOnly_of_spelled (by repeat' constructor)
  have hcompanion : MentionsOnly [.time] (if p.config.topology = .companion then
      [.blank, callProvided "NVIC_ClearPendingIRQ" ["CNN_IRQn"], callProvided "NVIC_ClearPendingEVENT" ["CNN_IRQn"]]
      else []) := by
    split <;> exact mentionsOnly_of_spelled (by repeat' constructor)
  have hbody := mentionsOnly_append.2 ⟨hheading, mentionsOnly_append.2 ⟨hgroups, mentionsOnly_append.2 ⟨hrest, hcompanion⟩⟩⟩
  simpa [handlerBody] using hbody

/-- The stamp, where the end of a run is an interrupt. -/
def stampWords : List Reserved := if p.waitStrategy = .interrupt then [.time] else []

theorem mentions_completionFunction :
    MentionsOnly p.stampWords (gather (operationsOn .main) [p.completionFunction .main]) := by
  have hcondition : Excludes (otherWords []) p.pollCondition :=
    excludes_others (.append (.append .literal (.hexWide _ _)) .literal) rfl
  simp only [completionFunction, stampWords]
  cases p.waitStrategy with
  | interrupt => simpa [operationsOn] using p.mentions_handlerBody
  | poll => simpa [operationsOn, MentionsOnly, Lacks, textsOfAll, texts] using hcondition

theorem mentions_groupControl : MentionsOnly p.stampWords (gather (operationsOn .main) (p.groupControl .main)) := by
  simp only [groupControl, stampWords]
  cases p.config.master with
  | none => exact mentionsOnly_nil
  | some master => cases p.waitStrategy <;> exact mentionsOnly_of_spelled (by repeat' constructor)

theorem macros_stateOps : Lacks macroWords p.stateOps := by
  have happlication : MentionsOnly [.pin, .time] (gather (operationsOn .main) (p.applicationState .main)) := by
    have htime : MentionsOnly [.time] (gather (operationsOn .main) (if p.sdkRuntime then
        [.push .main [.declare "volatile uint32_t cnn_time; // Stopwatch", .blank]] else [])) := by
      split <;> exact mentionsOnly_of_spelled (by repeat' constructor)
    have hreport : MentionsOnly [.pin] (gather (operationsOn .main) (if p.embedded then
        [.function .main (.procedure "fail") p.failBody none] else [])) := by
      split
      · simpa [operationsOn] using p.mentions_failBody
      · exact mentionsOnly_nil
    rw [applicationState, gather_append]
    exact mentionsOnly_append.2 ⟨htime.mono (by decide), hreport.mono (by decide)⟩
  rw [stateOps, gather_append]
  refine lacks_append.2 ⟨happlication.macros (by decide), ?_⟩
  split
  · exact lacks_nil
  · rw [← List.singleton_append, gather_append]
    refine (mentionsOnly_append.2 ⟨p.mentions_completionFunction, p.mentions_groupControl⟩).macros ?_
    simp only [stampWords]
    split <;> decide

/-! ## Classification code -/

/-- The layer of the classification code, and the comparison with expected output. -/
theorem Coherent.fullyConnected_units {p : Plan} (h : p.Coherent) (ho : p.owns = true)
    (hr : p.config.retrieval = .fullyConnected) :
    ∃ weights bias expected, p.units = (LayerStyle.standard p.config.outputWidth).weightedLayer weights bias ::
      (Option.map (LayerStyle.standard p.config.outputWidth).comparison expected).toList ∧ expected.isSome = p.verifies := by
  obtain ⟨i, hu, hv⟩ := h.units
  obtain ⟨_, hunload | hhost⟩ | ⟨_, kind, u, hk, hl, hus⟩ := classificationUnits_ok hu
  · rw [hr] at hunload
    cases hunload
  · rw [owns, hhost] at ho
    cases ho
  · rw [hr] at hk
    cases hk
    obtain ⟨hkind, _⟩ | ⟨_, weights, _, _, rfl⟩ := LayerStyle.layer_ok hl
    · cases hkind
    · exact ⟨weights, i.bias, i.expected, hus, hv⟩

end Plan

namespace LayerStyle

open Operation Reserved

variable (s : LayerStyle)

theorem lacks_outputBuffer (w : OutputWidth) : Lacks macroWords [outputBuffer w] := by
  cases w with
  | w32 => exact lacks_of_spelled (by repeat' constructor)
  | w8 | w16 =>
    have htext (m n : Nat) : Excludes macroWords ("static int32_t ml_data32[(CNN_NUM_OUTPUTS + " ++ decimal m ++ ") / " ++
        decimal n ++ "];") :=
      excludes_of_blurred rfl (.append (.append (.append (.append .literal (.decimal _)) .literal) (.decimal _)) .literal) rfl
    simpa [outputBuffer, Lacks, textsOfAll, texts] using htext _ _

/-- The variables of the layer. -/
def layerWords (w : OutputWidth) (biased : Bool) : List Reserved :=
  [Reserved.weights, bufferWord w, .buffer, .output, .softmax] ++ if biased then [Reserved.bias] else []

theorem mentions_layerBody (weights : WeightMatrix) (bias : Option (List Int)) :
    MentionsOnly (layerWords s.width bias.isSome) (s.weightedLayer weights bias).body := by
  have hunload : MentionsOnly (layerWords s.width bias.isSome) [unloadCall s.width] :=
    (mentions_unloadCall s.width).mono (by simp [layerWords])
  have hinput : Excludes (otherWords (layerWords s.width bias.isSome)) ("(q7_t *) " ++ bufferName s.width) := by
    have hbuffer : Excludes (otherWords [bufferWord s.width]) ("(q7_t *) " ++ bufferName s.width) := by
      cases s.width <;> exact excludes_of_written (.append .literal .literal) rfl
    exact hbuffer.allow (by simp [layerWords])
  have hbias : Excludes (otherWords (layerWords s.width bias.isSome)) (if bias.isSome then "fc_bias" else "NULL") := by
    have hname : Excludes (otherWords (if bias.isSome then [.bias] else [])) (if bias.isSome then "fc_bias" else "NULL") := by
      cases bias.isSome <;> exact excludes_others .literal rfl
    exact hname.allow (List.subset_append_right _ _)
  have hfixed : ∀ text ∈ ["arm_fully_connected_q7_q8p7_opt", "fc_weights", "FC_IN", "CNN_NUM_OUTPUTS", "0", "7", "fc_output",
      "fc_buffer", "arm_softmax_q8p7_q15", "ml_softmax"], Excludes (otherWords (layerWords s.width bias.isSome)) text := by
    have hnames : Spelled (others [.weights, .buffer, .output, .softmax]) ["arm_fully_connected_q7_q8p7_opt", "fc_weights",
        "FC_IN", "CNN_NUM_OUTPUTS", "0", "7", "fc_output", "fc_buffer", "arm_softmax_q8p7_q15", "ml_softmax"] := by
      repeat' constructor
    exact fun text ht => Excludes.allow (hnames.excludes text ht) (by simp [layerWords])
  simp only [List.forall_mem_cons] at hfixed
  refine mentionsOnly_cons.2 ⟨hunload, mentionsOnly_of_texts ?_⟩
  simp [textsOfAll, texts, Callee.name, hinput, hbias, hfixed]

theorem macros_layerBody (weights : WeightMatrix) (bias : Option (List Int)) :
    Lacks macroWords (s.weightedLayer weights bias).body := by
  refine (s.mentions_layerBody weights bias).macros ?_
  cases s.width <;> cases bias.isSome <;> decide

/-- The declarations of the layer refer to its weights, and to its bias if there is one. -/
theorem lacks_layerDeclarations (weights : WeightMatrix) (bias : Option (List Int)) {words : List String}
    (hw : words ⊆ macroWords) (hweights : Excludes words "static const q7_t fc_weights[] = FC_WEIGHTS;")
    (hbias : bias.isSome = true → Excludes words "static const q7_t fc_bias[] = FC_BIAS;") :
    Lacks words (s.weightedLayer weights bias).declarations := by
  have hheading : Lacks macroWords [.comment "Classification layer:"] := lacks_of_spelled (by repeat' constructor)
  have hinputs : Lacks macroWords [.define "FC_IN" (decimal weights.cols)] := by
    have hcols : Excludes macroWords (decimal weights.cols) := excludes_of_blurred rfl (.decimal _) rfl
    simpa [Lacks, textsOfAll, texts] using hcols
  have hblank : Lacks macroWords [.blank] := lacks_of_spelled (by repeat' constructor)
  have hbuffers : Lacks macroWords [.declare "static q15_t fc_buffer[FC_IN];",
      .declare "static q15_t fc_output[CNN_NUM_OUTPUTS];", .declare "static q15_t ml_softmax[CNN_NUM_OUTPUTS];", .blank] :=
    lacks_of_spelled (by repeat' constructor)
  have hdeclared {text : String} (ht : Excludes words text) : Lacks words [.declare text] := by
    simpa [Lacks, textsOfAll, texts] using ht
  have hbiased : Lacks words
      (if bias.isSome then [.declare "static const q7_t fc_bias[] = FC_BIAS;", .blank] else []) := by
    split
    · exact lacks_cons.2 ⟨hdeclared (hbias ‹_›), hblank.mono hw⟩
    · exact lacks_nil
  refine lacks_append.2 ⟨?_, hbiased⟩
  exact lacks_cons.2 ⟨hheading.mono hw, lacks_cons.2 ⟨hinputs.mono hw, lacks_cons.2 ⟨hdeclared hweights,
    lacks_cons.2 ⟨hblank.mono hw, lacks_cons.2 ⟨(lacks_outputBuffer _).mono hw, hbuffers.mono hw⟩⟩⟩⟩⟩

theorem lacks_comparison (expected : List Int) :
    Lacks ["FC_BIAS"] ((s.comparison expected).declarations ++ (s.comparison expected).body) :=
  have hspelled : Spelled [['F', 'C', '_', 'B', 'I', 'A', 'S']]
      (textsOfAll ((s.comparison expected).declarations ++ (s.comparison expected).body)) := by repeat' constructor
  hspelled.excludes

end LayerStyle

namespace Plan

variable {p : Plan} {weights : WeightMatrix} {bias expected : Option (List Int)}

open Operation AccelFirmware.Action EmitStep

/-- The classification code of a fully-connected layer. -/
def HasUnits (p : Plan) (weights : WeightMatrix) (bias expected : Option (List Int)) : Prop :=
  p.units = (LayerStyle.standard p.config.outputWidth).weightedLayer weights bias ::
    (Option.map (LayerStyle.standard p.config.outputWidth).comparison expected).toList

theorem excludes_bias {text : String} {cs : List Char} (hb : Blurred text cs)
    (h : (tokens cs).any (Token.isAmong [['F', 'C', '_', 'B', 'I', 'A', 'S']]) = false) : Excludes ["FC_BIAS"] text :=
  excludes_of_blurred rfl hb h

theorem excludes_expected {text : String} {cs : List Char} (hb : Blurred text cs)
    (h : (tokens cs).any (Token.isAmong [['F', 'C', '_', 'E', 'X', 'P', 'E', 'C', 'T', 'E', 'D']]) = false) :
    Excludes ["FC_EXPECTED"] text :=
  excludes_of_blurred rfl hb h

theorem HasUnits.lacks (h : p.HasUnits weights bias expected) :
    (bias = none → Lacks ["FC_BIAS"] p.unitOps) ∧ (expected = none → Lacks ["FC_EXPECTED"] p.unitOps) := by
  have hbias : ["FC_BIAS"] ⊆ macroWords := by simp [macroWords_eq]
  have hexpected : ["FC_EXPECTED"] ⊆ macroWords := by simp [macroWords_eq]
  have hbody := (LayerStyle.standard p.config.outputWidth).macros_layerBody weights bias
  rw [unitOps, h]
  constructor
  · rintro rfl
    have hdeclarations := (LayerStyle.standard p.config.outputWidth).lacks_layerDeclarations weights none hbias
      (excludes_bias .literal rfl) (by simp)
    have hlayer := lacks_append.2 ⟨hdeclarations, hbody.mono hbias⟩
    cases expected with
    | none => simpa using hlayer
    | some values => simpa using lacks_append.2 ⟨hlayer, LayerStyle.lacks_comparison _ values⟩
  · rintro rfl
    have hdeclarations := (LayerStyle.standard p.config.outputWidth).lacks_layerDeclarations weights bias hexpected
      (excludes_expected .literal rfl) (fun _ => excludes_expected .literal rfl)
    simpa using lacks_append.2 ⟨hdeclarations, hbody.mono hexpected⟩

end Plan

end AccelFirmware
