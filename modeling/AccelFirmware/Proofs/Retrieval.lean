import AccelFirmware.Proofs.Sites

/-!
# Fetching the result

The buffer that the accelerator unloads its result into, and the one path by which a program gets there.
-/

namespace AccelFirmware

open Operation AccelFirmware.Action EmitStep Reserved

/-! ## Constant expressions -/

/-- Reads an expression of sums and quotients with parentheses. An open sum has the terms that are complete, and what becomes of the
next operand within its term; `term` is the value of the term so far. -/
def evaluate (value : List Char → Option Nat) : (outer : List (Nat × (Nat → Nat))) → (sum : Nat) → (apply : Nat → Nat) →
    (term : Option Nat) → List Token → Option Nat
  | outer, sum, apply, term, .mark ' ' :: ts => evaluate value outer sum apply term ts
  | outer, sum, apply, none, .word w :: ts => do
      let v ← value w
      evaluate value outer sum apply (some (apply v)) ts
  | outer, sum, apply, none, .mark '(' :: ts => evaluate value ((sum, apply) :: outer) 0 id none ts
  | outer, sum, _, some t, .mark '+' :: ts => evaluate value outer (sum + t) id none ts
  | outer, sum, _, some t, .mark '/' :: ts => evaluate value outer sum (t / ·) none ts
  | (sum', apply') :: outer, sum, _, some t, .mark ')' :: ts =>
      evaluate value outer sum' apply' (some (apply' (sum + t))) ts
  | [], sum, _, some t, [] => some (sum + t)
  | _, _, _, _, _ => none

/-- The values of words in an expression: numbers, and the number of outputs. -/
def outputValue (outputs : Nat) (word : List Char) : Option Nat :=
  if word = "CNN_NUM_OUTPUTS".toList then some outputs else readDecimal word

/-- The size of the integer types by their names. -/
def typeBits? (name : List Char) : Option Nat :=
  if name ∈ ["int8_t".toList, "uint8_t".toList] then some 8
  else if name ∈ ["int16_t".toList, "uint16_t".toList] then some 16
  else if name ∈ ["int32_t".toList, "uint32_t".toList] then some 32
  else none

def Token.word? : Token → Option (List Char)
  | .word name => some name
  | .mark _ => none

/-- The size in bits of an array of integers that a text declares. -/
def arrayBits? (outputs : Nat) (text : List Char) : Option Nat :=
  let (head, rest) := (tokens text).span (· ≠ .mark '[')
  let (dimension, rest) := rest.tail.span (· ≠ .mark ']')
  match (head.filterMap Token.word?).reverse, rest with
  | _name :: type :: _, [_, .mark ';'] => do
      let bits ← typeBits? type
      let length ← evaluate (outputValue outputs) [] 0 id none dimension
      some (bits * length)
  | _, _ => none

/-! ## The buffer -/

/-- The declaration of the buffer: one array, large enough for every number of outputs and by less than a word too large. -/
theorem outputBuffer_fits (w : OutputWidth) :
    ∃ text, outputBuffer w = .declare text ∧ declaredIn text.toList = [(bufferName w).toList] ∧
      ∀ outputs, ∃ bits, arrayBits? outputs text.toList = some bits ∧
        outputs * w.bits ≤ bits ∧ bits < outputs * w.bits + 32 := by
  cases w with
  | w32 =>
    refine ⟨_, rfl, rfl, fun outputs => ⟨32 * (0 + outputs), rfl, ?_⟩⟩
    simp only [OutputWidth.bits]
    omega
  | w16 =>
    have htext : outputBuffer .w16 = .declare "static int32_t ml_data32[(CNN_NUM_OUTPUTS + 1) / 2];" :=
      congrArg Operation.declare (by decide +kernel)
    refine ⟨_, htext, rfl, fun outputs => ⟨32 * (0 + (0 + outputs + 1) / 2), rfl, ?_⟩⟩
    simp only [OutputWidth.bits]
    omega
  | w8 =>
    have htext : outputBuffer .w8 = .declare "static int32_t ml_data32[(CNN_NUM_OUTPUTS + 3) / 4];" :=
      congrArg Operation.declare (by decide +kernel)
    refine ⟨_, htext, rfl, fun outputs => ⟨32 * (0 + (0 + outputs + 3) / 4), rfl, ?_⟩⟩
    simp only [OutputWidth.bits]
    omega

/-! ## Order in the source of `main` -/

/-- One operation stands somewhere ahead of another. -/
def StandsAhead (first second : Operation) (ops : List Operation) : Prop :=
  ∃ before after, ops = before ++ second :: after ∧ first ∈ before

namespace StandsAhead

variable {first second : Operation} {as bs : List Operation}

theorem of_mem (ha : first ∈ as) (hb : second ∈ bs) : StandsAhead first second (as ++ bs) := by
  obtain ⟨before, after, rfl⟩ := List.append_of_mem hb
  exact ⟨as ++ before, after, by simp, List.mem_append_left _ ha⟩

theorem append_left (h : StandsAhead first second as) : StandsAhead first second (as ++ bs) := by
  obtain ⟨before, after, rfl, hm⟩ := h
  exact ⟨before, after ++ bs, by simp, hm⟩

theorem append_right (h : StandsAhead first second bs) : StandsAhead first second (as ++ bs) := by
  obtain ⟨before, after, rfl, hm⟩ := h
  exact ⟨as ++ before, after, by simp, List.mem_append_right _ hm⟩

end StandsAhead

namespace Plan

variable {p : Plan}

/-- The buffer is declared ahead of its use, with the classification code or on its own. -/
theorem Coherent.buffer_ahead (h : p.Coherent) (ho : p.owns = true) :
    StandsAhead (outputBuffer p.config.outputWidth) (unloadCall p.config.outputWidth)
      ((p.pieces .main).flatMap Piece.operations) := by
  have hunit {u : CodeUnit} (hd : outputBuffer p.config.outputWidth ∈ u.declarations)
      (hb : unloadCall p.config.outputWidth ∈ u.body) :
      StandsAhead (outputBuffer p.config.outputWidth) (unloadCall p.config.outputWidth)
        (gather (operationsOn .main) (unitActions u)) := by
    rw [gather_unitActions _ fun _ _ _ => rfl]
    exact .of_mem hd hb
  rw [operations_pieces, actions_eq, gather_append, gather_append, gather_append, List.append_assoc, List.append_assoc]
  have hopening : gather (operationsOn .main) p.opening = gather (operationsOn .main) p.declarations ++
      (gather (operationsOn .main) (p.units.flatMap unitActions) ++
        (gather (operationsOn .main)
          (if p.config.retrieval = .unload then [.push .main [outputBuffer p.config.outputWidth, .blank]] else []) ++
        gather (operationsOn .main) ((if p.hostsWakeHandler then [wakeHandler] else []) ++
          if p.config.topology = .armHost && p.config.sleep && !p.embedded then [wakeStatusHelper] else []))) := by
    simp [opening, fileScopeFunctions, ho]
  obtain ⟨-, hunload⟩ | ⟨hlayer, -, -⟩ | ⟨-, -, weights, bias, expected, hunits, -⟩ := h.units_cases
  · have hr := hunload ho
    have hretrieve : unloadCall p.config.outputWidth ∈ gather (operationsOn .main) p.inside := by
      have hmem : unloadCall p.config.outputWidth ∈ gather (operationsOn .main) p.retrieve := by
        simp [retrieve, retrieval, hr, LayerKind.ofRetrieval?, operationsOn]
      simp [inside, acceleratorPhases, ho, hmem]
    refine .of_mem ?_ (List.mem_append_right _ (List.mem_append_left _ hretrieve))
    simp [hopening, hr, operationsOn]
  · refine .append_left ?_
    rw [hopening, hlayer]
    refine .append_right (.append_left ?_)
    rw [gather_flatMap, List.flatMap_singleton]
    exact hunit (by simp [LayerStyle.softmaxOnly, LayerStyle.standard]) (by simp [LayerStyle.softmaxOnly, LayerStyle.standard])
  · refine .append_left ?_
    rw [hopening, hunits]
    refine .append_right (.append_left ?_)
    rw [gather_flatMap, List.flatMap_cons]
    exact .append_left (hunit (by simp [LayerStyle.weightedLayer, LayerStyle.kernelCode, LayerStyle.standard])
      (by simp [LayerStyle.weightedLayer, LayerStyle.kernelCode, LayerStyle.standard]))

/-- Of the functions that fetch a result, the layer is defined that the program has code for. -/
theorem Coherent.fetch_defined_iff (h : p.Coherent) {name : String} (hn : name ∈ retrievalFunctions) :
    name ∈ p.definitions.map Definition.name ↔ p.owns = true ∧ name = p.config.fetchName ∧ name ≠ "cnn_unload" := by
  have hother : ∀ d ∈ p.failDefinitions ++ p.libraryDefinitions ++ p.hostDefinitions ++ p.apiDefinitions ++
      [Definition.mk .main "main"], d.name ∉ retrievalFunctions := by
    have hcompletion : p.completionName ∉ retrievalFunctions := by
      simp only [completionName, handlerSignature]
      (repeat' split) <;> decide
    simp only [List.forall_mem_append, failDefinitions, libraryDefinitions, hostDefinitions, apiDefinitions]
    refine ⟨⟨⟨⟨?_, ?_⟩, ?_, ?_⟩, ?_⟩, by decide⟩
    · split <;> decide
    · split
      · refine List.forall_mem_cons.2 ⟨hcompletion, ?_⟩
        split
        · simp [retrievalFunctions]
        · simp
      · simp
    · split <;> decide
    · split <;> decide
    · (repeat' split) <;> decide
  have hunits : name ∈ p.unitDefinitions.map Definition.name ↔
      p.owns = true ∧ name = p.config.fetchName ∧ name ≠ "cnn_unload" := by
    cases ho : p.owns with
    | false => simp [unitDefinitions, ho]
    | true =>
      rw [h.unitDefinition_names ho, layerNames, Configuration.fetchName]
      simp only [retrievalFunctions, List.mem_cons, List.not_mem_nil, or_false] at hn
      rcases hn with rfl | rfl | rfl <;> cases p.config.retrieval <;> cases p.verifies <;> decide
  rw [← hunits]
  constructor
  · intro hm
    obtain ⟨d, hd, rfl⟩ := List.mem_map.1 hm
    refine List.mem_map_of_mem (f := Definition.name) ?_
    by_contra hnot
    refine hother d ?_ hn
    simpa [definitions, hnot] using hd
  · intro hm
    obtain ⟨d, hd, rfl⟩ := List.mem_map.1 hm
    exact List.mem_map_of_mem (f := Definition.name) (by simp [definitions, hd])

/-- The function that calls the driver for the result. -/
def unloader (p : Plan) : String :=
  match p.config.retrieval with
  | .unload => "main"
  | .fullyConnected | .softmaxOnly => p.config.fetchName

theorem Coherent.unload_place (h : p.Coherent) (ho : p.owns = true) :
    .call "cnn_unload" ∈ sitesOfAll (EmittedFunction.bodyOf p.unloader p.functions) := by
  have hsite {ops : List Operation} (hm : unloadCall p.config.outputWidth ∈ ops) : .call "cnn_unload" ∈ sitesOfAll ops :=
    collects_sites.subset hm (List.mem_singleton_self _)
  have hunit {u : CodeUnit} (hu : u ∈ p.units) (hb : unloadCall p.config.outputWidth ∈ u.body) :
      .call "cnn_unload" ∈ sitesOfAll (EmittedFunction.bodyOf u.signature.name p.functions) := by
    have hwhole : ⟨.main, u.signature, u.body, u.result⟩ ∈ gather whole (p.units.flatMap unitActions) := by
      rw [gather_flatMap]
      refine List.mem_flatMap.2 ⟨u, hu, ?_⟩
      rw [gather_unitActions _ fun _ _ _ => rfl]
      simp [whole]
    have hfunction : EmittedFunction.mk .main u.signature u.body u.result ∈ p.functions := by
      simp [functions_eq, opening, fileScopeFunctions, ho, hwhole]
    rw [EmittedFunction.bodyOf_of_mem h.functionNames_nodup hfunction]
    exact hsite hb
  obtain ⟨-, hunload⟩ | ⟨hlayer, -, hr⟩ | ⟨-, hr, weights, bias, expected, hunits, -⟩ := h.units_cases
  · have hr := hunload ho
    rw [unloader, hr, h.main_body]
    refine hsite ?_
    have hmem : unloadCall p.config.outputWidth ∈ gather (pushed .main) p.retrieve := by
      simp [retrieve, retrieval, hr, LayerKind.ofRetrieval?, pushed]
    simp [inside, acceleratorPhases, ho, hmem]
  · rw [unloader, Configuration.fetchName, hr]
    exact hunit (u := (LayerStyle.standard p.config.outputWidth).softmaxOnly) (by simp [hlayer])
      (by simp [LayerStyle.softmaxOnly, LayerStyle.standard])
  · rw [unloader, Configuration.fetchName, hr]
    exact hunit (u := (LayerStyle.standard p.config.outputWidth).weightedLayer weights bias) (by rw [hunits]; simp)
      (by simp [LayerStyle.weightedLayer, LayerStyle.kernelCode, LayerStyle.standard])

theorem count_unload (ho : p.owns = true) : p.allPlaces.count (.call "cnn_unload") = 1 := by
  rw [allPlaces, if_pos ho, unitPlaces, Configuration.fetchName]
  cases p.config.retrieval <;> by_cases hn : p.config.oneshot > 0 <;> cases p.config.forever <;> simp [hn]

theorem count_buffer (ho : p.owns = true) : p.allPlaces.count (.declaration (bufferName p.config.outputWidth)) = 1 := by
  rw [allPlaces, if_pos ho, unitPlaces]
  cases p.config.retrieval <;> by_cases hn : p.config.oneshot > 0 <;> cases p.config.forever <;> simp [hn]

end Plan

/-! ## The path to the result -/

def fetching? (name : String) : Option String := if name ∈ retrievalFunctions then some name else none

/-- The function that an operation fetches the result by. -/
def Operation.fetch? : Operation → Option String
  | .call callee _ _ | .check callee _ => fetching? callee.name
  | _ => none

def AcceleratorStep.fetch? : AcceleratorStep → Option String
  | .call name | .check name => fetching? name
  | .wait => none

/-- What fetches the result is asked of the accelerator. -/
theorem Operation.fetch?_eq (op : Operation) : op.fetch? = op.acceleratorStep?.bind AcceleratorStep.fetch? := by
  have hdrives : ∀ name ∈ retrievalFunctions, isAcceleratorFunction name = true := by decide
  have hother {name : String} (hn : ¬ isAcceleratorFunction name = true) : fetching? name = none :=
    if_neg fun hm => hn (hdrives name hm)
  cases op with
  | call callee args note | check callee policy =>
    simp only [fetch?, acceleratorStep?]
    split
    · rfl
    · rename_i hn
      exact hother hn
  | _ => rfl

namespace Configuration

variable (c : Configuration)

theorem fetches_repeated {steps : List AcceleratorStep} (hs : steps.filterMap AcceleratorStep.fetch? = []) (n : Nat) :
    (List.replicate n steps).flatten.filterMap AcceleratorStep.fetch? = [] := by
  rw [List.filterMap_eq_nil_iff] at hs ⊢
  intro x hx
  obtain ⟨lap, hlap, hmem⟩ := List.mem_flatten.1 hx
  obtain ⟨-, rfl⟩ := List.mem_replicate.1 hlap
  exact hs x hmem

theorem fetches_kernelSteps : c.kernelSteps.filterMap AcceleratorStep.fetch? = [] := by
  simp only [kernelSteps]
  split
  · rw [List.filterMap_append, measured, measured, fetches_repeated rfl, fetches_repeated rfl]
    rfl
  · split <;> rfl

theorem fetches_setupSteps : c.setupSteps.filterMap AcceleratorStep.fetch? = [] := by
  simp only [setupSteps, List.filterMap_append, fetches_kernelSteps]
  cases c.verifyKernels <;> cases c.bias <;> rfl

theorem fetches_firstRunSteps : c.firstRunSteps.filterMap AcceleratorStep.fetch? = [] := by
  have hstart : c.startSteps.filterMap AcceleratorStep.fetch? = [] := by
    simp only [startSteps]
    split <;> rfl
  have hstop : c.stopSteps.filterMap AcceleratorStep.fetch? = [] := by
    simp only [stopSteps]
    split <;> rfl
  have hwait : [AcceleratorStep.wait].filterMap AcceleratorStep.fetch? = [] := rfl
  simp only [firstRunSteps]
  split
  · rw [List.filterMap_append, hstop, measured, fetches_repeated (by rw [List.filterMap_append, hstart, hwait]; rfl)]
    rfl
  · rw [List.filterMap_append, List.filterMap_append, hstart, hstop, hwait]
    rfl

theorem fetches_resultSteps (golden : Bool) : (c.resultSteps golden).filterMap AcceleratorStep.fetch? = [c.fetchName] := by
  simp only [resultSteps, fetchName]
  cases c.verifyOutput <;> cases c.retrieval <;> cases golden <;> decide

/-- A program fetches the result once, whatever comes before and after. -/
theorem fetches_mainSteps (golden : Bool) (rounds : Nat) :
    ((c.mainSteps golden).laps rounds).filterMap AcceleratorStep.fetch? = [c.fetchName] := by
  have hfurther : c.furtherSteps.filterMap AcceleratorStep.fetch? = [] := fetches_repeated rfl _
  have hloop : (List.replicate rounds ((c.mainSteps golden).endless.getD [])).flatten.filterMap AcceleratorStep.fetch? = [] := by
    refine fetches_repeated ?_ rounds
    simp only [mainSteps]
    split <;> rfl
  rw [Execution.laps, List.filterMap_append, hloop]
  simp only [mainSteps, List.filterMap_append, fetches_setupSteps, fetches_firstRunSteps, hfurther, fetches_resultSteps]
  rfl

end Configuration

namespace Synthesis

/-- One path to the result, by way of one buffer. -/
structure FetchesOnce (s : Synthesis) (c : Configuration) : Prop where
  /-- The driver is called for the result in one place of all sources. -/
  unloads : (sitesOfAll s.plan.emitted).count (.call "cnn_unload") = 1
  place : .call "cnn_unload" ∈ sitesOfAll (EmittedFunction.bodyOf s.plan.unloader s.plan.functions)
  /-- Whatever the conditions of `main` are and however often it loops, it goes this way once and no other way. -/
  path : ∀ taken rounds, ((executionOfAll taken (EmittedFunction.bodyOf "main" s.plan.functions)).laps rounds).filterMap
    Operation.fetch? = [c.fetchName]
  layers : ∀ name ∈ ["fc_layer", "softmax_layer"],
    name ∈ s.program.text.functions.map Definition.name ↔ name = c.fetchName
  /-- The buffer is the array that is declared ahead of the call, and is large enough for all outputs. -/
  buffer : ∃ name text, StandsAhead (.declare text) (.call (.provided "cnn_unload") ["(uint32_t *) " ++ name])
      ((s.plan.pieces .main).flatMap Piece.operations) ∧
    declaredIn text.toList = [name.toList] ∧ (sitesOfAll s.plan.emitted).count (.declaration name) = 1 ∧
    ∀ outputs, ∃ bits, arrayBits? outputs text.toList = some bits ∧
      outputs * c.outputWidth.bits ≤ bits ∧ bits < outputs * c.outputWidth.bits + 32

variable {c : Configuration} {d : Device} {i : Inputs} {s : Synthesis}

/-- A core that drives the accelerator fetches the result once, and a host has nothing to do with it. -/
theorem result_fetched_once (h : run c d i = .ok s) :
    (∀ sink, s.program.text.texts.get sink = Piece.renderAll (s.plan.pieces sink)) ∧
    (c.topology.ownsAccelerator = true → s.FetchesOnce c) ∧
    (c.topology = .armHost → ∀ name ∈ retrievalFunctions,
      .call name ∉ sitesOfAll s.plan.emitted ∧ name ∉ s.program.text.functions.map Definition.name) := by
  have hpath (ho : c.topology.ownsAccelerator = true) := main_steps h ho
  have htext := text_eq h
  obtain ⟨-, hfunctions⟩ := lifecycle_eq h
  obtain ⟨hcoherent, rfl, -, -⟩ := run_ok h
  have htracks : ∀ name ∈ retrievalFunctions, s.plan.tracks (.call name) = true := by
    intro name hname
    simpa [Plan.tracks] using hname
  refine ⟨htext, fun ho => ?_, fun hhost name hname => ?_⟩
  · have howns : s.plan.owns = true := ho
    have hunloads : (sitesOfAll s.plan.emitted).count (.call "cnn_unload") = 1 := by
      rw [hcoherent.count_site (htracks _ (by decide)), s.plan.count_unload howns]
    obtain ⟨text, htext, hdeclared, hfits⟩ := outputBuffer_fits s.plan.config.outputWidth
    refine ⟨hunloads, hcoherent.unload_place howns, fun taken rounds => ?_, fun name hname => ?_,
      bufferName s.plan.config.outputWidth, text, ?_, hdeclared, ?_, hfits⟩
    · have hfetch : Operation.fetch? = fun op => op.acceleratorStep?.bind AcceleratorStep.fetch? := funext Operation.fetch?_eq
      rw [hfetch, ← List.filterMap_filterMap, Execution.filterMap_laps]
      change ((acceleratorSteps taken _).laps rounds).filterMap _ = _
      rw [hpath ho taken, Configuration.fetches_mainSteps]
    · have hlayer : name ∈ retrievalFunctions ∧ name ≠ "cnn_unload" := by
        rcases List.mem_pair.1 hname with rfl | rfl <;> decide
      rw [hfunctions, hcoherent.fetch_defined_iff hlayer.1]
      simp [howns, hlayer.2]
    · rw [← htext]
      exact hcoherent.buffer_ahead howns
    · rw [hcoherent.count_site (by simp [Plan.tracks]), s.plan.count_buffer howns]
  · have howns : s.plan.owns = false := by rw [Plan.owns, hhost]; rfl
    constructor
    · have hnone : (sitesOfAll s.plan.emitted).count (.call name) = 0 := by
        rw [hcoherent.count_site (htracks name hname), Plan.allPlaces, howns]
        rfl
      exact List.count_eq_zero.1 hnone
    · rw [hfunctions, hcoherent.fetch_defined_iff hname]
      simp [howns]

theorem result_fetched_once_split : ∃ s, run splitClassifier .ai85 goldenWeights = .ok s ∧ s.FetchesOnce splitClassifier ∧
    splitClassifier.fetchName = "fc_layer" := by
  obtain ⟨s, hs⟩ := exists_run (c := splitClassifier) (d := .ai85) (i := goldenWeights) (by decide)
  obtain ⟨-, howner, -⟩ := result_fetched_once hs
  exact ⟨s, hs, howner rfl, rfl⟩

end Synthesis

end AccelFirmware
