import AccelFirmware.Proofs.MainSource

/-!
# Headers of the array literals

The array literals of the classification code are macros in two headers, and what refers to them stands in the source of `main`.
The source has to include a header before it refers to a macro that is defined there.
-/

namespace AccelFirmware

/-! ## Literals -/

/-- What a step puts on sinks as it stands. -/
def EmitStep.literals : EmitStep → List (Sink × String)
  | .raw s text => [(s, text)]
  | _ => []

def Operation.headerName? : Operation → Option String
  | .header name _ _ => some name
  | _ => none

/-- Whether a text begins with the definition of a macro. -/
def defines (name text : String) : Bool := ("#define " ++ name ++ " ").toList.isPrefixOf text.toList

/-- Where a text is split at a character is settled by the first occurrence. -/
theorem eq_of_append_cons {as bs cs ds : List Char} {c : Char} (ha : c ∉ as) (hb : c ∉ bs)
    (h : as ++ c :: cs = bs ++ c :: ds) : as = bs := by
  have hall {xs : List Char} (hx : c ∉ xs) : ∀ x ∈ xs, (x != c) = true := fun x hm => by
    rw [bne_iff_ne]
    rintro rfl
    exact hx hm
  have htake := congrArg (List.takeWhile (· != c)) h
  simpa [List.takeWhile_append_of_pos (hall ha), List.takeWhile_append_of_pos (hall hb)] using htake

/-- Array literals define the macro that they are named for, and no other. -/
theorem defines_define (a : ArrayLiteral) {name : String} (ha : ' ' ∉ a.name.toList) (hn : ' ' ∉ name.toList) :
    defines name a.define = true ↔ a.name = name := by
  obtain ⟨rest, htext⟩ : ∃ rest, a.define.toList = "#define ".toList ++ (a.name.toList ++ ' ' :: rest) :=
    ⟨"\x7b \\\n  ".toList ++ (ArrayLiteral.elements a.format a.wrapWidth 1 a.values).toList ++ " \\\n\x7d\n".toList,
      by simp [ArrayLiteral.define]⟩
  have hname : ("#define " ++ name ++ " ").toList = "#define ".toList ++ (name.toList ++ [' ']) := by simp
  rw [defines, List.isPrefixOf_iff_prefix, htext, hname, List.prefix_append_right_inj]
  constructor
  · rintro ⟨more, hmore⟩
    rw [List.append_assoc] at hmore
    exact (String.toList_injective (eq_of_append_cons hn ha hmore)).symm
  · rintro rfl
    exact ⟨rest, by simp⟩

theorem defines_array {name : String} (hn : ' ' ∉ name.toList) (values : List Int) :
    defines name (LayerStyle.decimals name values).define = true := (defines_define _ hn hn).2 rfl

/-- A macro is defined by a literal, and the file of this literal is among the headers of some operations. -/
def Visible (c : Configuration) (literals : List (Sink × String)) (ops : List Operation) (name : String) : Prop :=
  ∃ sink text, (sink, text) ∈ literals ∧ defines name text = true ∧ c.fileName sink ∈ ops.filterMap Operation.headerName?

/-- Wherever the source of `main` refers to the macro of an array, the macro is visible by then. -/
def LiteralsVisible (c : Configuration) (actions : List Action) : Prop :=
  ∀ before op after, Action.gather (EmitStep.operationsOn .main) actions = before ++ op :: after →
    ∀ name ∈ ["FC_WEIGHTS", "FC_BIAS", "FC_EXPECTED"], op.mentions name = true →
      Visible c (Action.gather EmitStep.literals actions) before name

namespace Plan

variable (p : Plan)

open Operation AccelFirmware.Action EmitStep

/-! ## Headers -/

/-- The headers in the source of `main` whose names are fixed. -/
def fixedHeaders : List String :=
  (p.systemHeaders ++ p.platformHeaders p.mainPart).filterMap headerName? ++
  (if p.config.camera.isSome then ["pcif_defines_af2.h", "pcif.c"] else []) ++
  if p.embedded then ["cnn.h"] else []

/-- The names of all headers in the source of `main`. The header of the weights is left to the library. -/
def mainHeaders : List String :=
  p.fixedHeaders ++
  (if !p.config.isSplit && (p.embedded || p.config.compactWeights) then [p.config.weightsHeader] else []) ++
  if p.embedded || p.config.compactData then [p.config.sampleHeader] else []

theorem headers_includes : (p.includes p.mainPart).filterMap headerName? = p.mainHeaders := by
  have hconstants : (p.constants p.mainPart).filterMap headerName? = [] := by
    simp only [constants]
    (repeat' split) <;> rfl
  have hprogram : (p.programHeaders p.mainPart).filterMap headerName? =
      (if p.config.camera.isSome then ["pcif_defines_af2.h", "pcif.c"] else []) ++ (if p.embedded then ["cnn.h"] else []) ++
      (if !p.config.isSplit && (p.embedded || p.config.compactWeights) then [p.config.weightsHeader] else []) ++
      if p.embedded || p.config.compactData then [p.config.sampleHeader] else [] := by
    simp only [programHeaders, mainPart_isApplication, mainPart_isLibrary]
    cases p.config.isSplit <;> cases p.config.camera <;> cases p.embedded <;> cases p.config.compactWeights <;>
      cases p.config.compactData <;> rfl
  simp only [includes, List.filterMap_append, hconstants, hprogram, fixedHeaders, mainHeaders, List.append_nil]
  simp [headerName?]

variable {p}

theorem headers_stateOps : p.stateOps.filterMap headerName? = [] := by
  have happlication : (gather (operationsOn .main) (p.applicationState .main)).filterMap headerName? = [] := by
    simp only [applicationState, failBody]
    (repeat' split) <;> rfl
  have hhandler : p.handlerBody.filterMap headerName? = [] := by
    have hgroups : (p.config.groups.members.map fun g =>
        writeAt (p.device.ctlAddress g) .keepBits p.acknowledgement).filterMap headerName? = [] :=
      List.filterMap_eq_nil_iff.2 fun op hop => by
        obtain ⟨g, _, rfl⟩ := List.mem_map.1 hop
        rfl
    have hheading (text : String) : (Operation.comment text).headerName? = none := rfl
    simp only [handlerBody, List.filterMap_append, List.filterMap_cons_none (hheading _), hgroups]
    (repeat' split) <;> rfl
  have hlibrary : (gather (operationsOn .main) (p.completionFunction .main :: p.groupControl .main)).filterMap headerName? =
      [] := by
    rw [← List.singleton_append, gather_append, List.filterMap_append]
    have hcompletion : (gather (operationsOn .main) [p.completionFunction .main]).filterMap headerName? = [] := by
      simp only [completionFunction]
      cases p.waitStrategy with
      | interrupt => simpa [operationsOn] using hhandler
      | poll => rfl
    have hcontrol : (gather (operationsOn .main) (p.groupControl .main)).filterMap headerName? = [] := by
      simp only [groupControl]
      (repeat' split) <;> rfl
    rw [hcompletion, hcontrol]
    rfl
  rw [stateOps, gather_append, List.filterMap_append, happlication]
  split
  · rfl
  · exact hlibrary

/-! ## Literals of the classification code -/

def unitLiterals (p : Plan) : List (Sink × String) :=
  p.units.flatMap fun u => u.literals.flatMap fun (sink, text) => [(sink, text), (sink, "\n")]

theorem literals_inside : gather literals p.inside = [] := by
  refine List.subset_nil.1 (p.gather_inside_subset (fun _ => List.Subset.refl _) ?_ ?_ ?_ ?_ ?_ ?_) <;>
    rw [List.subset_nil]
  · simp only [locals]
    split <;> rfl
  · simp only [acceleratorBringUp, boostOn]
    (repeat' split) <;> rfl
  · simp only [configure]
    (repeat' split) <;> rfl
  · simp only [execute, firstRun, furtherRuns, boostOff]
    (repeat' split) <;> rfl
  · simp only [retrieve]
    (repeat' split) <;> rfl
  · simp only [ending, acceleratorShutdown]
    (repeat' split) <;> rfl

/-- All literals come from the classification code. -/
theorem literals_actions : gather literals p.actions = if p.owns then p.unitLiterals else [] := by
  have hhead (sink : Sink) (part : Part) : gather literals (p.sourceHead sink part) = [] := by
    simp only [sourceHead, applicationState, completionFunction, groupControl]
    (repeat' split) <;> rfl
  have hdeclarations : gather literals p.declarations = [] := by
    simp only [declarations]
    split <;> simp [hhead]
  have hunit (ls : List (Sink × String)) :
      gather literals (ls.flatMap fun (sink, text) => [.emit (.raw sink text), .emit (.raw sink "\n")]) =
        ls.flatMap fun (sink, text) => [(sink, text), (sink, "\n")] := by
    induction ls with
    | nil => rfl
    | cons l ls ih => simp [ih, literals]
  have hunits : gather literals (p.units.flatMap unitActions) = p.unitLiterals := by
    rw [unitLiterals]
    induction p.units with
    | nil => rfl
    | cons u us ih => simp [unitActions, hunit, ih, literals]
  have hscope : gather literals p.fileScopeFunctions = if p.owns then p.unitLiterals else [] := by
    simp only [fileScopeFunctions, wakeHandler, wakeStatusHelper]
    (repeat' split) <;> simp [hunits, literals]
  rw [actions_eq, opening]
  simp [hdeclarations, hscope, literals_inside, literals]

variable {weights : WeightMatrix} {bias expected : Option (List Int)}

/-- A literal that defines a macro is that of an array of the layer. -/
theorem HasUnits.literal_values (h : p.HasUnits weights bias expected) {sink : Sink} {text name : String}
    (hm : (sink, text) ∈ p.unitLiterals) (hn : ' ' ∉ name.toList) (hd : defines name text = true) :
    ∃ values, text = (LayerStyle.decimals name values).define ∧
      (name = "FC_WEIGHTS" ∧ sink = .weights ∧ values = weights.interleave ∨
        name = "FC_BIAS" ∧ sink = .weights ∧ bias = some values ∨
        name = "FC_EXPECTED" ∧ sink = .sampleData ∧ expected = some values) := by
  -- Every literal is followed by an empty line, which defines nothing.
  have hbreak : defines name "\n" = false := by
    have hhash : ("#define " ++ name ++ " ").toList = '#' :: ("define " ++ name ++ " ").toList := by simp
    rw [defines, hhash]
    rfl
  have hdefine {array : String} {values : List Int} (ha : ' ' ∉ array.toList)
      (htext : text = (LayerStyle.decimals array values).define ∨ text = "\n") :
      array = name ∧ text = (LayerStyle.decimals array values).define := by
    rcases htext with rfl | rfl
    · exact ⟨(defines_define _ ha hn).1 hd, rfl⟩
    · rw [hbreak] at hd
      cases hd
  obtain ⟨u, hu, literal, hl, hsink, htext⟩ :
      ∃ u ∈ p.units, ∃ literal ∈ u.literals, sink = literal.1 ∧ (text = literal.2 ∨ text = "\n") := by
    simp only [unitLiterals, List.mem_flatMap] at hm
    obtain ⟨u, hu, literal, hl, hm⟩ := hm
    refine ⟨u, hu, literal, hl, ?_⟩
    simp only [List.mem_cons, Prod.mk.injEq, List.not_mem_nil, or_false] at hm
    rcases hm with ⟨hsink, htext⟩ | ⟨hsink, htext⟩
    · exact ⟨hsink, .inl htext⟩
    · exact ⟨hsink, .inr htext⟩
  rw [h] at hu
  rcases List.mem_cons.1 hu with rfl | hu
  · rcases List.mem_cons.1 hl with rfl | hl
    · obtain ⟨rfl, htext⟩ := hdefine (by decide) htext
      exact ⟨_, htext, Or.inl ⟨rfl, hsink, rfl⟩⟩
    · obtain ⟨values, hvalues, rfl⟩ : ∃ values, bias = some values ∧ _ = literal := by simpa using hl
      obtain ⟨rfl, htext⟩ := hdefine (by decide) htext
      exact ⟨values, htext, Or.inr (Or.inl ⟨rfl, hsink, hvalues⟩)⟩
  · obtain ⟨values, hvalues, rfl⟩ : ∃ values, expected = some values ∧ _ = u := by simpa using hu
    obtain rfl := List.mem_singleton.1 hl
    obtain ⟨rfl, htext⟩ := hdefine (by decide) htext
    exact ⟨values, htext, Or.inr (Or.inr ⟨rfl, hsink, hvalues⟩)⟩

theorem HasUnits.literals (h : p.HasUnits weights bias expected) :
    (Sink.weights, (LayerStyle.decimals "FC_WEIGHTS" weights.interleave).define) ∈ p.unitLiterals ∧
    (∀ values, bias = some values → (Sink.weights, (LayerStyle.decimals "FC_BIAS" values).define) ∈ p.unitLiterals) ∧
    ∀ values, expected = some values → (Sink.sampleData, (LayerStyle.decimals "FC_EXPECTED" values).define) ∈ p.unitLiterals := by
  have hmem {u : CodeUnit} (hu : u ∈ p.units) {literal : Sink × String} (hl : literal ∈ u.literals) :
      literal ∈ p.unitLiterals :=
    List.mem_flatMap.2 ⟨u, hu, List.mem_flatMap.2 ⟨literal, hl, by simp⟩⟩
  have hlayer : (LayerStyle.standard p.config.outputWidth).weightedLayer weights bias ∈ p.units := by
    rw [h]
    simp
  refine ⟨hmem hlayer List.mem_cons_self, ?_, ?_⟩
  · rintro values rfl
    exact hmem hlayer (List.mem_cons_of_mem _ (List.mem_singleton_self _))
  · rintro values rfl
    have hverification : (LayerStyle.standard p.config.outputWidth).comparison values ∈ p.units := by
      rw [h]
      simp
    exact hmem hverification (List.mem_singleton_self _)

/-- All headers ahead of `main` are includes. -/
theorem HasUnits.headers_opening (h : p.HasUnits weights bias expected) :
    (p.includes p.mainPart ++ (p.stateOps ++ p.unitOps)).filterMap headerName? = p.mainHeaders := by
  have hunits : p.unitOps.filterMap headerName? = [] := by
    rw [unitOps, h]
    cases bias <;> cases expected <;> cases p.config.outputWidth <;> rfl
  rw [List.filterMap_append, List.filterMap_append, headers_includes, headers_stateOps, hunits]
  simp

/-! ## Visibility -/

/-- Where some operations come first and do not have a word, they come before whatever has it. -/
theorem subset_before {words : List String} {name : String} {first rest before after : List Operation} {op : Operation}
    (hfirst : Lacks words first) (hn : name ∈ words) (hops : first ++ rest = before ++ op :: after)
    (hmentions : op.mentions name = true) : first ⊆ before := by
  rcases List.append_eq_append_iff.1 hops with ⟨more, rfl, _⟩ | ⟨more, rfl, hmore⟩
  · exact List.subset_append_left _ _
  · cases more with
    | nil => simp
    | cons other more =>
      obtain ⟨rfl, -⟩ := List.cons.inj hmore
      rw [hfirst.not_mentions hn (by simp)] at hmentions
      cases hmentions

/-- A macro that the classification code refers to is only visible if the header of its literal is included. -/
theorem HasUnits.header_of_visible (h : p.HasUnits weights bias expected) (ho : p.owns = true)
    (hr : p.config.retrieval = .fullyConnected) (hv : LiteralsVisible p.config p.actions) (name : String)
    (hn : name ∈ ["FC_WEIGHTS", "FC_BIAS", "FC_EXPECTED"]) {op : Operation} (hop : op ∈ p.unitOps)
    (hmentions : op.mentions name = true) :
    (name ∈ ["FC_WEIGHTS", "FC_BIAS"] → p.config.weightsHeader ∈ p.mainHeaders) ∧
      (name = "FC_EXPECTED" → p.config.sampleHeader ∈ p.mainHeaders) := by
  obtain ⟨before, after, hsplit⟩ :=
    List.append_of_mem (List.mem_append_right (p.includes p.mainPart) (List.mem_append_right p.stateOps hop))
  have hops : gather (operationsOn .main) p.actions = before ++ op :: (after ++ gather (pushed .main) p.inside) := by
    rw [operations_actions ho hr, hsplit]
    simp
  obtain ⟨sink, text, hliteral, hdefines, hheader⟩ := hv _ _ _ hops name hn hmentions
  have hincluded : p.config.fileName sink ∈ p.mainHeaders := by
    rw [← h.headers_opening, hsplit, List.filterMap_append]
    exact List.mem_append_left _ hheader
  have hspace : ∀ name ∈ ["FC_WEIGHTS", "FC_BIAS", "FC_EXPECTED"], ' ' ∉ name.toList := by decide
  rw [literals_actions, if_pos ho] at hliteral
  obtain ⟨-, -, ⟨rfl, rfl, -⟩ | ⟨rfl, rfl, -⟩ | ⟨rfl, rfl, -⟩⟩ := h.literal_values hliteral (hspace name hn) hdefines
  · exact ⟨fun _ => hincluded, by simp⟩
  · exact ⟨fun _ => hincluded, by simp⟩
  · exact ⟨by simp, fun _ => hincluded⟩

theorem Coherent.literalsVisible_iff (hc : p.Coherent) (ho : p.owns = true) (hr : p.config.retrieval = .fullyConnected) :
    LiteralsVisible p.config p.actions ↔
      p.config.weightsHeader ∈ p.mainHeaders ∧ (p.verifies = true → p.config.sampleHeader ∈ p.mainHeaders) := by
  obtain ⟨weights, bias, expected, hunits, hverifies⟩ := hc.fullyConnected_units ho hr
  have h : p.HasUnits weights bias expected := hunits
  constructor
  · intro hv
    constructor
    · have hop : Operation.declare "static const q7_t fc_weights[] = FC_WEIGHTS;" ∈ p.unitOps := by
        rw [unitOps, h]
        simp [LayerStyle.weightedLayer, LayerStyle.kernelCode]
      exact (h.header_of_visible ho hr hv "FC_WEIGHTS" (by simp) hop (by decide +kernel)).1 (by simp)
    · intro hexpected
      obtain ⟨values, rfl⟩ := Option.isSome_iff_exists.1 (hverifies.trans hexpected)
      have hop : Operation.declare "static q15_t fc_expected[CNN_NUM_OUTPUTS] = FC_EXPECTED;" ∈ p.unitOps := by
        rw [unitOps, h]
        simp [LayerStyle.comparison, LayerStyle.comparisonCode]
      exact (h.header_of_visible ho hr hv "FC_EXPECTED" (by simp) hop (by decide +kernel)).2 rfl
  · rintro ⟨hweights, hsample⟩ before op after hops name hn hmentions
    have hlacks {word : String} (hw : word ∈ ["FC_WEIGHTS", "FC_BIAS", "FC_EXPECTED"]) (hunit : Lacks [word] p.unitOps) :
        Lacks [word] (gather (operationsOn .main) p.actions) := by
      have hsub : [word] ⊆ macroWords := by simpa [macroWords_eq] using hw
      have hinside : Lacks macroWords (gather (pushed .main) p.inside) :=
        lacks_inside ho (List.subset_cons_self _ _) (mentions_boost.1.macros (by decide)) (mentions_boost.2.macros (by decide))
      rw [operations_actions ho hr]
      exact lacks_append.2 ⟨lacks_append.2 ⟨(p.macros_includes _).mono hsub,
        lacks_append.2 ⟨p.macros_stateOps.mono hsub, hunit⟩⟩, hinside.mono hsub⟩
    have hmentioned {word : String} (hw : Lacks [word] (gather (operationsOn .main) p.actions)) : name ≠ word := by
      rintro rfl
      rw [hw.not_mentions (List.mem_singleton_self _) (by simp [hops])] at hmentions
      cases hmentions
    -- The includes mention none of the macros, so all of them come before the reference.
    have hbefore : p.includes p.mainPart ⊆ before := by
      rw [operations_actions ho hr, List.append_assoc] at hops
      exact subset_before (p.macros_includes _) (by simpa [macroWords_eq] using hn) hops hmentions
    have hincluded {header : String} (hm : header ∈ p.mainHeaders) : header ∈ before.filterMap headerName? := by
      rw [← headers_includes] at hm
      exact List.filterMap_subset _ hbefore hm
    obtain ⟨hlayer, hbias, hexpected⟩ := h.literals
    rw [literals_actions, if_pos ho]
    simp only [List.mem_cons, List.not_mem_nil, or_false] at hn
    rcases hn with rfl | rfl | rfl
    · exact ⟨.weights, _, hlayer, defines_array (by decide) _, hincluded hweights⟩
    · cases hb : bias with
      | none => exact absurd rfl (hmentioned (hlacks (by simp) (h.lacks.1 hb)))
      | some values =>
        exact ⟨.weights, _, hbias values hb, defines_array (by decide) values, hincluded hweights⟩
    · cases he : expected with
      | none => exact absurd rfl (hmentioned (hlacks (by simp) (h.lacks.2 he)))
      | some values =>
        exact ⟨.sampleData, _, hexpected values he, defines_array (by decide) values, hincluded (hsample (by simp [← hverifies, he]))⟩

end Plan

namespace Synthesis

variable {c : Configuration} {d : Device} {i : Inputs} {s : Synthesis}

/-- The literals are visible to the source of `main` if it includes their headers. The header of the weights is missing in the
split layout, and in simulations with another form of weights. -/
theorem main_literals_visible_iff (h : run c d i = .ok s) (ho : c.topology.ownsAccelerator = true)
    (hr : c.retrieval = .fullyConnected) :
    LiteralsVisible c s.plan.actions ↔
      c.weightsHeader ∈ s.plan.mainHeaders ∧ (i.expected.isSome = true → c.sampleHeader ∈ s.plan.mainHeaders) := by
  obtain ⟨hcoherent, rfl, rfl, hverifies⟩ := run_ok h
  rw [← hverifies]
  exact hcoherent.literalsVisible_iff ho hr

/-- An embedded program in the split layout with a fully-connected layer. -/
def splitClassifier : Configuration :=
  ⟨{ Settings.initial with
      groups := .ofList [0], target := .embedded, layout := .splitApi, retrieval := .fullyConnected }, by decide⟩

def smallWeights : Inputs := ⟨some ⟨2, 2, [1, 2, 3, 4]⟩, none, none⟩

theorem main_literals_hidden_split : ∃ s, run splitClassifier .ai85 smallWeights = .ok s ∧
    ¬ LiteralsVisible splitClassifier s.plan.actions := by
  obtain ⟨s, hs⟩ := exists_run (c := splitClassifier) (d := .ai85) (i := smallWeights) (by decide)
  refine ⟨s, hs, ?_⟩
  rw [main_literals_visible_iff hs rfl rfl]
  obtain ⟨_, hc, hd, hverifies⟩ := run_ok hs
  obtain ⟨⟨_, _, mask, units, _⟩, _⟩ := s
  simp only at hc hd hverifies
  subst hc hd hverifies
  have hheaders : Plan.mainHeaders ⟨splitClassifier, .ai85, mask, units, smallWeights.expected.isSome⟩ =
      ["stdlib.h", "stdint.h", "string.h", "stdio.h", "mxc.h", "cnn.h", "sampledata.h"] := rfl
  have hname : splitClassifier.weightsHeader = "weights.h" := rfl
  simp [hheaders, hname]

end Synthesis

end AccelFirmware
