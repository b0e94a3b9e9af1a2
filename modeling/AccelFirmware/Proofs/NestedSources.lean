import AccelFirmware.Proofs.Nesting
import AccelFirmware.Proofs.RunWording

/-!
# Nesting in the sources of a program

The brackets of every source match, and its functions stand one after the other at the outermost level. An opening bracket right
behind a line break begins the body of a function, so the text of a function is not part of another one's.
-/

namespace AccelFirmware

open Operation AccelFirmware.Action EmitStep

/-! ## Heads of functions -/

/-- The signatures of all functions that programs may have, with what these return. -/
def functionFrames : List (Signature × Option String) :=
  [(.procedure "fail", none), (.procedure "CNN_ISR", none),
   (⟨"void __attribute__((interrupt(\"machine\")))", "CNN_IRQHandler", "void"⟩, none), (.procedure "cnn_wait", none),
   (.status "cnn_continue", some "CNN_OK"), (.status "cnn_stop", some "CNN_OK"),
   (.procedure "softmax_layer", none), (.procedure "fc_layer", none),
   (.status "fc_verify", some "memcmp(fc_output, fc_expected, CNN_NUM_OUTPUTS * sizeof(q15_t)) == 0"),
   (.procedure "WakeISR", none), (.procedure "_MXC_LP_ClearWakeStatus", none), (Plan.enableSignature, some "CNN_OK"),
   (⟨"int", "cnn_boost_enable", boostParameters⟩, some "CNN_OK"),
   (⟨"int", "cnn_boost_disable", boostParameters⟩, some "CNN_OK"), (.status "cnn_disable", some "CNN_OK"),
   (.status "main", some "0")]

namespace Signature

def letters (s : Signature) : List Char :=
  s.returnType.toList ++ ' ' :: s.name.toList ++ '(' :: s.arguments.toList ++ [')']

theorem render_toList (s : Signature) : s.render.toList = s.letters := by
  simp [render, letters]

end Signature

theorem bracketless_frames : ∀ frame ∈ functionFrames,
    Bracketless frame.1.render ∧ ∀ result ∈ frame.2, Bracketless result := by
  have hletters : functionFrames.all (fun frame => omits [] frame.1.letters &&
      frame.2.all fun result => omits [] result.toList) = true := by decide +kernel
  intro frame hframe
  obtain ⟨hsignature, hresult⟩ := Bool.and_eq_true_iff.1 (List.all_eq_true.1 hletters frame hframe)
  have hplain {text : String} (h : omits [] text.toList = true) : Bracketless text := by
    simpa using bracketless_literal h
  refine ⟨hplain (by rwa [Signature.render_toList]), fun result hr => hplain ?_⟩
  rw [Option.mem_def.1 hr] at hresult
  exact hresult

/-- No signature ends in another one. -/
theorem name_eq_of_suffix : ∀ frame ∈ functionFrames, ∀ other ∈ functionFrames,
    other.1.letters <:+ frame.1.letters → other.1.name = frame.1.name := by
  decide +kernel

/-- The heads of the functions that a step defines as a whole. -/
def EmitStep.frames (step : EmitStep) : List (Signature × Option String) := step.whole.map fun f => (f.signature, f.result)

namespace Plan

variable {p : Plan}

theorem frames_declarations : gather EmitStep.frames p.declarations ⊆ functionFrames := by
  have hhead (sink : Sink) (part : Part) : gather EmitStep.frames (p.sourceHead sink part) ⊆ functionFrames := by
    simp only [sourceHead, applicationState, completionFunction, groupControl, handlerSignature]
    (repeat' split) <;> simp [EmitStep.frames, whole, functionFrames]
  simp only [declarations]
  cases p.config.layout <;> simp [hhead]

theorem Coherent.frames_fileScope (h : p.Coherent) : gather EmitStep.frames p.fileScopeFunctions ⊆ functionFrames := by
  have hunit (u : CodeUnit) : gather EmitStep.frames (unitActions u) = [(u.signature, u.result)] := by
    rw [gather_unitActions _ fun _ _ _ => rfl]
    rfl
  have hunits : gather EmitStep.frames (p.units.flatMap unitActions) ⊆ functionFrames := by
    rw [gather_flatMap]
    simp only [hunit]
    obtain ⟨hnil, -⟩ | ⟨hlayer, -⟩ | ⟨-, -, weights, bias, expected, hunits, -⟩ := h.units_cases
    · simp [hnil]
    · simp [hlayer, LayerStyle.softmaxOnly, LayerKind.functionName, functionFrames]
    · rw [hunits]
      cases expected <;> simp [LayerStyle.weightedLayer, LayerStyle.kernelCode, LayerStyle.comparison, LayerStyle.comparisonCode, LayerKind.functionName, functionFrames]
  have hhost : gather EmitStep.frames ((if p.hostsWakeHandler then [wakeHandler] else []) ++
      if p.config.topology = .armHost && p.config.sleep && !p.embedded then [wakeStatusHelper] else []) ⊆ functionFrames := by
    simp only [wakeHandler, wakeStatusHelper]
    (repeat' split) <;> simp [EmitStep.frames, whole, functionFrames]
  have howner : gather EmitStep.frames (if p.owns then p.units.flatMap unitActions ++
      (if p.config.retrieval = .unload then [.push .main [outputBuffer p.config.outputWidth, .blank]] else []) else []) ⊆
        functionFrames := by
    (repeat' split) <;> simp [EmitStep.frames, whole, hunits]
  rw [fileScopeFunctions, List.append_assoc, gather_append]
  exact List.append_subset.2 ⟨howner, hhost⟩

theorem frames_acceleratorBringUp : gather EmitStep.frames p.acceleratorBringUp ⊆ functionFrames := by
  simp only [acceleratorBringUp, boostOn, boostFunction]
  cases p.sdkRuntime <;> cases p.config.measureEnergy <;> cases p.config.isSplit <;> cases p.config.boost <;>
    simp [EmitStep.frames, whole, functionFrames]

theorem frames_execute : gather EmitStep.frames p.execute ⊆ functionFrames := by
  simp only [execute, firstRun, furtherRuns, boostOff, boostFunction]
  cases p.config.measureEnergy <;> cases p.config.isSplit <;> cases p.config.forever <;> cases p.config.boost <;>
    (repeat' split) <;> simp [EmitStep.frames, whole, functionFrames]

theorem frames_ending : gather EmitStep.frames p.ending ⊆ functionFrames := by
  simp only [ending, acceleratorShutdown, disableFunction]
  (repeat' split) <;> simp [EmitStep.frames, whole, functionFrames]

/-- Inside `main` there are only the functions that switch the accelerator. -/
theorem frames_inside : gather EmitStep.frames p.inside ⊆ functionFrames := by
  have hlocals : gather EmitStep.frames p.locals ⊆ functionFrames := by
    simp only [locals]
    split <;> simp [EmitStep.frames, whole]
  have hconfigure : gather EmitStep.frames p.configure ⊆ functionFrames := by
    simp only [configure, fatalCheck]
    cases p.config.verifyKernels <;> simp [EmitStep.frames, whole]
  have hretrieve : gather EmitStep.frames p.retrieve ⊆ functionFrames := by
    simp only [retrieve, fatalCheck]
    (repeat' split) <;> simp [EmitStep.frames, whole]
  exact p.gather_inside_subset (fun _ => List.nil_subset _) hlocals frames_acceleratorBringUp hconfigure frames_execute hretrieve
    frames_ending

/-- Every function of a program has one of the heads. -/
theorem Coherent.frame_mem (h : p.Coherent) {f : EmittedFunction} (hf : f ∈ p.functions) :
    (f.signature, f.result) ∈ functionFrames := by
  have hframe {actions : List Action} (hsub : gather EmitStep.frames actions ⊆ functionFrames) (hf : f ∈ gather whole actions) :
      (f.signature, f.result) ∈ functionFrames := by
    obtain ⟨step, hstep, hf⟩ := List.mem_flatMap.1 hf
    exact hsub (List.mem_flatMap.2 ⟨step, hstep, List.mem_map_of_mem hf⟩)
  have hopening : gather EmitStep.frames p.opening ⊆ functionFrames := by
    rw [opening, gather_append]
    exact List.append_subset.2 ⟨frames_declarations, h.frames_fileScope⟩
  rw [functions_eq] at hf
  rcases List.mem_append.1 hf with hf | hf
  · rcases List.mem_append.1 hf with hf | hf
    · exact hframe hopening hf
    · exact hframe frames_inside hf
  · obtain rfl := List.mem_singleton.1 hf
    simp [functionFrames]

/-! ## Fragments -/

/-- The loop over the classes is a block of its own. -/
theorem bracketed_classPrintout {op : Operation} (hop : op ∈ p.classPrintout) (depth : Nat) : Bracketed (op.render depth) := by
  rcases List.mem_pair.1 hop with rfl | rfl
  · exact bracketed_leaf rfl (by simpa [wording] using bracketless_literal rfl) depth
  · have hlines : ∃ printing, Bracketless printing ∧ (Operation.verbatim
        ("for (i = 0; i < CNN_NUM_OUTPUTS; i++) \x7b\n  digs = (1000 * ml_softmax[i] + 0x4000) >> 15;\n" ++
          "  tens = digs % 10;\n  digs = digs / 10;\n  printf(\"[%7d] -> Class %d: %d.%d%%\\n\", " ++ p.classSource ++
          "[i], i, digs, tens);\n\x7d")).lines depth =
        ⟨depth, "for (i = 0; i < CNN_NUM_OUTPUTS; i++)" ++ " \x7b"⟩ ::
          ([⟨depth, "  digs = (1000 * ml_softmax[i] + 0x4000) >> 15;"⟩, ⟨depth, "  tens = digs % 10;"⟩,
            ⟨depth, "  digs = digs / 10;"⟩, ⟨depth, printing⟩] ++ [⟨depth, "\x7d"⟩]) := by
      have hwritten {source : List Char} : Written
          ("for (i = 0; i < CNN_NUM_OUTPUTS; i++) \x7b\n  digs = (1000 * ml_softmax[i] + 0x4000) >> 15;\n" ++
            "  tens = digs % 10;\n  digs = digs / 10;\n  printf(\"[%7d] -> Class %d: %d.%d%%\\n\", " ++ String.ofList source ++
            "[i], i, digs, tens);\n\x7d") _ := .append (.append (.append .literal .literal) .literal) .literal
      simp only [classSource]
      cases p.config.retrieval with
      | fullyConnected =>
        refine ⟨"  printf(\"[%7d] -> Class %d: %d.%d%%\\n\", fc_output[i], i, digs, tens);", bracketless_literal rfl, ?_⟩
        rw [lines, splitLines, Written.toList_eq hwritten]
        rfl
      | softmaxOnly | unload =>
        refine ⟨"  printf(\"[%7d] -> Class %d: %d.%d%%\\n\", ml_data[i], i, digs, tens);", bracketless_literal rfl, ?_⟩
        rw [lines, splitLines, Written.toList_eq hwritten]
        rfl
    obtain ⟨printing, hprinting, hlines⟩ := hlines
    have hhead : Bracketless "for (i = 0; i < CNN_NUM_OUTPUTS; i++)" := bracketless_literal rfl
    have hbody : ∀ line ∈ [Line.mk depth "  digs = (1000 * ml_softmax[i] + 0x4000) >> 15;", ⟨depth, "  tens = digs % 10;"⟩,
        ⟨depth, "  digs = digs / 10;"⟩, ⟨depth, printing⟩], Bracketed line.text := by
      simp only [List.forall_mem_cons]
      exact ⟨(bracketless_literal rfl).bracketed, (bracketless_literal rfl).bracketed, (bracketless_literal rfl).bracketed,
        hprinting.bracketed, by simp⟩
    rw [render, hlines]
    exact Line.bracketed_block hhead (Line.bracketed_renderAll hbody) depth

theorem Coherent.bracketed_operation (h : p.Coherent) (hweights : Bracketless p.config.weightsHeader)
    (hsample : Bracketless p.config.sampleHeader) {op : Operation} (hop : op ∈ p.emitted) (depth : Nat) :
    Bracketed (op.render depth) := by
  rcases h.says_emitted op hop with hheader | hprintout | hwords
  · rcases List.mem_pair.1 hheader with rfl | rfl
    · exact bracketed_leaf rfl (by simpa [wording] using hweights) depth
    · exact bracketed_leaf rfl (by simpa [wording] using hsample) depth
  · exact bracketed_classPrintout hprintout depth
  · refine Operation.bracketed_render op (fun text ht => bracketless_of_omits ?_) depth
    exact (hwords text (by simpa [wordingOfAll] using ht)).mono p.phrases_subset

theorem Coherent.bracketed_literal (h : p.Coherent) {sink : Sink} {text : String}
    (hm : (sink, text) ∈ gather EmitStep.literals p.actions) : Bracketed text := by
  have hnames : ∀ entry ∈ arrayNames, Bracketless entry.2 := by
    simp only [arrayNames, List.forall_mem_cons]
    exact ⟨bracketless_literal rfl, bracketless_literal rfl, bracketless_literal rfl, by simp⟩
  rcases h.literal_cases hm with rfl | ⟨name, values, hname, rfl⟩
  · exact (bracketless_literal rfl).bracketed
  · refine ArrayLiteral.bracketed_define (hnames _ hname) fun value => ?_
    exact bracketless_empty.append (ArrayLiteral.bracketless_format _ value)

theorem Coherent.bracketed_fragment (h : p.Coherent) (hweights : Bracketless p.config.weightsHeader)
    (hsample : Bracketless p.config.sampleHeader) {sink : Sink} {piece : Piece} (hpiece : piece ∈ p.pieces sink)
    {fragment : Fragment} (hf : fragment ∈ piece.fragments) (depth : Nat) : Bracketed (fragment.render depth) := by
  cases fragment with
  | raw text => exact h.bracketed_literal (p.raw_mem hpiece hf)
  | code ops =>
    have hemitted : ∀ op ∈ ops, op ∈ p.emitted := by
      intro op hop
      have hoperation : op ∈ piece.operations := by
        cases piece with
        | loose fragment =>
          obtain rfl := List.mem_singleton.1 hf
          exact hop
        | function signature body result => exact List.mem_flatMap.2 ⟨_, hf, hop⟩
      exact List.mem_flatMap.2 ⟨sink, sink.mem_all, List.mem_flatMap.2 ⟨piece, hpiece, hoperation⟩⟩
    exact bracketed_renderAll fun op hop => h.bracketed_operation hweights hsample (hemitted op hop) depth

end Plan

/-! ## Functions -/

/-- The part of a function's text between its outer brackets. -/
def Piece.inner (body : List Fragment) (result : Option String) : String :=
  "\n" ++ Fragment.renderAll 1 body ++
    match result with
    | none => ""
    | some result => "\n  return " ++ result ++ ";\n"

theorem Piece.render_function (signature : Signature) (body : List Fragment) (result : Option String) :
    render (.function signature body result) = signature.render ++ "\n\x7b" ++ inner body result ++ "\x7d\n" ++ "\n" := by
  have hopening : "\n\x7b\n" = "\n\x7b" ++ "\n" := rfl
  have hend : "\x7d\n\n" = "\x7d\n" ++ "\n" := rfl
  have hreturn : ";\n\x7d\n\n" = ";\n" ++ ("\x7d\n" ++ "\n") := rfl
  cases result with
  | none =>
    simp only [render, begun, inner, Emitter.closing, hopening, hend, String.append_assoc, String.empty_append]
  | some result => simp only [render, begun, inner, Emitter.closing, hopening, hreturn, String.append_assoc]

/-- Brackets around nested text nest, whatever head they have. -/
theorem wellNested_function {head inside : String} (hhead : Bracketless head) (h : WellNested inside) :
    WellNested (head ++ "\n\x7b" ++ inside ++ "\x7d\n") := by
  have hfeed : Bracketless "\n" := bracketless_literal rfl
  have htext : head ++ "\n\x7b" ++ inside ++ "\x7d\n" = head ++ "\n" ++ ("\x7b" ++ inside ++ "\x7d") ++ "\n" := by
    have hopening : "\n\x7b" = "\n" ++ "\x7b" := rfl
    have hclosing : "\x7d\n" = "\x7d" ++ "\n" := rfl
    simp only [hopening, hclosing, String.append_assoc]
  rw [htext]
  exact ((hhead.append hfeed).wellNested.append h.enclose).append hfeed.wellNested

/-- A head that opens a bracket behind a line break does so where the text around it has its first bracket. -/
theorem suffix_of_opening {head inside other more : String} (hhead : Bracketless head) (hinside : Spaced inside)
    (h : (other ++ "\n\x7b" ++ more).toList <:+: (head ++ "\n\x7b" ++ inside).toList) : other.toList <:+ head.toList := by
  obtain ⟨before, after, h⟩ := h
  have hsplit : (before ++ other.toList ++ ['\n']) ++ '\x7b' :: (more.toList ++ after) =
      (head.toList ++ ['\n']) ++ '\x7b' :: inside.toList := by
    simpa using h
  rcases List.append_eq_append_iff.1 hsplit with ⟨between, hfront, hrest⟩ | ⟨between, hfront, hrest⟩
  · cases between with
    | nil => exact ⟨before, List.append_cancel_right (by simpa using hfront.symm)⟩
    | cons c between =>
      obtain ⟨rfl, -⟩ := List.cons.inj hrest
      have hm : '\x7b' ∈ head.toList ++ ['\n'] := by simp [hfront]
      exact absurd (by simpa using hm) hhead.1
  · cases between with
    | nil => exact ⟨before, List.append_cancel_right (by simpa using hfront)⟩
    | cons c between =>
      -- Inside, brackets are behind blanks and not behind line breaks.
      have hblank := hinside between _ (List.cons.inj hrest).2
      have hlast := congrArg List.getLast? hfront
      rw [List.getLast?_concat, List.getLast?_append, List.getLast?_cons, hblank] at hlast
      cases hlast

/-- Where the text of a function is part of another one's, so are their signatures. -/
theorem Piece.suffix_of_within {signature signature' : Signature} {body body' : List Fragment}
    {result result' : Option String} (hsignature : Bracketless signature.render) (hinner : Spaced (inner body result))
    (h : (render (.function signature' body' result')).toList <:+: (render (.function signature body result)).toList) :
    signature'.letters <:+ signature.letters := by
  have hform (s : Signature) (body : List Fragment) (result : Option String) :
      render (.function s body result) = s.render ++ "\n\x7b" ++ (inner body result ++ "\x7d\n" ++ "\n") := by
    simp only [render_function, String.append_assoc]
  have hclosing : Spaced "\x7d\n" := spaced_of_notMem (by decide)
  have hfeed : Spaced "\n" := spaced_of_notMem (by decide)
  rw [hform, hform] at h
  rw [← Signature.render_toList, ← Signature.render_toList]
  exact suffix_of_opening hsignature ((hinner.append hclosing).append hfeed) h

namespace Plan

variable {p : Plan}

theorem functions_of_piece {sink : Sink} {piece : Piece} (hpiece : piece ∈ p.pieces sink) {f : EmittedFunction}
    (hf : piece.function? sink = some f) : f ∈ p.functions := by
  have hm : f ∈ (p.pieces sink).filterMap (Piece.function? sink) := List.mem_filterMap.2 ⟨piece, hpiece, hf⟩
  rw [functions_pieces] at hm
  exact (List.mem_filter.1 hm).1

theorem Coherent.bracketed_inner (h : p.Coherent) (hweights : Bracketless p.config.weightsHeader)
    (hsample : Bracketless p.config.sampleHeader) {sink : Sink} {signature : Signature} {body : List Fragment}
    {result : Option String} (hpiece : .function signature body result ∈ p.pieces sink) :
    Bracketless signature.render ∧ Bracketed (Piece.inner body result) := by
  obtain ⟨hsignature, hresult⟩ := bracketless_frames _ (h.frame_mem (functions_of_piece hpiece rfl))
  have hfragments : Bracketed (Fragment.renderAll 1 body) := by
    refine bracketed_join fun text ht => ?_
    obtain ⟨fragment, hf, rfl⟩ := List.mem_map.1 ht
    exact h.bracketed_fragment hweights hsample hpiece hf 1
  have hfeed : Bracketless "\n" := bracketless_literal rfl
  refine ⟨hsignature, (hfeed.bracketed.append hfragments).append ?_⟩
  cases result with
  | none => exact bracketless_empty.bracketed
  | some result =>
    exact (((bracketless_literal rfl).append (hresult result rfl)).append (bracketless_literal rfl)).bracketed

theorem Coherent.wellNested_pieces (h : p.Coherent) (hweights : Bracketless p.config.weightsHeader)
    (hsample : Bracketless p.config.sampleHeader) {sink : Sink} {pieces : List Piece} (hsub : pieces ⊆ p.pieces sink) :
    WellNested (Piece.renderAll pieces) := by
  have hpiece : ∀ piece ∈ pieces, WellNested piece.render := by
    intro piece hm
    cases piece with
    | loose fragment =>
      exact (h.bracketed_fragment hweights hsample (hsub hm) (List.mem_singleton_self fragment) 0).nested
    | function signature body result =>
      obtain ⟨hsignature, hinner⟩ := h.bracketed_inner hweights hsample (hsub hm)
      rw [Piece.render_function]
      exact (wellNested_function hsignature hinner.nested).append (bracketless_literal rfl).wellNested
  clear hsub
  induction pieces with
  | nil => exact bracketless_empty.wellNested
  | cons piece pieces ih =>
    obtain ⟨hfirst, hrest⟩ := List.forall_mem_cons.1 hpiece
    rw [← List.singleton_append, Piece.renderAll_append, Piece.renderAll_singleton]
    exact hfirst.append (ih hrest)

end Plan

namespace Synthesis

/-- A source whose brackets match, with one function after the other at the outermost level. -/
structure NestsOn (s : Synthesis) (sink : Sink) : Prop where
  text : s.program.text.texts.get sink = Piece.renderAll (s.plan.pieces sink)
  listed : s.program.text.functions.filter (·.sink = sink) =
    ((s.plan.pieces sink).filterMap (Piece.function? sink)).map EmittedFunction.definition
  nested : WellNested (s.program.text.texts.get sink)
  /-- The text ahead of a function, the text up to its end and the text between its brackets are nested each by itself. -/
  functions : ∀ before signature body result after,
    s.plan.pieces sink = before ++ .function signature body result :: after →
    ∃ inside, Piece.render (.function signature body result) =
        signature.render ++ "\n\x7b" ++ inside ++ "\x7d\n" ++ "\n" ∧
      Bracketless signature.render ∧ WellNested inside ∧ WellNested (Piece.renderAll before) ∧
      WellNested (Piece.renderAll before ++ (signature.render ++ "\n\x7b" ++ inside ++ "\x7d\n"))

variable {c : Configuration} {d : Device} {i : Inputs} {s : Synthesis}

/-- The brackets of all sources match if those in the names of the headers do not disturb them, and the text of no function is part of
another one's. -/
theorem sources_well_nested (h : run c d i = .ok s) (hweights : Bracketless c.weightsHeader)
    (hsample : Bracketless c.sampleHeader) :
    (∀ sink, s.NestsOn sink) ∧
    ∀ sink sink', ∀ piece ∈ s.plan.pieces sink, ∀ piece' ∈ s.plan.pieces sink', ∀ f f',
      piece.function? sink = some f → piece'.function? sink' = some f' →
      piece'.render.toList <:+: piece.render.toList → f' = f := by
  have htext := text_eq h
  obtain ⟨-, hfunctions⟩ := lifecycle_eq h
  obtain ⟨hcoherent, rfl, -, -⟩ := run_ok h
  constructor
  · intro sink
    exact {
      text := htext sink
      listed := by
        rw [Plan.functions_pieces, hfunctions, ← s.plan.functions_definitions, List.filter_map]
        rfl
      nested := by
        rw [htext]
        exact hcoherent.wellNested_pieces hweights hsample (List.Subset.refl _)
      functions := by
        intro before signature body result after hpieces
        have hsub : before ⊆ s.plan.pieces sink := by simp [hpieces]
        have hbefore := hcoherent.wellNested_pieces hweights hsample hsub
        have hpiece : Piece.function signature body result ∈ s.plan.pieces sink := by simp [hpieces]
        obtain ⟨hsignature, hinner⟩ := hcoherent.bracketed_inner hweights hsample hpiece
        exact ⟨Piece.inner body result, Piece.render_function _ _ _, hsignature, hinner.nested, hbefore,
          hbefore.append (wellNested_function hsignature hinner.nested)⟩ }
  · intro sink sink' piece hpiece piece' hpiece' f f' hf hf' hin
    have hmem := Plan.functions_of_piece hpiece hf
    have hmem' := Plan.functions_of_piece hpiece' hf'
    have hsuffix : f'.signature.letters <:+ f.signature.letters := by
      cases piece with
      | loose _ => cases hf
      | function signature body result =>
        cases piece' with
        | loose _ => cases hf'
        | function signature' body' result' =>
          cases hf
          cases hf'
          obtain ⟨hsignature, hinner⟩ := hcoherent.bracketed_inner hweights hsample hpiece
          exact Piece.suffix_of_within hsignature hinner.spaced hin
    have hname := name_eq_of_suffix _ (hcoherent.frame_mem hmem) _ (hcoherent.frame_mem hmem') hsuffix
    exact List.inj_on_of_nodup_map hcoherent.functionNames_nodup hmem' hmem hname

theorem sources_well_nested_split : ∃ s, run splitClassifier .ai85 goldenWeights = .ok s ∧ ∀ sink, s.NestsOn sink := by
  obtain ⟨s, hs⟩ := exists_run (c := splitClassifier) (d := .ai85) (i := goldenWeights) (by decide)
  obtain ⟨hnested, -⟩ := sources_well_nested hs (bracketless_literal rfl) (bracketless_literal rfl)
  exact ⟨s, hs, hnested⟩

end Synthesis

end AccelFirmware
