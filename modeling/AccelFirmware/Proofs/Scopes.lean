import AccelFirmware.Proofs.Declarations
import AccelFirmware.Proofs.Release
import AccelFirmware.Proofs.Resolution

/-!
# Scopes in the source of `main`

The variables at file scope and those of `main`, and that every phase finds the variables that it uses among them.
-/

namespace AccelFirmware

open Operation AccelFirmware.Action EmitStep Reserved

/-- What is pushed to a sink asks for no more than all of it. -/
theorem obligations_pushed (sink : Sink) (actions : List Action) :
    obligationsOfAll (gather (pushed sink) actions) ⊆ gather EmitStep.obligations actions := by
  simp only [gather]
  induction steps actions with
  | nil => exact List.Subset.refl _
  | cons step rest ih =>
    rw [List.flatMap_cons, List.flatMap_cons, obligationsOfAll_append]
    refine List.append_subset.2 ⟨List.subset_append_of_subset_left _ ?_, List.subset_append_of_subset_right _ ih⟩
    cases step with
    | push s ops => by_cases hs : s = sink <;> simp [pushed, hs, EmitStep.obligations, EmitStep.operations, obligationsOfAll]
    | _ => simp [pushed, obligationsOfAll]

theorem contents_fragments {sink : Sink} {actions : List Action} (h : gather literals actions = []) :
    (gather (fragments sink) actions).flatMap Fragment.contents = gather (pushed sink) actions := by
  simp only [gather] at h ⊢
  rw [List.flatMap_assoc]
  refine List.flatMap_congr fun step hstep => ?_
  have hcode := List.flatMap_eq_nil_iff.1 h step hstep
  cases step with
  | push s ops => by_cases hs : s = sink <;> simp [fragments, pushed, Fragment.contents, hs]
  | raw s text => cases hcode
  | _ => rfl

theorem declaredWords_of_simple {ops : List Operation} (h : ops.all isSimple = true) : ops.flatMap declaredWords = [] := by
  rw [List.flatMap_eq_nil_iff]
  intro op hop
  have hsimple := List.all_eq_true.1 h op hop
  cases op <;> first | rfl | cases hsimple

namespace InScope

variable {scope allowed : List Reserved} {ops : List Operation} {actions : List Action}

/-- Simple operations with words that are in scope, as far as they are variables. -/
theorem of_simple (h : MentionsOnly allowed ops) (hs : ops.all isSimple = true)
    (ha : ∀ r ∈ variableWords, r ∈ allowed → r ∈ scope) : InScope scope ops [] :=
  of_mentions h (declaredWords_of_simple hs) ha (by simp [obligationsOfAll_of_simple hs])

theorem of_wordless (h : MentionsOnly [] ops) (hs : ops.all isSimple = true) : InScope scope ops [] :=
  of_simple h hs (by simp)

theorem of_pushed (h : MentionsOnly allowed (gather (pushed .main) actions))
    (hd : (gather (pushed .main) actions).flatMap declaredWords = []) (ha : allowed ⊆ scope)
    (ho : ∀ o ∈ gather EmitStep.obligations actions, ∀ r, o.word? = some r → r ∈ scope) :
    InScope scope (gather (pushed .main) actions) [] :=
  of_mentions h hd (fun _ _ hr => ha hr) fun o hm => ho o (obligations_pushed _ _ hm)

theorem of_pushed_foreign (h : MentionsOnly allowed (gather (pushed .main) actions))
    (hf : variableWords.all (!allowed.contains ·) = true)
    (ho : ∀ o ∈ gather EmitStep.obligations actions, ∀ r, o.word? = some r → r ∈ scope) :
    InScope scope (gather (pushed .main) actions) [] :=
  of_foreign h hf fun o hm => ho o (obligations_pushed _ _ hm)

end InScope

theorem inScope_result {scope : List Reserved} {value : String} (h : Excludes (otherWords []) ("return " ++ value ++ ";")) :
    InScope scope (returned (some value)) [] :=
  .of_wordless (lacks_statement.2 h) rfl

/-! ## Classification code -/

/-- A unit whose literals are apart from `main`. -/
theorem scoped_unit {u : CodeUnit} {scope new : List Reserved} (hl : ∀ literal ∈ u.literals, literal.1 ≠ .main)
    (hd : InScope scope u.declarations new) (hb : InScope (scope ++ new) (u.body ++ returned u.result) []) :
    Scoped scope (gather (EmitStep.pieces .main) (Plan.unitActions u)) new := by
  rw [Plan.gather_unitActions _ fun literal hm _ => by simp [EmitStep.pieces, hl literal hm]]
  exact Scoped.append_plain (.of_code hd) (.of_function hb)

namespace LayerStyle

variable {scope : List Reserved}

theorem inScope_outputBuffer (w : OutputWidth) : InScope scope [outputBuffer w] [bufferWord w] := by
  have hpacked {round words : String} (hround : round = "3" ∨ round = "1") (hwords : words = "4" ∨ words = "2") :
      InScope scope [.declare ("static int32_t ml_data32[(CNN_NUM_OUTPUTS + " ++ round ++ ") / " ++ words ++ "];")]
        [.packedData] := by
    rcases hround with rfl | rfl <;> rcases hwords with rfl | rfl <;>
      exact .declare (.append (.append (.append (.append .literal .literal) .literal) .literal) .literal) rfl rfl
        (List.nil_subset _)
  cases w with
  | w32 => exact .declare .literal rfl rfl (List.nil_subset _)
  | w8 => exact hpacked (Or.inl (by decide +kernel)) (Or.inl (by decide +kernel))
  | w16 => exact hpacked (Or.inr (by decide +kernel)) (Or.inr (by decide +kernel))

theorem inScope_heading (text : String) : InScope scope [.comment text] [] :=
  .of_wordless (lacks_of_spelled .nil) rfl

theorem scoped_softmaxOnly (w : OutputWidth) :
    Scoped scope (gather (EmitStep.pieces .main) (Plan.unitActions (standard w).softmaxOnly)) [bufferWord w, .softmax] := by
  have hbody : MentionsOnly [bufferWord w, .softmax] (standard w).softmaxOnly.body := by
    refine mentionsOnly_cons.2 ⟨(mentions_unloadCall w).mono (by simp), ?_⟩
    cases w <;> exact mentionsOnly_of_spelled (by repeat' constructor)
  have hsimple : (standard w).softmaxOnly.body.all isSimple = true := by
    cases w <;> rfl
  have hdeclarations : InScope scope (standard w).softmaxOnly.declarations [bufferWord w, .softmax] :=
    (inScope_heading _).plain_append ((inScope_outputBuffer w).append (.declare_cons .literal rfl rfl .blank))
  exact scoped_unit (by simp [softmaxOnly]) hdeclarations
    (.append_plain (.of_simple hbody hsimple fun _ _ hr => List.mem_append_right _ hr) .nil)

theorem scoped_weightedLayer (w : OutputWidth) (weights : WeightMatrix) (bias : Option (List Int)) :
    Scoped scope (gather (EmitStep.pieces .main) (Plan.unitActions ((standard w).weightedLayer weights bias)))
      (layerWords w bias.isSome) := by
  have hinputs : InScope scope [.define "FC_IN" (decimal weights.cols)] [] := by
    have hcols : Excludes (otherWords []) (decimal weights.cols) := excludes_others (.decimal _) rfl
    exact .of_wordless (by simpa [MentionsOnly, Lacks, textsOfAll, texts] using hcols) rfl
  have hbias {scope : List Reserved} : InScope scope
      (if bias.isSome then [.declare "static const q7_t fc_bias[] = FC_BIAS;", .blank] else [])
      (if bias.isSome then [.bias] else []) := by
    split
    · exact .declare_cons .literal rfl rfl .blank
    · exact .nil
  have hdeclarations : InScope scope ((standard w).weightedLayer weights bias).declarations (layerWords w bias.isSome) := by
    have hweights : InScope scope [.declare "static const q7_t fc_weights[] = FC_WEIGHTS;", .blank] [.weights] :=
      .declare_cons .literal rfl rfl .blank
    have hbuffers {scope : List Reserved} : InScope scope
        [.declare "static q15_t fc_buffer[FC_IN];", .declare "static q15_t fc_output[CNN_NUM_OUTPUTS];",
         .declare "static q15_t ml_softmax[CNN_NUM_OUTPUTS];", .blank] [.buffer, .output, .softmax] :=
      .declare_cons .literal rfl rfl (.declare_cons .literal rfl rfl (.declare_cons .literal rfl rfl .blank))
    have hlayer : InScope scope
        ([Operation.comment "Classification layer:"] ++ ([Operation.define "FC_IN" (decimal weights.cols)] ++
          ([Operation.declare "static const q7_t fc_weights[] = FC_WEIGHTS;", .blank] ++ ([outputBuffer w] ++
            [Operation.declare "static q15_t fc_buffer[FC_IN];", .declare "static q15_t fc_output[CNN_NUM_OUTPUTS];",
             .declare "static q15_t ml_softmax[CNN_NUM_OUTPUTS];", .blank]))))
        ([Reserved.weights] ++ ([bufferWord w] ++ [Reserved.buffer, .output, .softmax])) :=
      (inScope_heading _).plain_append (hinputs.plain_append (hweights.append ((inScope_outputBuffer w).append hbuffers)))
    exact hlayer.append hbias
  have hsimple : ((standard w).weightedLayer weights bias).body.all isSimple = true := rfl
  have hliterals : ∀ literal ∈ ((standard w).weightedLayer weights bias).literals, literal.1 ≠ .main := by
    cases bias <;> simp [weightedLayer, kernelCode]
  exact scoped_unit hliterals hdeclarations
    (.append_plain (.of_simple ((standard w).mentions_layerBody weights bias) hsimple
      fun _ _ hr => List.mem_append_right _ hr) .nil)

theorem scoped_comparison (w : OutputWidth) (expected : List Int) (ho : .output ∈ scope) :
    Scoped scope (gather (EmitStep.pieces .main) (Plan.unitActions ((standard w).comparison expected))) [.expected] := by
  have hdeclarations : InScope scope ((standard w).comparison expected).declarations [.expected] :=
    (inScope_heading _).plain_append (.declare_cons .literal rfl rfl .blank)
  have hresult : MentionsOnly [.output, .expected]
      (returned (some "memcmp(fc_output, fc_expected, CNN_NUM_OUTPUTS * sizeof(q15_t)) == 0")) :=
    lacks_statement.2 (excludes_of_written (.append (.append .literal .literal) .literal) rfl)
  refine scoped_unit (by simp [comparison, comparisonCode]) hdeclarations (.plain_append .nil (.of_simple hresult rfl fun r _ hr => ?_))
  rcases List.mem_pair.1 hr with rfl | rfl
  · exact List.mem_append_left _ ho
  · simp

end LayerStyle

namespace Plan

variable (p : Plan)

/-! ## The variables -/

def stateWords : List Reserved := if p.owns && p.sdkRuntime then [.time] else []

/-- The variables of the classification code, or the buffer of a program without any. -/
def unitWords (biased : Bool) : List Reserved :=
  if p.owns then
    match p.config.retrieval with
    | .unload => [bufferWord p.config.outputWidth]
    | .softmaxOnly => [bufferWord p.config.outputWidth, .softmax]
    | .fullyConnected =>
        LayerStyle.layerWords p.config.outputWidth biased ++ if p.verifies then [.expected] else []
  else []

/-- Whether there is a loop in `main`, or a printout. -/
def counts : Bool :=
  p.owns && ((p.embedded && p.config.retrieval.isClassification) || p.config.oneshot > 0 || p.config.measureEnergy)

def printoutVariables : List Reserved :=
  if p.printsClasses then
    [Reserved.digits, .tens] ++ match p.config.outputWidth with
      | .w32 => []
      | .w8 | .w16 => [Reserved.data]
  else []

/-- The variables of `main` itself. -/
def mainWords : List Reserved := p.trimWords ++ (if p.counts then [.counter] else []) ++ p.printoutVariables

/-- No variable has the name of another one, whatever the phases are. -/
theorem words_nodup (biased : Bool) : (p.stateWords ++ p.unitWords biased ++ p.mainWords).Nodup := by
  have hstate : p.stateWords.Sublist [.time] := by
    simp only [stateWords]
    split <;> simp
  have hunits : (p.unitWords biased).Sublist
      [.weights, bufferWord p.config.outputWidth, .buffer, .output, .softmax, .bias, .expected] := by
    simp only [unitWords, LayerStyle.layerWords]
    cases p.owns <;> cases p.config.retrieval <;> cases biased <;> cases p.verifies <;> simp
  have htrim : p.trimWords.Sublist [.trim] := by
    simp only [trimWords]
    split <;> simp
  have hcounter : (if p.counts then [Reserved.counter] else []).Sublist [.counter] := by
    split <;> simp
  have hprintout : p.printoutVariables.Sublist
      ([.digits, .tens] ++ if p.config.outputWidth = .w32 then [] else [.data]) := by
    simp only [printoutVariables]
    cases p.printsClasses <;> cases p.config.outputWidth <;> simp
  have hall := (hstate.append hunits).append ((htrim.append hcounter).append hprintout)
  refine List.Nodup.sublist hall ?_
  cases p.config.outputWidth <;> decide

/-- What the phases of `main` rely on. -/
structure Provides (p : Plan) (scope : List Reserved) : Prop where
  trim : p.trimWords ⊆ scope
  counter : p.counts = true → .counter ∈ scope
  stamp : p.owns = true → p.sdkRuntime = true → .time ∈ scope
  buffer : p.owns = true → bufferWord p.config.outputWidth ∈ scope
  printout : p.endingWords ⊆ scope

theorem buffer_mem (ho : p.owns = true) (biased : Bool) : bufferWord p.config.outputWidth ∈ p.unitWords biased := by
  simp only [unitWords, LayerStyle.layerWords, ho, if_true]
  cases p.config.retrieval <;> simp

theorem provides_words (biased : Bool) : p.Provides (p.stateWords ++ p.unitWords biased ++ p.mainWords) where
  trim := fun r hr => by simp [mainWords, hr]
  counter := fun hc => by simp [mainWords, hc]
  stamp := fun ho hr => by simp [stateWords, ho, hr]
  buffer := fun ho => by simp [p.buffer_mem ho biased]
  printout := by
    simp only [endingWords]
    split
    · rename_i hp
      obtain ⟨⟨⟨he, -⟩, hc⟩, ho⟩ : ((p.embedded = true ∧ p.config.forever = false) ∧
          p.config.retrieval.isClassification = true) ∧ p.owns = true := by
        simpa [printsClasses] using hp
      have hcounts : p.counts = true := by simp [counts, he, hc, ho]
      simp only [printoutWords, stateWords, unitWords, LayerStyle.layerWords, mainWords, printoutVariables, hp, ho, hcounts,
        if_true]
      cases hr : p.config.retrieval with
      | unload => simp [hr, Retrieval.isClassification] at hc
      | fullyConnected => simp
      | softmaxOnly => cases p.config.outputWidth <;> simp [bufferWord]
    · simp

/-! ## `main` -/

theorem mentions_wholeBringUp : MentionsOnly (.flashStart :: p.trimWords) p.coreOperations := by
  cases ho : p.owns with
  | true => exact (p.mentions_coreOperations ho).mono (List.subset_cons_self _ _)
  | false =>
    have ht : p.config.topology = .armHost := by
      cases ht : p.config.topology <;> simp_all [owns, Topology.ownsAccelerator]
    have hclock : MentionsOnly (.flashStart :: p.trimWords) p.coreClock := p.mentions_coreClock.mono (List.subset_cons_self _ _)
    have haddress (m : CompanionMemory) : MentionsOnly (.flashStart :: p.trimWords) (p.bootAddress m) := by
      refine (p.mentions_bootAddress m).mono ?_
      simp only [addressWords]
      split <;> simp
    have hboot (m : CompanionMemory) : MentionsOnly (.flashStart :: p.trimWords) (p.bootCompanion m) :=
      mentionsOnly_append.2 ⟨mentionsOnly_append.2 ⟨haddress m, p.mentions_exclusiveMemory.anywhere⟩,
        p.mentions_releaseCompanion.anywhere⟩
    exact p.coreOperations_of_parts (fun _ _ has hbs => mentionsOnly_append.2 ⟨has, hbs⟩) mentionsOnly_blank hclock
      p.mentions_debuggerPause.anywhere hboot p.mentions_companionBringUp.anywhere

theorem inScope_printoutLocals {scope : List Reserved} (hb : p.owns = true → bufferWord p.config.outputWidth ∈ scope) :
    InScope scope p.printoutLocals p.printoutVariables := by
  have hdigits : InScope scope [.declare "int digs, tens;"] [.digits, .tens] := .declare .literal rfl rfl (List.nil_subset _)
  have hpacked {type bits : String} (htype : type = "int" ++ bits ++ "_t") (hbits : bits = "8" ∨ bits = "16")
      (hm : .packedData ∈ scope) :
      InScope (scope ++ [Reserved.digits, .tens]) [.declare (type ++ " *ml_data = (" ++ type ++ " *) ml_data32;")] [.data] := by
    subst htype
    have hused : [.packedData] ⊆ scope ++ [Reserved.digits, .tens] := by simp [hm]
    rcases hbits with rfl | rfl <;>
      exact .declare (.append (.append (.append (.append (.append .literal .literal) .literal) .literal)
        (.append (.append .literal .literal) .literal)) .literal) rfl rfl hused
  have height : decimal 8 = "8" := by decide +kernel
  have hsixteen : decimal 16 = "16" := by decide +kernel
  simp only [printoutLocals, printoutVariables]
  cases hp : p.printsClasses with
  | false => exact .nil
  | true =>
    have ho : p.owns = true := by
      simp only [printsClasses, Bool.and_eq_true] at hp
      exact hp.2
    have hbuffer := hb ho
    cases hw : p.config.outputWidth with
    | w32 => exact hdigits
    | w8 =>
      rw [hw] at hbuffer
      exact hdigits.append (hpacked (congrArg (fun bits => "int" ++ bits ++ "_t") height) (Or.inl rfl) hbuffer)
    | w16 =>
      rw [hw] at hbuffer
      exact hdigits.append (hpacked (congrArg (fun bits => "int" ++ bits ++ "_t") hsixteen) (Or.inr rfl) hbuffer)

/-- The variables of `main`, where the buffer is at file scope. -/
theorem inScope_locals {scope : List Reserved} (hb : p.owns = true → bufferWord p.config.outputWidth ∈ scope) :
    InScope scope (gather (pushed .main) p.locals) p.mainWords := by
  have htrim : InScope scope (if p.appliesTrim then [.declare "uint32_t trim;"] else []) p.trimWords := by
    simp only [trimWords]
    split
    · exact .declare .literal rfl rfl (List.nil_subset _)
    · exact .nil
  have hcounter (scope : List Reserved) : InScope scope (if p.counts then [.declare "int i;"] else [])
      (if p.counts then [.counter] else []) := by
    split
    · exact .declare .literal rfl rfl (List.nil_subset _)
    · exact .nil
  have hvariables : InScope scope p.localVariables p.mainWords :=
    (htrim.append (hcounter _)).append (p.inScope_printoutLocals fun ho => by simp [hb ho])
  simp only [locals]
  split
  · rename_i hempty
    rw [List.isEmpty_iff.1 hempty] at hvariables
    exact hvariables
  · simpa [pushed] using hvariables.append_plain .blank

variable {p}

theorem sdkRuntime_of_interrupt (h : p.waitStrategy = .interrupt) : p.sdkRuntime = true := by
  by_contra hr
  have hpoll : p.waitStrategy = .poll := by
    rw [waitStrategy, Configuration.waitStrategy]
    exact if_neg hr
  rw [h] at hpoll
  cases hpoll

namespace Provides

variable {scope : List Reserved}

theorem wait (h : p.Provides scope) (ho : p.owns = true) : ∀ o ∈ p.waitObligations, ∀ r, o.word? = some r → r ∈ scope := by
  rw [waitObligations_eq]
  split
  · rename_i hw
    simpa [Obligation.word?] using h.stamp ho (sdkRuntime_of_interrupt hw)
  · simp

/-- Loading and running the accelerator. -/
theorem runs (h : p.Provides scope) (ho : p.owns = true) :
    InScope scope (gather (pushed .main) (p.configure ++ p.execute)) [] := by
  have hloop (hn : p.config.measureEnergy = true ∨ p.config.oneshot > 0) : .counter ∈ scope := by
    refine h.counter ?_
    rcases hn with hn | hn <;> simp [counts, ho, hn]
  have hmentions : MentionsOnly [.pin] (gather (pushed .main) (p.configure ++ p.execute)) := by
    have hsplit : gather (pushed .main) (p.configure ++ p.execute) = p.runOps ++ gather (pushed .main) p.boostOff := by
      simp [execute, runOps, pushed]
    rw [hsplit]
    exact mentionsOnly_append.2 ⟨p.mentions_runOps.anywhere, mentions_boost.2⟩
  refine .of_pushed_foreign hmentions rfl ?_
  have hcounter (hn : p.config.measureEnergy = true ∨ p.config.oneshot > 0) :
      ∀ r, Obligation.counter.word? = some r → r ∈ scope := by
    simpa [Obligation.word?] using hloop hn
  have hcheck : ∀ r, Obligation.check.word? = some r → r ∈ scope := by simp [Obligation.word?]
  have hconfigure : ∀ o ∈ gather EmitStep.obligations p.configure, ∀ r, o.word? = some r → r ∈ scope := by
    rw [obligations_configure]
    simp only [List.forall_mem_append]
    refine ⟨⟨?_, ?_⟩, by simpa using hcheck⟩
    · split
      · rename_i hm
        simpa using hcounter (Or.inl hm)
      · simp
    · split <;> simp [Obligation.word?]
  have hfirst : ∀ o ∈ gather EmitStep.obligations p.firstRun, ∀ r, o.word? = some r → r ∈ scope := by
    rw [obligations_firstRun]
    split
    · rename_i hm
      exact List.forall_mem_cons.2 ⟨hcounter (Or.inl hm), h.wait ho⟩
    · exact h.wait ho
  have hfurther : ∀ o ∈ gather EmitStep.obligations p.furtherRuns, ∀ r, o.word? = some r → r ∈ scope := by
    rw [obligations_furtherRuns]
    split
    · rename_i hn
      exact List.forall_mem_cons.2 ⟨hcounter (Or.inr hn), h.wait ho⟩
    · simp
  rw [gather_append, obligations_execute]
  simp only [List.forall_mem_append]
  exact ⟨hconfigure, hfirst, hfurther⟩

theorem retrieve (h : p.Provides scope) (ho : p.owns = true) : InScope scope (gather (pushed .main) p.retrieve) [] := by
  have hwords : p.retrievalWords ++ p.reportWords ⊆ scope := by
    refine List.append_subset.2 ⟨?_, ?_⟩
    · simp only [retrievalWords]
      split <;> simp [h.buffer ho]
    · simp only [reportWords]
      split
      · rename_i he
        simpa using h.stamp ho (by simp [sdkRuntime, he])
      · simp
  have hnone : (gather (pushed .main) p.retrieve).flatMap declaredWords = [] := by
    have hretrieval : p.retrieval.declaredWords = [] := by
      simp only [retrieval]
      split <;> rfl
    have hreport : p.passReport.flatMap declaredWords = [] := by
      simp only [passReport]
      cases p.config.measureEnergy <;> rfl
    simp only [Plan.retrieve]
    cases p.config.verifyOutput <;> cases p.verifies <;> cases p.embedded <;>
      simp [pushed, fatalCheck, hretrieval, hreport]
  refine .of_pushed p.mentions_retrieve hnone hwords ?_
  rw [obligations_retrieve]
  simp only [List.forall_mem_append]
  constructor <;> split <;> simp [Obligation.word?]

theorem ending (h : p.Provides scope) (ho : p.owns = true) : InScope scope (gather (pushed .main) p.ending) [] := by
  have hnone : (gather (pushed .main) p.ending).flatMap declaredWords = [] := by
    have hloop : p.endlessLoop.flatMap declaredWords = [] := by
      simp only [endlessLoop]
      split <;> rfl
    have hshutdown : p.shutdown.flatMap declaredWords = [] := by
      simp only [shutdown]
      split <;> rfl
    have hprintout : p.classPrintout.flatMap declaredWords = [] := rfl
    simp only [Plan.ending, acceleratorShutdown, disableFunction]
    cases p.config.forever <;> cases p.config.isSplit <;> cases p.printsClasses <;>
      simp [pushed, hloop, hshutdown, hprintout]
  refine .of_pushed p.mentions_ending hnone h.printout ?_
  rw [obligations_ending]
  split
  · exact h.wait ho
  · simp

theorem bringUp : InScope scope (gather (pushed .main) p.acceleratorBringUp) [] := by
  have hmentions : MentionsOnly [.pin] (gather (pushed .main) p.acceleratorBringUp) := by
    simp only [acceleratorBringUp]
    split
    · have hblank : MentionsOnly [.pin] (gather (pushed .main) [.push .main [.blank]]) := mentionsOnly_blank
      rw [gather_append, gather_append]
      exact mentionsOnly_append.2 ⟨mentionsOnly_append.2 ⟨p.mentions_enable.anywhere, mentions_boost.1⟩, hblank⟩
    · exact mentionsOnly_nil
  exact .of_pushed_foreign hmentions rfl (by simp [obligations_acceleratorBringUp])

theorem epilogue : InScope scope p.epilogue [] := by
  have hmentions : MentionsOnly [.sleep] p.epilogue := by
    cases ho : p.owns with
    | true => exact (p.mentions_epilogue ho).anywhere
    | false =>
      have ht : p.config.topology = .armHost := by
        cases ht : p.config.topology <;> simp_all [owns, Topology.ownsAccelerator]
      exact p.mentions_hostEpilogue ht
  exact .of_foreign hmentions rfl (by simp [obligations_epilogue])

theorem coreOperations (h : p.Provides scope) : InScope scope p.coreOperations [] := by
  refine .of_simple p.mentions_wholeBringUp p.simple_coreOperations fun r hr hm => ?_
  rcases List.mem_cons.1 hm with rfl | hm
  · exact absurd hr (by decide)
  · exact h.trim hm

theorem phases (h : p.Provides scope) : InScope scope (gather (pushed .main) p.acceleratorPhases) [] := by
  simp only [acceleratorPhases]
  cases ho : p.owns with
  | false => exact .nil
  | true =>
    simp only [if_true]
    rw [List.append_assoc p.acceleratorBringUp, gather_append, gather_append, gather_append]
    exact ((bringUp.plain_append (h.runs ho)).plain_append (h.retrieve ho)).plain_append (h.ending ho)

end Provides

/-! ## File scope -/

variable (p)

theorem scoped_includes {scope : List Reserved} (part : Part) : Scoped scope [.loose (.code (p.includes part))] [] := by
  refine .of_code (.of_foreign (p.mentions_includes part) ?_ (by simp [obligations_includes]))
  simp only [symbolWords]
  split <;> rfl

theorem scoped_fail {scope : List Reserved} :
    Scoped scope (gather (EmitStep.pieces .main)
      (if p.embedded then [.function .main (.procedure "fail") p.failBody none] else [])) [] := by
  split
  · exact .of_procedure (.of_foreign p.mentions_failBody rfl (by simp [obligations_failBody]))
  · exact .nil

theorem scoped_completionFunction {scope : List Reserved} (hs : p.stampWords ⊆ scope) :
    Scoped scope (gather (EmitStep.pieces .main) [p.completionFunction .main]) [] := by
  have hmentions := p.mentions_completionFunction
  simp only [completionFunction] at hmentions ⊢
  cases hw : p.waitStrategy with
  | interrupt =>
    rw [hw] at hmentions
    have hbody : MentionsOnly p.stampWords p.handlerBody := by simpa [operationsOn] using hmentions
    exact .of_procedure (.of_simple hbody p.simple_handlerBody fun _ _ hr => hs hr)
  | poll =>
    rw [hw] at hmentions
    have hbody : MentionsOnly p.stampWords [.waitUntil p.pollCondition] := by simpa [operationsOn] using hmentions
    exact .of_procedure (.of_simple hbody rfl fun _ _ hr => hs hr)

theorem scoped_groupControl {scope : List Reserved} (hs : p.stampWords ⊆ scope) :
    Scoped scope (gather (EmitStep.pieces .main) (p.groupControl .main)) [] := by
  have hmentions := p.mentions_groupControl
  have hresult : InScope scope (returned (some "CNN_OK")) [] :=
    inScope_result (excludes_others (.append (.append .literal .literal) .literal) rfl)
  simp only [groupControl] at hmentions ⊢
  cases hm : p.config.master with
  | none => exact .nil
  | some master =>
    rw [hm] at hmentions
    obtain ⟨hcontinue, hstop⟩ := mentionsOnly_append.1 hmentions
    refine Scoped.plain_append (.of_function ?_) (.of_function ?_)
    · refine InScope.plain_append (.of_simple hcontinue ?_ fun _ _ hr => hs hr) hresult
      split <;> rfl
    · exact InScope.plain_append (.of_simple hstop rfl fun _ _ hr => hs hr) hresult

/-- The stamp is in scope wherever a handler takes it. -/
theorem stampWords_subset (ho : p.owns = true) : p.stampWords ⊆ p.stateWords := by
  simp only [stampWords, stateWords]
  split
  · rename_i hw
    simp [ho, sdkRuntime_of_interrupt hw]
  · simp

theorem scoped_declarations : Scoped [] (gather (EmitStep.pieces .main) p.declarations) p.stateWords := by
  have happlication (ho : p.owns = true) :
      Scoped [] (gather (EmitStep.pieces .main) (p.applicationState .main)) p.stateWords := by
    have htime : Scoped [] (gather (EmitStep.pieces .main)
        (if p.sdkRuntime then [.push .main [.declare "volatile uint32_t cnn_time; // Stopwatch", .blank]] else []))
        p.stateWords := by
      simp only [stateWords, ho, Bool.true_and]
      split
      · exact .of_code (.declare_cons .literal rfl rfl .blank)
      · exact .nil
    rw [applicationState, gather_append]
    exact htime.append_plain p.scoped_fail
  have hlibrary (ho : p.owns = true) :
      Scoped p.stateWords (gather (EmitStep.pieces .main) (p.completionFunction .main :: p.groupControl .main)) [] := by
    rw [← List.singleton_append, gather_append]
    exact (p.scoped_completionFunction (p.stampWords_subset ho)).plain_append (p.scoped_groupControl (p.stampWords_subset ho))
  have hhead (part : Part) (hp : part.isApplication = true) :
      Scoped [] (gather (EmitStep.pieces .main) (p.sourceHead .main part)) p.stateWords := by
    rw [sourceHead, gather_push]
    refine (p.scoped_includes part).plain_append ?_
    cases ho : p.owns with
    | false =>
      simp only [stateWords, ho, Bool.false_and, Bool.false_eq_true, if_false]
      exact .nil
    | true =>
      simp only [hp, if_true]
      rw [gather_append]
      refine (happlication ho).append_plain ?_
      cases part.isLibrary with
      | false => exact .nil
      | true => exact hlibrary ho
  have hapi : gather (EmitStep.pieces .main) (p.sourceHead .api .library) = [] := by
    simp only [sourceHead, completionFunction, groupControl]
    cases p.owns <;> cases p.waitStrategy <;> cases p.config.master <;> rfl
  simp only [declarations]
  cases p.config.layout with
  | combined => exact hhead .whole rfl
  | splitApi =>
    rw [gather_append, hapi, List.append_nil]
    exact hhead .application rfl

theorem scoped_hostFunctions {scope : List Reserved} :
    Scoped scope (gather (EmitStep.pieces .main)
      ((if p.hostsWakeHandler then [wakeHandler] else []) ++ if p.bringsHelper then [wakeStatusHelper] else [])) [] := by
  rw [gather_append]
  refine Scoped.plain_append ?_ ?_
  · split
    · exact .of_procedure (.of_wordless (mentionsOnly_of_spelled (by repeat' constructor)) rfl)
    · exact .nil
  · split
    · exact .of_procedure (.of_wordless (mentionsOnly_of_spelled (by repeat' constructor)) rfl)
    · exact .nil

variable {p}

theorem Coherent.scoped_units (h : p.Coherent) (ho : p.owns = true) {scope : List Reserved} :
    ∃ biased, Scoped scope (gather (EmitStep.pieces .main) (p.units.flatMap unitActions ++
      if p.config.retrieval = .unload then [Action.push .main [outputBuffer p.config.outputWidth, .blank]] else []))
      (p.unitWords biased) := by
  simp only [unitWords, ho, if_true]
  obtain ⟨hnil, hunload⟩ | ⟨hlayer, -, hr⟩ | ⟨-, hr, weights, bias, expected, hunits, hverifies⟩ := h.units_cases
  · refine ⟨false, ?_⟩
    simp only [hnil, hunload ho, if_true]
    exact .of_code ((LayerStyle.inScope_outputBuffer _).append_plain .blank)
  · refine ⟨false, ?_⟩
    simp only [hlayer, hr]
    simpa using LayerStyle.scoped_softmaxOnly p.config.outputWidth
  · refine ⟨bias.isSome, ?_⟩
    have hlayer : Scoped scope _ _ := LayerStyle.scoped_weightedLayer p.config.outputWidth weights bias
    have houtput : .output ∈ scope ++ LayerStyle.layerWords p.config.outputWidth bias.isSome := by simp [LayerStyle.layerWords]
    rw [hunits]
    simp only [hr, ← hverifies]
    cases expected with
    | none => simpa using hlayer
    | some values => simpa using hlayer.append (LayerStyle.scoped_comparison p.config.outputWidth values houtput)

theorem Coherent.scoped_opening (h : p.Coherent) :
    ∃ biased, Scoped [] (gather (EmitStep.pieces .main) p.opening) (p.stateWords ++ p.unitWords biased) := by
  have hfunctions : ∃ biased, Scoped p.stateWords (gather (EmitStep.pieces .main) p.fileScopeFunctions) (p.unitWords biased) := by
    simp only [fileScopeFunctions]
    cases ho : p.owns with
    | true =>
      obtain ⟨biased, hunits⟩ : ∃ biased, Scoped p.stateWords _ (p.unitWords biased) := h.scoped_units ho
      refine ⟨biased, ?_⟩
      rw [List.append_assoc, gather_append]
      exact hunits.append_plain p.scoped_hostFunctions
    | false =>
      refine ⟨false, ?_⟩
      rw [List.append_assoc, gather_append]
      simp only [unitWords, ho, Bool.false_eq_true, if_false]
      exact Scoped.plain_append .nil p.scoped_hostFunctions
  obtain ⟨biased, hfunctions⟩ := hfunctions
  refine ⟨biased, ?_⟩
  rw [opening, gather_append]
  exact p.scoped_declarations.append (by simpa using hfunctions)

/-! ## The whole source -/

/-- The body of `main`, with its variables first. -/
theorem inScope_inside {scope : List Reserved} (hb : p.owns = true → bufferWord p.config.outputWidth ∈ scope)
    (hp : p.Provides (scope ++ p.mainWords)) : InScope scope (gather (pushed .main) p.inside) p.mainWords := by
  have hcamera : InScope (scope ++ p.mainWords) p.camera [] :=
    .of_foreign p.mentions_camera rfl (by simp [obligations_camera])
  have hinside : gather (pushed .main) p.inside = gather (pushed .main) p.locals ++
      (p.coreOperations ++ (p.camera ++ (gather (pushed .main) p.acceleratorPhases ++ p.epilogue))) := by
    simp [inside, pushed]
  rw [hinside]
  exact (p.inScope_locals hb).append_plain
    (hp.coreOperations.plain_append (hcamera.plain_append (hp.phases.plain_append Provides.epilogue)))

theorem Coherent.declaresBeforeUse (h : p.Coherent) : DeclaresBeforeUse (p.pieces .main) := by
  obtain ⟨biased, hopening⟩ := h.scoped_opening
  have hprovides := p.provides_words biased
  have hnodup := p.words_nodup biased
  obtain ⟨hfile, hown, hdisjoint⟩ := List.nodup_append'.1 hnodup
  have hbuffer (ho : p.owns = true) : bufferWord p.config.outputWidth ∈ p.stateWords ++ p.unitWords biased :=
    List.mem_append_right _ (p.buffer_mem ho biased)
  have hresult : InScope (p.stateWords ++ p.unitWords biased ++ p.mainWords) (returned (some "0")) [] :=
    inScope_result (excludes_others (.append (.append .literal .literal) .literal) rfl)
  have hmain : InScope (p.stateWords ++ p.unitWords biased)
      ((gather (fragments .main) p.inside).flatMap Fragment.contents ++ returned (some "0")) p.mainWords := by
    rw [contents_fragments p.literals_inside]
    exact (inScope_inside hbuffer hprovides).append_plain hresult
  rw [pieces_eq, if_pos rfl]
  refine Scoped.declaresBeforeUse (hopening.append_plain (.function hmain hown (fun _ hm hs => hdisjoint hs hm) .nil)) hfile

/-- Functions that a reference may mean are defined once. -/
theorem Coherent.count_name (h : p.Coherent) {sink : Sink} {before after : List Piece}
    (hpieces : p.pieces sink = before ++ after) {name : String}
    (hname : name ∈ closedNames sink before ∨ sink = .main ∧ ⟨.api, name⟩ ∈ p.definitions) :
    (p.definitions.map Definition.name).count name = 1 := by
  refine List.count_eq_one_of_mem h.names_nodup ?_
  rcases hname with hclosed | ⟨-, hapi⟩
  · obtain ⟨f, hf, rfl⟩ := List.mem_map.1 hclosed
    have hfunction : f ∈ (p.pieces sink).filterMap (Piece.function? sink) := by
      rw [hpieces, List.filterMap_append]
      exact List.mem_append_left _ hf
    rw [functions_pieces] at hfunction
    rw [← p.functions_definitions, List.map_map]
    exact List.mem_map.2 ⟨f, (List.mem_filter.1 hfunction).1, rfl⟩
  · exact List.mem_map_of_mem (f := Definition.name) hapi

end Plan

namespace Synthesis

/-- The names in the texts of a program mean something where they stand. -/
structure WellScoped (s : Synthesis) : Prop where
  texts : ∀ sink, s.program.text.texts.get sink = Piece.renderAll (s.plan.pieces sink)
  /-- A reference is to one function, which ends ahead of it on its sink, or stands in the source of the library. -/
  resolved : ∀ sink (before : List Piece) piece after, s.plan.pieces sink = before ++ piece :: after →
    ∀ name ∈ referencesOfAll piece.operations,
      (s.program.text.functions.map Definition.name).count name = 1 ∧
        (name ∈ closedNames sink before ∨ sink = .main ∧ ⟨.api, name⟩ ∈ s.program.text.functions)
  declared : DeclaresBeforeUse (s.plan.pieces .main)

variable {c : Configuration} {d : Device} {i : Inputs} {s : Synthesis}

theorem well_scoped (h : run c d i = .ok s) : s.WellScoped := by
  obtain ⟨hcoherent, -⟩ := run_ok h
  obtain ⟨-, hfunctions⟩ := lifecycle_eq h
  refine ⟨text_eq h, fun sink before piece after hpieces name hname => ?_, hcoherent.declaresBeforeUse⟩
  rw [hfunctions]
  have hresolved := hcoherent.resolved hpieces hname
  exact ⟨hcoherent.count_name hpieces hresolved, hresolved⟩

theorem well_scoped_split : ∃ s, run splitClassifier .ai85 goldenWeights = .ok s ∧ s.WellScoped ∧
    s.plan.mainWords = [.counter, .digits, .tens, .data] := by
  obtain ⟨s, hs⟩ := exists_run (c := splitClassifier) (d := .ai85) (i := goldenWeights) (by decide)
  obtain ⟨-, hconfig, -⟩ := run_ok hs
  have howns : s.plan.owns = true := by rw [Plan.owns, hconfig]; rfl
  have htrim : s.plan.appliesTrim = false := by rw [Plan.appliesTrim, hconfig]; rfl
  have hcounts : s.plan.counts = true := by rw [Plan.counts, howns, Plan.embedded, hconfig]; rfl
  have hprints : s.plan.printsClasses = true := by rw [Plan.printsClasses, howns, Plan.embedded, hconfig]; rfl
  refine ⟨s, hs, well_scoped hs, ?_⟩
  rw [Plan.mainWords, Plan.trimWords, Plan.printoutVariables, htrim, hcounts, hprints, hconfig]
  rfl

end Synthesis

end AccelFirmware
