import AccelFirmware.Proofs.Obligations
import Mathlib.Algebra.GroupWithZero.Nat

/-!
# Reports and programs

The report of a synthesis against the program it is about: the stages, the fatal checks in the code, the functions in the texts
and the sizes of the texts.
-/

namespace AccelFirmware

/-! ## Lines -/

/-- Text that is empty or ends with a line feed. -/
def EndsLine (text : String) : Prop := ∀ c, text.toList.getLast? = some c → c = '\n'

theorem endsLine_append {a b : String} (ha : EndsLine a) (hb : EndsLine b) : EndsLine (a ++ b) := by
  intro c hc
  rw [String.toList_append, List.getLast?_append, Option.or_eq_some_iff] at hc
  rcases hc with hc | ⟨-, hc⟩
  · exact hb c hc
  · exact ha c hc

theorem endsLine_feed (a : String) : EndsLine (a ++ "\n") := by
  intro c hc
  simpa [eq_comm] using hc

theorem endsLine_join {texts : List String} (h : ∀ text ∈ texts, EndsLine text) : EndsLine (String.join texts) := by
  induction texts with
  | nil => simp [EndsLine]
  | cons text texts ih =>
    rw [String.join_cons]
    exact endsLine_append (h text (by simp)) (ih fun text ht => h text (by simp [ht]))

/-- Where the last line is ended, lines are as many as line feeds. -/
theorem length_splitLinesFrom {seen text : List Char} (hseen : text = [] → seen = [])
    (hlast : ∀ c, text.getLast? = some c → c = '\n') : (splitLinesFrom seen text).length = text.count '\n' := by
  induction text generalizing seen with
  | nil => simp [splitLinesFrom, hseen rfl]
  | cons c text ih =>
    have hrest : ∀ d, text.getLast? = some d → d = '\n' := fun d hd => hlast d (by simp [List.getLast?_cons, hd])
    by_cases hc : c = '\n'
    · subst hc
      simp [splitLinesFrom, ih (fun _ => rfl) hrest]
    · have hmore : text ≠ [] := by
        rintro rfl
        exact hc (hlast c rfl)
      have hnext : splitLinesFrom seen (c :: text) = splitLinesFrom (c :: seen) text := by
        rw [splitLinesFrom]
        exact hc
      rw [hnext, ih (fun h => absurd h hmore) hrest, List.count_cons_of_ne hc]

theorem length_splitLines {text : String} (h : EndsLine text) : (splitLines text).length = text.toList.count '\n' :=
  length_splitLinesFrom (fun _ => rfl) h

/-! ## Text of whole lines -/

theorem endsLine_renderAll (ops : List Operation) (depth : Nat) : EndsLine (Operation.renderAll ops depth) := by
  refine endsLine_join fun text ht => ?_
  obtain ⟨line, -, rfl⟩ := List.mem_map.1 ht
  exact endsLine_feed _

theorem endsLine_define (a : ArrayLiteral) : EndsLine a.define := by
  have hfeed : a.define = "#define " ++ a.name ++ " \x7b \\\n  " ++
      ArrayLiteral.elements a.format a.wrapWidth 1 a.values ++ " \\\n\x7d" ++ "\n" := by
    simp [ArrayLiteral.define, String.append_assoc]
  rw [hfeed]
  exact endsLine_feed _

namespace Piece

/-- Text that is taken as it is ends the line. -/
def EndsLines : Piece → Prop
  | .loose (.raw text) => EndsLine text
  | _ => True

theorem endsLine_render {piece : Piece} (h : piece.EndsLines) : EndsLine piece.render := by
  cases piece with
  | loose fragment =>
    cases fragment with
    | code ops => exact endsLine_renderAll ops 0
    | raw text => exact h
  | function signature body result =>
    have hclosing : ∃ text, Emitter.closing result = text ++ "\n" := by
      cases result with
      | none => exact ⟨"\x7d\n", rfl⟩
      | some result => exact ⟨"\n  return " ++ result ++ ";\n\x7d\n", by simp [Emitter.closing, String.append_assoc]⟩
    obtain ⟨text, htext⟩ := hclosing
    rw [render, htext, ← String.append_assoc]
    exact endsLine_feed _

/-- The fatal checks in the code of some pieces. -/
def checks (pieces : List Piece) : Nat := (Operation.obligationsOfAll (pieces.flatMap operations)).count .check

end Piece

namespace Plan

variable {p : Plan}

open Operation AccelFirmware.Action EmitStep

theorem Coherent.endsLine_literals (h : p.Coherent) {sink : Sink} {text : String}
    (hm : (sink, text) ∈ gather EmitStep.literals p.actions) : EndsLine text := by
  rcases h.literal_cases hm with rfl | ⟨name, values, -, rfl⟩
  · exact endsLine_feed ""
  · exact endsLine_define _

theorem Coherent.endsLine_text (h : p.Coherent) (sink : Sink) : EndsLine (Piece.renderAll (p.pieces sink)) := by
  refine endsLine_join fun text ht => ?_
  obtain ⟨piece, hpiece, rfl⟩ := List.mem_map.1 ht
  refine Piece.endsLine_render ?_
  cases piece with
  | loose fragment =>
    cases fragment with
    | code ops => trivial
    | raw text => exact h.endsLine_literals (p.raw_mem hpiece (List.mem_singleton_self _))
  | function signature body result => trivial

/-! ## Checks -/

/-- The operations of a source are those that the steps put on its sink. -/
theorem operations_pieces (sink : Sink) :
    (p.pieces sink).flatMap Piece.operations = gather (operationsOn sink) p.actions := by
  have hstep (step : EmitStep) : (step.pieces sink).flatMap Piece.operations = step.operationsOn sink := by
    cases step with
    | push s ops | raw s ops =>
      by_cases hs : s = sink <;> simp [EmitStep.pieces, operationsOn, Piece.operations, Fragment.operations, hs]
    | function s signature body result =>
      by_cases hs : s = sink <;> simp [EmitStep.pieces, operationsOn, Piece.operations, Fragment.operations, hs]
    | openUnit _ _ | closeUnit _ _ => rfl
  have hpieces (actions : List Action) :
      (gather (EmitStep.pieces sink) actions).flatMap Piece.operations = gather (operationsOn sink) actions := by
    rw [gather, List.flatMap_assoc]
    exact List.flatMap_congr fun step _ => hstep step
  rw [pieces_eq, List.flatMap_append, hpieces, actions_eq]
  simp only [gather_append]
  by_cases hs : sink = .main
  · subst hs
    simp [Piece.operations, operations_fragments, operations_inside, operationsOn]
  · simp [hs, hpieces, operationsOn]

/-- Every operation is on one sink. -/
theorem checks_of_sinks (actions : List Action) :
    (Sink.all.map fun sink => (obligationsOfAll (gather (operationsOn sink) actions)).count .check).sum =
      (gather EmitStep.obligations actions).count .check := by
  simp only [gather]
  induction steps actions with
  | nil => rfl
  | cons step rest ih =>
    have hstep : (Sink.all.map fun sink => (obligationsOfAll (step.operationsOn sink)).count .check).sum =
        step.obligations.count .check := by
      cases step with
      | push s ops | function s signature body result =>
        cases s <;> simp [Sink.all, operationsOn, EmitStep.obligations, EmitStep.operations, obligationsOfAll]
      | openUnit _ _ | closeUnit _ _ | raw _ _ => rfl
    simp only [List.flatMap_cons, obligationsOfAll_append, List.count_append, ← ih, ← hstep]
    simp only [Sink.all, List.map_cons, List.map_nil, List.sum_cons, List.sum_nil]
    omega

end Plan

/-! ## Reports -/

/-- A report that agrees with the texts of its program, piece by piece. -/
structure Report.Truthful (r : Report) (p : Plan) (streams : List (Sink × String)) : Prop where
  stages : r.lifecycle.history = p.stages.1 ++ [p.stages.2]
  count : r.lifecycle.fatalChecks = p.fatalChecks
  checks : r.lifecycle.fatalChecks = (Sink.all.map fun sink => Piece.checks (p.pieces sink)).sum
  /-- In order of their ends. -/
  functions : r.functions = p.functions.map EmittedFunction.definition
  listed : ∀ sink, r.functions.filter (·.sink = sink) =
    ((p.pieces sink).filterMap (Piece.function? sink)).map EmittedFunction.definition
  distinct : (r.functions.map Definition.name).Nodup
  last : r.functions.getLast? = some ⟨.main, "main"⟩
  texts : streams = p.sinks.map fun sink => (sink, Piece.renderAll (p.pieces sink))
  nonempty : ∀ sink text, (sink, text) ∈ streams → text ≠ ""
  sizes : r.sinks.map (fun summary => (summary.sink, summary.bytes, summary.lines)) =
    streams.map fun (sink, text) => (sink, text.utf8ByteSize, text.toList.count '\n')

namespace Synthesis

variable {c : Configuration} {d : Device} {i : Inputs} {s : Synthesis}

/-- The text of every sink is that of its pieces. -/
theorem text_eq (h : run c d i = .ok s) (sink : Sink) :
    s.program.text.texts.get sink = Piece.renderAll (s.plan.pieces sink) := by
  obtain ⟨-, -, -, -, hprogram⟩ := run_steps h
  obtain ⟨e, he, ht, -⟩ := Program.of_ofActions hprogram
  exact Draft.texts_of_finish he ht sink

/-- The text of every sink consists of pieces, and the functions among them are those of the plan that lie there. -/
def WritesFunctions (s : Synthesis) : Prop :=
  ∀ sink, ∃ pieces, s.program.text.texts.get sink = Piece.renderAll pieces ∧
    pieces.filterMap (Piece.function? sink) = s.plan.functions.filter (·.sink = sink)

theorem writes_functions (h : run c d i = .ok s) : s.WritesFunctions :=
  fun sink => ⟨s.plan.pieces sink, text_eq h sink, s.plan.functions_pieces sink⟩

theorem streams_eq (h : run c d i = .ok s) :
    s.streams = s.plan.sinks.map fun sink => (sink, Piece.renderAll (s.plan.pieces sink)) := by
  obtain ⟨hcoherent, -⟩ := run_ok h
  have hfilter : Sink.all.filter (fun sink => !(Piece.renderAll (s.plan.pieces sink)).isEmpty) = s.plan.sinks := by
    have hmem (sink : Sink) : (!(Piece.renderAll (s.plan.pieces sink)).isEmpty) = decide (sink ∈ s.plan.sinks) := by
      have hempty := hcoherent.text_eq_empty_iff sink
      by_cases hs : sink ∈ s.plan.sinks <;> simp_all
    simp only [hmem]
    exact s.plan.filter_sinks
  simp only [streams, EmittedText.streams, text_eq h, List.filter_map, ← hfilter, Function.comp_def]

theorem lifecycle_eq (h : run c d i = .ok s) :
    s.program.lifecycle = ⟨s.plan.stages.1, s.plan.stages.2, s.plan.fatalChecks⟩ ∧
      s.program.text.functions = s.plan.definitions := by
  obtain ⟨hcoherent, -⟩ := run_ok h
  obtain ⟨-, -, -, -, hprogram⟩ := run_steps h
  obtain ⟨P, hP, hfunctions, hlifecycle⟩ := hcoherent.run_ok
  cases hP.symm.trans hprogram
  exact ⟨hlifecycle, hfunctions⟩

theorem report_truthful (h : run c d i = .ok s) :
    s.plan.config = c ∧ s.plan.verifies = i.expected.isSome ∧ s.report.Truthful s.plan s.streams := by
  obtain ⟨hcoherent, hconfig, -, hverifies⟩ := run_ok h
  obtain ⟨hlifecycle, hfunctions⟩ := lifecycle_eq h
  have hstreams := streams_eq h
  have hdefinitions := s.plan.functions_definitions
  have hlisted (sink : Sink) : s.report.functions.filter (·.sink = sink) =
      ((s.plan.pieces sink).filterMap (Piece.function? sink)).map EmittedFunction.definition := by
    rw [Plan.functions_pieces, report, hfunctions, ← hdefinitions, List.filter_map]
    rfl
  have hchecks : s.plan.fatalChecks = (Sink.all.map fun sink => Piece.checks (s.plan.pieces sink)).sum := by
    simp only [Piece.checks, Plan.operations_pieces]
    rw [Plan.checks_of_sinks, hcoherent.checks_eq]
  have hsizes : s.report.sinks.map (fun summary => (summary.sink, summary.bytes, summary.lines)) =
      s.streams.map fun (sink, text) => (sink, text.utf8ByteSize, text.toList.count '\n') := by
    rw [report, List.map_map]
    refine List.map_congr_left fun entry hentry => ?_
    rw [hstreams] at hentry
    obtain ⟨sink, -, rfl⟩ := List.mem_map.1 hentry
    simp [SinkSummary.ofText, length_splitLines (hcoherent.endsLine_text sink)]
  refine ⟨hconfig, hverifies, ?_⟩
  exact {
    stages := by rw [report, hlifecycle]; rfl
    count := by rw [report, hlifecycle]
    checks := by rw [report, hlifecycle]; exact hchecks
    functions := hfunctions.trans hdefinitions.symm
    listed := hlisted
    distinct := by rw [report, hfunctions]; exact hcoherent.names_nodup
    last := by rw [report, hfunctions, Plan.definitions]; simp
    texts := hstreams
    nonempty := by
      intro sink text hm
      rw [hstreams] at hm
      obtain ⟨sink', hsink, he⟩ := List.mem_map.1 hm
      cases he
      exact fun hempty => (hcoherent.text_eq_empty_iff _).1 hempty hsink
    sizes := hsizes }

/-- Weights with the output that they should lead to. -/
def goldenWeights : Inputs := { smallWeights with expected := some [1, 2] }

theorem report_truthful_split : ∃ s, run splitClassifier .ai85 goldenWeights = .ok s ∧
    s.report.Truthful s.plan s.streams ∧ s.streams.map Prod.fst = [.main, .api, .weights, .sampleData] ∧
    s.report.lifecycle.fatalChecks = 3 := by
  obtain ⟨s, hs⟩ := exists_run (c := splitClassifier) (d := .ai85) (i := goldenWeights) (by decide)
  obtain ⟨hconfig, hverifies, htruth⟩ := report_truthful hs
  have howns : s.plan.owns = true := by rw [Plan.owns, hconfig]; rfl
  have hgolden : s.plan.verifies = true := hverifies
  have hsinks : s.plan.sinks = [.main, .api, .weights, .sampleData] := by
    rw [Plan.sinks, Plan.headerSinks, hconfig, howns, hgolden]
    rfl
  refine ⟨s, hs, htruth, ?_, ?_⟩
  · rw [htruth.texts, hsinks]
    rfl
  · rw [htruth.count, Plan.fatalChecks, hconfig, howns, hgolden]
    rfl

end Synthesis

end AccelFirmware
