import AccelFirmware.Proofs.LiteralHeaders
import AccelFirmware.Proofs.Pieces

/-!
# The sources of a program

The pieces of every source of a program, and which sources there are: that of `main` always, that of the library in the split
layout, and a header for the arrays of either kind that are given.
-/

namespace AccelFirmware

open AccelFirmware.Action

/-! ## Runs of actions -/

theorem Progress.of_run {g g' : Progress} {actions : List Action} (h : actions.foldlM Progress.step g = .ok g') :
    g.emitter.run (steps actions) = .ok g'.emitter ∧
      ∃ events, others actions = events.map .event ∧ g.lifecycle.run events = .ok g'.lifecycle := by
  induction actions generalizing g with
  | nil =>
    cases h
    exact ⟨rfl, [], rfl, rfl⟩
  | cons action actions ih =>
    rw [List.foldlM_cons] at h
    obtain ⟨next, hstep, hrest⟩ := bind_eq_ok.1 h
    obtain ⟨hemitter, events, hevents, hlifecycle⟩ := ih hrest
    cases action with
    | emit s =>
      simp only [step] at hstep
      cases hs : g.emitter.step s with
      | error _ => rw [hs] at hstep; cases hstep
      | ok emitter =>
        rw [hs] at hstep
        cases hstep
        refine ⟨?_, events, hevents, hlifecycle⟩
        rw [steps_emit, Emitter.run, List.foldlM_cons, hs]
        exact hemitter
    | event e =>
      simp only [step] at hstep
      cases he : g.lifecycle.step e with
      | error _ => rw [he] at hstep; cases hstep
      | ok lifecycle =>
        rw [he] at hstep
        cases hstep
        refine ⟨hemitter, e :: events, by simp [hevents], ?_⟩
        rw [Lifecycle.run, List.foldlM_cons, he]
        exact hlifecycle
    | refuse feature device => cases hstep

/-- A program is what is left of the runs of its emitter and of its lifecycle. -/
theorem Program.of_ofActions {actions : List Action} {P : Program} (h : ofActions actions = .ok P) :
    ∃ e, Emitter.empty.run (steps actions) = .ok e ∧ e.finish = .ok P.text ∧
      ∃ events, others actions = events.map .event ∧ Lifecycle.start.run events = .ok P.lifecycle := by
  rw [ofActions] at h
  obtain ⟨g, hrun, hfinish⟩ := bind_eq_ok.1 h
  obtain ⟨hemitter, hlifecycle⟩ := Progress.of_run hrun
  cases ht : g.emitter.finish with
  | error _ => rw [ht] at hfinish; cases hfinish
  | ok t =>
    rw [ht] at hfinish
    cases hfinish
    exact ⟨g.emitter, hemitter, ht, hlifecycle⟩

/-! ## Sinks of steps -/

/-- The sink that a step writes code to. -/
def EmitStep.codeSinks : EmitStep → List Sink
  | .openUnit s _ | .closeUnit s _ | .function s _ _ _ | .push s _ => [s]
  | .raw _ _ => []

/-- A sink without code has its literals, one after the other. -/
theorem pieces_of_codeless {sink : Sink} {actions : List Action} (h : sink ∉ gather EmitStep.codeSinks actions) :
    gather (EmitStep.pieces sink) actions =
      ((gather EmitStep.literals actions).filter (·.1 = sink)).map fun literal => .loose (.raw literal.2) := by
  simp only [gather] at h ⊢
  generalize steps actions = ss at h ⊢
  induction ss with
  | nil => rfl
  | cons s rest ih =>
    rw [List.flatMap_cons, List.mem_append, not_or] at h
    rw [List.flatMap_cons, List.flatMap_cons, ih h.2, List.filter_append, List.map_append]
    congr 1
    cases s with
    | raw t text => by_cases ht : t = sink <;> simp [EmitStep.pieces, EmitStep.literals, ht]
    | push t ops | function t signature body result =>
      have ht : t ≠ sink := by simpa [EmitStep.codeSinks, eq_comm] using h.1
      simp [EmitStep.pieces, EmitStep.literals, ht]
    | openUnit t signature | closeUnit t result => rfl

theorem operations_fragments (sink : Sink) (actions : List Action) :
    (gather (EmitStep.fragments sink) actions).flatMap Fragment.operations = gather (EmitStep.pushed sink) actions := by
  rw [gather, List.flatMap_assoc]
  exact List.flatMap_congr fun step _ => EmitStep.fragments_operations sink step

theorem subset_of_all {α : Type} [DecidableEq α] {as allowed : List α} (h : as.all allowed.contains = true) :
    as ⊆ allowed := by
  intro a ha
  simpa using List.all_eq_true.1 h a ha

/-- What a piece is made of. -/
def Piece.fragments : Piece → List Fragment
  | .loose fragment => [fragment]
  | .function _ body _ => body

namespace Plan

variable (p : Plan)

open EmitStep

/-! ## Pieces -/

/-- The pieces of a source of the program. -/
def pieces (sink : Sink) : List Piece := (Draft.empty.run sink (steps p.actions)).pieces

theorem pieces_eq (sink : Sink) :
    p.pieces sink = gather (EmitStep.pieces sink) p.opening ++
      if sink = .main then [.function (.status "main") (gather (fragments sink) p.inside) (some "0")]
      else gather (EmitStep.pieces sink) p.inside := by
  rw [pieces, steps_actions]
  exact Draft.pieces_around _ _ p.plain_opening p.plain_inside sink

/-- The functions of a source are those of the program that lie on its sink, in the same order. -/
theorem functions_pieces (sink : Sink) :
    (p.pieces sink).filterMap (Piece.function? sink) = p.functions.filter (·.sink = sink) :=
  ((Draft.agrees_empty sink).run (steps p.actions)).functions

/-- Text that a source takes as it is comes from a literal. -/
theorem raw_mem {sink : Sink} {piece : Piece} (hpiece : piece ∈ p.pieces sink) {text : String}
    (hraw : .raw text ∈ piece.fragments) : (sink, text) ∈ gather EmitStep.literals p.actions := by
  have hplain {actions : List Action} (hp : piece ∈ gather (EmitStep.pieces sink) actions) :
      (sink, text) ∈ gather EmitStep.literals actions := by
    obtain ⟨step, hstep, hp⟩ := List.mem_flatMap.1 hp
    refine List.mem_flatMap.2 ⟨step, hstep, ?_⟩
    cases step with
    | raw s t =>
      obtain ⟨rfl, rfl⟩ : s = sink ∧ piece = .loose (.raw t) := by simpa [EmitStep.pieces] using hp
      simpa [Piece.fragments, EmitStep.literals] using hraw
    | push s ops =>
      obtain ⟨-, rfl⟩ : s = sink ∧ piece = .loose (.code ops) := by simpa [EmitStep.pieces] using hp
      simp [Piece.fragments] at hraw
    | function s signature body result =>
      obtain ⟨-, rfl⟩ : s = sink ∧ piece = .function signature [.code body] result := by simpa [EmitStep.pieces] using hp
      simp [Piece.fragments] at hraw
    | openUnit _ _ | closeUnit _ _ => cases hp
  have hinside : gather EmitStep.literals p.inside ⊆ gather EmitStep.literals p.actions := by simp [literals_inside]
  rw [pieces_eq] at hpiece
  rcases List.mem_append.1 hpiece with hpiece | hpiece
  · have hopening : gather EmitStep.literals p.opening ⊆ gather EmitStep.literals p.actions := by simp [actions_eq]
    exact hopening (hplain hpiece)
  · split at hpiece
    · rename_i hsink
      subst hsink
      obtain rfl := List.mem_singleton.1 hpiece
      obtain ⟨step, hstep, hraw⟩ := List.mem_flatMap.1 hraw
      refine hinside (List.mem_flatMap.2 ⟨step, hstep, ?_⟩)
      cases step with
      | raw s t =>
        obtain ⟨rfl, rfl⟩ : s = .main ∧ text = t := by simpa [EmitStep.fragments] using hraw
        simp [EmitStep.literals]
      | push s ops => simp [EmitStep.fragments] at hraw
      | openUnit _ _ | closeUnit _ _ | function _ _ _ _ => cases hraw
    · exact hinside (hplain hpiece)

/-! ## Sinks with code -/

/-- The sinks of a program that code is written to. -/
def codeSinks : List Sink := if p.config.isSplit then [.main, .api] else [.main]

theorem codeSinks_sourceHead (sink : Sink) (part : Part) : gather EmitStep.codeSinks (p.sourceHead sink part) ⊆ [sink] := by
  simp only [sourceHead, applicationState, completionFunction, groupControl]
  (repeat' split) <;> simp [EmitStep.codeSinks]

theorem codeSinks_declarations : gather EmitStep.codeSinks p.declarations ⊆ p.codeSinks := by
  have hhead := p.codeSinks_sourceHead
  cases hl : p.config.layout with
  | combined =>
    have hs : p.config.isSplit = false := by simp [Configuration.isSplit, hl]
    simpa [declarations, codeSinks, hl, hs] using hhead .main .whole
  | splitApi =>
    have hs : p.config.isSplit = true := by simp [Configuration.isSplit, hl]
    have hmain := List.Subset.trans (hhead .main .application) (show [.main] ⊆ [Sink.main, .api] by simp)
    have hapi := List.Subset.trans (hhead .api .library) (show [.api] ⊆ [Sink.main, .api] by simp)
    simpa [declarations, codeSinks, hl, hs] using ⟨hmain, hapi⟩

theorem codeSinks_fileScopeFunctions : gather EmitStep.codeSinks p.fileScopeFunctions ⊆ [.main] := by
  have hunits : gather EmitStep.codeSinks (p.units.flatMap unitActions) ⊆ [.main] := by
    rw [gather_flatMap]
    intro s hs
    obtain ⟨u, -, hs⟩ := List.mem_flatMap.1 hs
    rw [gather_unitActions _ fun _ _ _ => rfl] at hs
    simpa [EmitStep.codeSinks] using hs
  simp only [fileScopeFunctions, wakeHandler, wakeStatusHelper]
  (repeat' split) <;> simp [EmitStep.codeSinks, hunits]

theorem main_mem_codeSinks : .main ∈ p.codeSinks := by
  simp only [codeSinks]
  split <;> simp

theorem codeSinks_locals : gather EmitStep.codeSinks p.locals ⊆ p.codeSinks := by
  simp only [locals, codeSinks]
  (repeat' split) <;> exact subset_of_all rfl

theorem codeSinks_acceleratorBringUp : gather EmitStep.codeSinks p.acceleratorBringUp ⊆ p.codeSinks := by
  simp only [acceleratorBringUp, boostOn, codeSinks]
  cases p.sdkRuntime <;> cases p.config.measureEnergy <;> cases p.config.isSplit <;> cases p.config.boost <;>
    exact subset_of_all rfl

theorem codeSinks_configure : gather EmitStep.codeSinks p.configure ⊆ p.codeSinks := by
  simp only [configure, codeSinks]
  cases p.config.verifyKernels <;> cases p.config.isSplit <;> exact subset_of_all rfl

theorem codeSinks_firstRun : gather EmitStep.codeSinks p.firstRun ⊆ p.codeSinks := by
  simp only [firstRun, codeSinks]
  (repeat' split) <;> exact subset_of_all rfl

theorem codeSinks_furtherRuns : gather EmitStep.codeSinks p.furtherRuns ⊆ p.codeSinks := by
  simp only [furtherRuns, codeSinks]
  (repeat' split) <;> exact subset_of_all rfl

theorem codeSinks_boostOff : gather EmitStep.codeSinks p.boostOff ⊆ p.codeSinks := by
  simp only [boostOff, codeSinks]
  cases p.config.isSplit <;> cases p.config.forever <;> cases p.config.boost <;> exact subset_of_all rfl

theorem codeSinks_execute : gather EmitStep.codeSinks p.execute ⊆ p.codeSinks := by
  have hleave : gather EmitStep.codeSinks [.advance .complete, .push .main p.leavePll] ⊆ p.codeSinks := by
    simp only [codeSinks]
    split <;> exact subset_of_all rfl
  simp only [execute, gather_append, List.append_subset]
  exact ⟨⟨⟨p.codeSinks_firstRun, p.codeSinks_furtherRuns⟩, hleave⟩, p.codeSinks_boostOff⟩

theorem codeSinks_retrieve : gather EmitStep.codeSinks p.retrieve ⊆ p.codeSinks := by
  simp only [retrieve, codeSinks]
  cases p.config.verifyOutput <;> cases p.verifies <;> cases p.embedded <;> cases p.config.isSplit <;>
    exact subset_of_all rfl

theorem codeSinks_ending : gather EmitStep.codeSinks p.ending ⊆ p.codeSinks := by
  simp only [ending, acceleratorShutdown, codeSinks]
  cases p.config.forever <;> cases p.config.isSplit <;> cases p.printsClasses <;> exact subset_of_all rfl

theorem codeSinks_inside : gather EmitStep.codeSinks p.inside ⊆ p.codeSinks :=
  p.gather_inside_subset (fun _ => List.cons_subset.2 ⟨p.main_mem_codeSinks, List.nil_subset _⟩) p.codeSinks_locals
    p.codeSinks_acceleratorBringUp p.codeSinks_configure p.codeSinks_execute p.codeSinks_retrieve p.codeSinks_ending

theorem codeSinks_actions : gather EmitStep.codeSinks p.actions ⊆ p.codeSinks := by
  have hmain := p.main_mem_codeSinks
  have hfunctions := List.Subset.trans p.codeSinks_fileScopeFunctions (show [.main] ⊆ p.codeSinks by simpa using hmain)
  simp only [actions_eq, opening, gather_append, List.append_subset, p.codeSinks_declarations, hfunctions,
    p.codeSinks_inside, and_true, true_and]
  simp [EmitStep.codeSinks, hmain]

/-! ## Classification code -/

variable {p}

/-- No classification code, that of a softmax layer, or that of a fully-connected one. -/
theorem Coherent.units_cases (h : p.Coherent) :
    (p.units = [] ∧ (p.owns = true → p.config.retrieval = .unload)) ∨
    (p.units = [(LayerStyle.standard p.config.outputWidth).softmaxOnly] ∧ p.owns = true ∧
      p.config.retrieval = .softmaxOnly) ∨
    (p.owns = true ∧ p.config.retrieval = .fullyConnected ∧
      ∃ weights bias expected, p.HasUnits weights bias expected ∧ expected.isSome = p.verifies) := by
  obtain ⟨i, hu, hv⟩ := h.units
  obtain ⟨hnil, hnone⟩ | ⟨howner, kind, u, hk, hl, hus⟩ := classificationUnits_ok hu
  · refine Or.inl ⟨hnil, fun ho => ?_⟩
    rcases hnone with hunload | hhost
    · exact hunload
    · rw [owns, hhost] at ho
      cases ho
  · obtain ⟨rfl, rfl⟩ | ⟨rfl, weights, -, -, rfl⟩ := LayerStyle.layer_ok hl
    · have hr : p.config.retrieval = .softmaxOnly := by
        cases hr : p.config.retrieval <;> simp [hr, LayerKind.ofRetrieval?] at hk
        rfl
      -- Expected output belongs to the other layer.
      have hexpected : i.expected = none := by
        cases he : i.expected with
        | none => rfl
        | some values => simpa [hr] using h.golden (by simp [← hv, he])
      exact Or.inr (Or.inl ⟨by simpa [hexpected] using hus, howner, hr⟩)
    · have hr : p.config.retrieval = .fullyConnected := by
        cases hr : p.config.retrieval <;> simp [hr, LayerKind.ofRetrieval?] at hk
        rfl
      exact Or.inr (Or.inr ⟨howner, hr, weights, i.bias, i.expected, hus, hv⟩)

/-- The arrays of a classification layer, with the sinks of their literals. -/
def arrayNames : List (Sink × String) := [(.weights, "FC_WEIGHTS"), (.weights, "FC_BIAS"), (.sampleData, "FC_EXPECTED")]

theorem Coherent.unit_literals (h : p.Coherent) {u : CodeUnit} (hu : u ∈ p.units) {literal : Sink × String}
    (hl : literal ∈ u.literals) :
    ∃ name values, (literal.1, name) ∈ arrayNames ∧ literal.2 = (LayerStyle.decimals name values).define := by
  obtain ⟨hnil, -⟩ | ⟨hlayer, -⟩ | ⟨-, -, weights, bias, expected, hunits, -⟩ := h.units_cases
  · rw [hnil] at hu
    cases hu
  · rw [hlayer] at hu
    obtain rfl := List.mem_singleton.1 hu
    cases hl
  · rw [hunits] at hu
    rcases List.mem_cons.1 hu with rfl | hu
    · rcases List.mem_cons.1 hl with rfl | hl
      · exact ⟨"FC_WEIGHTS", _, by simp [arrayNames], rfl⟩
      · obtain ⟨values, -, rfl⟩ : ∃ values, bias = some values ∧ _ = literal := by simpa using hl
        exact ⟨"FC_BIAS", _, by simp [arrayNames], rfl⟩
    · obtain ⟨values, -, rfl⟩ : ∃ values, expected = some values ∧ _ = u := by simpa using hu
      obtain rfl := List.mem_singleton.1 hl
      exact ⟨"FC_EXPECTED", _, by simp [arrayNames], rfl⟩

/-- A literal of a program is an array, or the empty line behind one. -/
theorem Coherent.literal_cases (h : p.Coherent) {sink : Sink} {text : String}
    (hm : (sink, text) ∈ gather EmitStep.literals p.actions) :
    text = "\n" ∨ ∃ name values, (sink, name) ∈ arrayNames ∧ text = (LayerStyle.decimals name values).define := by
  rw [literals_actions] at hm
  split at hm
  · obtain ⟨u, hu, hm⟩ := List.mem_flatMap.1 hm
    obtain ⟨literal, hl, hm⟩ := List.mem_flatMap.1 hm
    rcases List.mem_pair.1 hm with he | he
    · cases he
      exact Or.inr (h.unit_literals hu hl)
    · cases he
      exact Or.inl rfl
  · cases hm

/-- The sinks that take the arrays. -/
def headerSinks (p : Plan) : List Sink :=
  if p.owns && p.config.retrieval = .fullyConnected then .weights :: if p.verifies then [.sampleData] else [] else []

theorem Coherent.mem_headerSinks (h : p.Coherent) (sink : Sink) :
    (∃ text, (sink, text) ∈ gather EmitStep.literals p.actions ∧ text ≠ "") ↔ sink ∈ p.headerSinks := by
  rw [literals_actions]
  obtain ⟨hnil, hunload⟩ | ⟨hlayer, -, hr⟩ | ⟨ho, hr, weights, bias, expected, hunits, hverifies⟩ := h.units_cases
  · have hheaders : p.headerSinks = [] := by
      cases ho : p.owns with
      | false => simp [headerSinks, ho]
      | true => simp [headerSinks, hunload ho]
    simp [hheaders, unitLiterals, hnil]
  · simp [headerSinks, hr, unitLiterals, hlayer, LayerStyle.softmaxOnly]
  · have hheaders : p.headerSinks = .weights :: if expected.isSome then [.sampleData] else [] := by
      simp [headerSinks, ho, hr, hverifies]
    have hsinks : p.unitLiterals.map Prod.fst = [Sink.weights, .weights] ++
        (if bias.isSome then [Sink.weights, .weights] else []) ++
        if expected.isSome then [Sink.sampleData, .sampleData] else [] := by
      rw [unitLiterals, hunits]
      cases bias <;> cases expected <;> rfl
    have hmem : sink ∈ p.headerSinks ↔ sink ∈ p.unitLiterals.map Prod.fst := by
      rw [hheaders, hsinks]
      cases bias <;> cases expected <;> simp
    rw [if_pos ho, hmem]
    constructor
    · rintro ⟨text, hm, -⟩
      exact List.mem_map.2 ⟨(sink, text), hm, rfl⟩
    · intro hm
      -- The line break behind a literal is text on its sink.
      obtain ⟨entry, hentry, rfl⟩ := List.mem_map.1 hm
      obtain ⟨u, hu, hentry⟩ := List.mem_flatMap.1 hentry
      obtain ⟨literal, hliteral, hentry⟩ := List.mem_flatMap.1 hentry
      have hsink : entry.1 = literal.1 := by
        rcases List.mem_pair.1 hentry with rfl | rfl <;> rfl
      exact ⟨"\n", List.mem_flatMap.2 ⟨u, hu, List.mem_flatMap.2 ⟨literal, hliteral, by simp [hsink]⟩⟩, by decide⟩

/-! ## Sources with text -/

/-- The sinks of a program that are not empty. -/
def sinks (p : Plan) : List Sink :=
  Sink.main :: (if p.config.isSplit then [Sink.api] else []) ++ p.headerSinks

/-- The sinks come in the order of every listing. -/
theorem filter_sinks (p : Plan) : Sink.all.filter (· ∈ p.sinks) = p.sinks := by
  have hcases : p.sinks ∈ [[Sink.main], [.main, .weights], [.main, .weights, .sampleData], [.main, .api],
      [.main, .api, .weights], [.main, .api, .weights, .sampleData]] := by
    simp only [sinks, headerSinks]
    (repeat' split) <;> simp
  have hfilter : ∀ sinks ∈ [[Sink.main], [.main, .weights], [.main, .weights, .sampleData], [.main, .api],
      [.main, .api, .weights], [.main, .api, .weights, .sampleData]], Sink.all.filter (· ∈ sinks) = sinks := by
    decide
  exact hfilter p.sinks hcases

/-- A sink without code has the literals of the program that are for it. -/
theorem pieces_of_literals {sink : Sink} (hs : sink ∉ p.codeSinks) (hmain : sink ≠ .main) :
    p.pieces sink = ((gather EmitStep.literals p.actions).filter (·.1 = sink)).map fun literal => .loose (.raw literal.2) := by
  have hpieces : p.pieces sink = gather (EmitStep.pieces sink) p.actions := by
    rw [pieces_eq, if_neg hmain, actions_eq]
    simp [EmitStep.pieces]
  rw [hpieces, pieces_of_codeless fun hm => hs (p.codeSinks_actions hm)]

theorem Coherent.text_eq_empty_iff (h : p.Coherent) (sink : Sink) :
    Piece.renderAll (p.pieces sink) = "" ↔ sink ∉ p.sinks := by
  have hempty := Piece.renderAll_eq_empty_iff (p.pieces sink)
  have hcodeless (hs : sink ∉ p.codeSinks) (hmain : sink ≠ .main) :
      Piece.renderAll (p.pieces sink) = "" ↔ sink ∉ p.headerSinks := by
    rw [hempty, pieces_of_literals hs hmain, ← h.mem_headerSinks]
    simp only [List.mem_map, List.mem_filter, decide_eq_true_eq]
    constructor
    · rintro hall ⟨text, hm, hne⟩
      exact hne (hall _ ⟨(sink, text), ⟨hm, rfl⟩, rfl⟩)
    · rintro hnone _ ⟨⟨_, text⟩, ⟨hm, rfl⟩, rfl⟩
      by_contra hne
      exact hnone ⟨text, hm, hne⟩
  have hheaders : Sink.main ∉ p.headerSinks ∧ Sink.api ∉ p.headerSinks := by
    simp only [headerSinks]
    (repeat' split) <;> simp
  cases sink with
  | main =>
    have hfunction : Piece.render (.function (.status "main") (gather (fragments .main) p.inside) (some "0")) ≠ "" := by
      simp [Piece.render, Piece.begun, Signature.render, Signature.status]
    have hne : Piece.renderAll (p.pieces .main) ≠ "" := by
      rw [pieces_eq, if_pos rfl, ne_eq, Piece.renderAll_eq_empty_iff]
      exact fun hall => hfunction (hall _ (by simp))
    simp [sinks, hne]
  | api =>
    cases hs : p.config.isSplit with
    | false => simpa [sinks, hs, hheaders] using hcodeless (by simp [codeSinks, hs]) (by simp)
    | true =>
      have hhead : Piece.loose (.code (p.includes .library)) ∈ p.pieces .api := by
        have hl : p.config.layout = .splitApi := by simpa [Configuration.isSplit] using hs
        rw [pieces_eq, opening, declarations, hl]
        simp [sourceHead, EmitStep.pieces]
      have hne : Piece.renderAll (p.pieces .api) ≠ "" := by
        rw [ne_eq, hempty]
        intro hall
        have htext := hall _ hhead
        obtain ⟨rest, hrest⟩ : ∃ rest, p.includes .library = .header "stdlib.h" true :: rest := ⟨_, rfl⟩
        simp [hrest, Piece.render, Fragment.render, Operation.renderAll, Operation.linesOfAll, Operation.lines,
          Line.renderAll, Line.render] at htext
      simp [sinks, hs, hne]
  | weights => simpa [sinks, codeSinks] using hcodeless (by simp only [codeSinks]; split <;> simp) (by simp)
  | sampleData => simpa [sinks, codeSinks] using hcodeless (by simp only [codeSinks]; split <;> simp) (by simp)

end Plan

end AccelFirmware
