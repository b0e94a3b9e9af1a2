import AccelFirmware.Proofs.Reports

/-!
# Independence of the arrays

Two runs on different arrays. The code depends on whether there is expected output and, for a fully-connected layer, on the
number of columns and whether there is a bias. The values only get into the literals of the two headers.
-/

namespace AccelFirmware

open AccelFirmware.Action

/-! ## Alike inputs -/

/-- Inputs that the code of a configuration cannot tell apart. -/
structure Inputs.AlikeFor (c : Configuration) (i j : Inputs) : Prop where
  expected : i.expected.isSome = j.expected.isSome
  columns : c.retrieval = .fullyConnected → i.weights.map WeightMatrix.cols = j.weights.map WeightMatrix.cols
  bias : c.retrieval = .fullyConnected → i.bias.isSome = j.bias.isSome

/-- Units that differ in no more than their literals. -/
structure CodeUnit.Alike (u v : CodeUnit) : Prop where
  declarations : u.declarations = v.declarations
  signature : u.signature = v.signature
  body : u.body = v.body
  result : u.result = v.result

namespace LayerStyle

variable (s : LayerStyle)

theorem alike_layer {c : Configuration} {i j : Inputs} (hij : i.AlikeFor c j) {kind : LayerKind}
    (hk : LayerKind.ofRetrieval? c.retrieval = some kind) {u v : CodeUnit} (hu : s.layer i.weights i.bias kind = .ok u)
    (hv : s.layer j.weights j.bias kind = .ok v) : u.Alike v := by
  obtain ⟨rfl, rfl⟩ | ⟨rfl, w, hw, -, rfl⟩ := layer_ok hu
  · obtain ⟨-, rfl⟩ | ⟨hkind, -⟩ := layer_ok hv
    · exact ⟨rfl, rfl, rfl, rfl⟩
    · cases hkind
  · obtain ⟨hkind, -⟩ | ⟨-, w', hw', -, rfl⟩ := layer_ok hv
    · cases hkind
    · have hr : c.retrieval = .fullyConnected := by
        cases hr : c.retrieval <;> simp [hr, LayerKind.ofRetrieval?] at hk
        rfl
      have hcols : w.cols = w'.cols := by simpa [hw, hw'] using hij.columns hr
      have hbias := hij.bias hr
      constructor
      · rw [weightedLayer, weightedLayer, hcols, hbias]
        rfl
      · rfl
      · rw [weightedLayer, weightedLayer, hbias]
        rfl
      · rfl

theorem alike_comparison (values values' : List Int) : (s.comparison values).Alike (s.comparison values') :=
  ⟨rfl, rfl, rfl, rfl⟩

end LayerStyle

/-- Alike inputs make alike units, in the same number. -/
theorem alike_units {c : Configuration} {i j : Inputs} (hij : i.AlikeFor c j) {us vs : List CodeUnit}
    (hu : classificationUnits c i = .ok us) (hv : classificationUnits c j = .ok vs) :
    List.Forall₂ CodeUnit.Alike us vs := by
  obtain ⟨rfl, hnone⟩ | ⟨howner, kind, u, hk, hl, rfl⟩ := classificationUnits_ok hu
  · obtain ⟨rfl, -⟩ | ⟨howner, kind, v, hk, -, -⟩ := classificationUnits_ok hv
    · exact .nil
    · rcases hnone with hunload | hhost
      · simp [hunload, LayerKind.ofRetrieval?] at hk
      · rw [hhost] at howner
        cases howner
  · obtain ⟨-, hnone⟩ | ⟨-, kind', v, hk', hl', rfl⟩ := classificationUnits_ok hv
    · rcases hnone with hunload | hhost
      · simp [hunload, LayerKind.ofRetrieval?] at hk
      · rw [hhost] at howner
        cases howner
    · cases hk.symm.trans hk'
      refine .cons ((LayerStyle.standard c.outputWidth).alike_layer hij hk hl hl') ?_
      have hexpected := hij.expected
      cases hi : i.expected with
      | none =>
        have hj : j.expected = none := by simpa [hi] using hexpected
        rw [hj]
        exact .nil
      | some values =>
        obtain ⟨values', hj⟩ : ∃ values', j.expected = some values' := Option.isSome_iff_exists.1 (by simpa [hi] using hexpected.symm)
        rw [hj]
        exact .cons (LayerStyle.alike_comparison _ values values') .nil

theorem alike_names {us vs : List CodeUnit} (h : List.Forall₂ CodeUnit.Alike us vs) :
    us.map (fun u => u.signature.name) = vs.map fun v => v.signature.name := by
  induction h with
  | nil => rfl
  | cons huv _ ih => rw [List.map_cons, List.map_cons, huv.signature, ih]

namespace Plan

variable {p : Plan}

/-! ## Plans with other units -/

/-- Literals stay away from the code. -/
theorem Coherent.literal_sink (h : p.Coherent) {u : CodeUnit} (hu : u ∈ p.units) {literal : Sink × String}
    (hl : literal ∈ u.literals) : literal.1 ≠ .main ∧ literal.1 ≠ .api := by
  have hsinks : ∀ entry ∈ arrayNames, entry.1 ≠ .main ∧ entry.1 ≠ .api := by decide
  obtain ⟨name, values, hname, -⟩ := h.unit_literals hu hl
  exact hsinks (literal.1, name) hname

/-- What alike units contribute to a list that takes nothing from literals. -/
theorem gather_alike {α : Type} (f : EmitStep → List α) {us vs : List CodeUnit} (h : List.Forall₂ CodeUnit.Alike us vs)
    (hu : ∀ u ∈ us, ∀ literal ∈ u.literals, ∀ text, f (.raw literal.1 text) = [])
    (hv : ∀ v ∈ vs, ∀ literal ∈ v.literals, ∀ text, f (.raw literal.1 text) = []) :
    gather f (us.flatMap unitActions) = gather f (vs.flatMap unitActions) := by
  induction h with
  | nil => rfl
  | @cons u v us vs huv _ ih =>
    obtain ⟨hu, hus⟩ := List.forall_mem_cons.1 hu
    obtain ⟨hv, hvs⟩ := List.forall_mem_cons.1 hv
    rw [List.flatMap_cons, List.flatMap_cons, gather_append, gather_append, ih hus hvs, gather_unitActions f hu,
      gather_unitActions f hv, huv.declarations, huv.signature, huv.body, huv.result]

/-- Units have no effect but through what is taken from them ahead of `main`. -/
theorem pieces_units (us : List CodeUnit) (sink : Sink)
    (h : gather (EmitStep.pieces sink) (p.units.flatMap unitActions) = gather (EmitStep.pieces sink) (us.flatMap unitActions)) :
    p.pieces sink = { p with units := us }.pieces sink := by
  have hfunctions : gather (EmitStep.pieces sink) p.fileScopeFunctions =
      gather (EmitStep.pieces sink) { p with units := us }.fileScopeFunctions := by
    simp only [fileScopeFunctions, gather_append]
    cases ho : p.owns with
    | false =>
      have ho' : Plan.owns { p with units := us } = false := ho
      simp only [ho']
      rfl
    | true =>
      have ho' : Plan.owns { p with units := us } = true := ho
      simp only [ho', if_true, gather_append, h]
      rfl
  rw [pieces_eq, pieces_eq, opening, opening, gather_append, gather_append, hfunctions]
  rfl

theorem eq_of_units {p q : Plan} (hconfig : q.config = p.config) (hdevice : q.device = p.device) (hmask : q.mask = p.mask)
    (hverifies : q.verifies = p.verifies) : q = { p with units := q.units } := by
  obtain ⟨config, device, mask, units, verifies⟩ := q
  simp_all

theorem definitions_units {us : List CodeUnit}
    (h : p.units.map (fun u => u.signature.name) = us.map fun u => u.signature.name) :
    p.definitions = { p with units := us }.definitions := by
  have hunits : p.unitDefinitions = { p with units := us }.unitDefinitions := by
    have hdefinitions (units : List CodeUnit) : (units.map fun u => Definition.mk .main u.signature.name) =
        (units.map fun u => u.signature.name).map (Definition.mk .main) := by simp
    simp only [unitDefinitions, hdefinitions, h]
    rfl
  rw [definitions, definitions, hunits]
  rfl

end Plan

namespace Synthesis

/-! ## Programs on different arrays -/

/-- Programs that differ in no more than the headers of their arrays and the summaries of these. -/
structure SameCode (s t : Synthesis) : Prop where
  code : ∀ sink ∈ [Sink.main, .api], s.program.text.texts.get sink = t.program.text.texts.get sink
  functions : s.program.text.functions = t.program.text.functions
  lifecycle : s.program.lifecycle = t.program.lifecycle
  warnings : s.warnings = t.warnings
  /-- The same sources and headers are there. -/
  sinks : s.streams.map Prod.fst = t.streams.map Prod.fst
  summaries : s.report.sinks.filter (·.sink ∈ [Sink.main, .api]) = t.report.sinks.filter (·.sink ∈ [Sink.main, .api])
  /-- Summaries aside, the reports are the same. -/
  report : ∀ sinks, { s.report with sinks } = { t.report with sinks }

variable {c : Configuration} {d : Device} {i j : Inputs} {s t : Synthesis}

theorem plan_units (hs : run c d i = .ok s) (ht : run c d j = .ok t) (hij : i.AlikeFor c j) :
    t.plan = { s.plan with units := t.plan.units } ∧ List.Forall₂ CodeUnit.Alike s.plan.units t.plan.units := by
  obtain ⟨-, -, -, hplan, -⟩ := run_steps hs
  obtain ⟨-, -, -, hplan', -⟩ := run_steps ht
  obtain ⟨hmask, hunits, hconfig, hdevice, hverifies⟩ := Plan.make_ok hplan
  obtain ⟨hmask', hunits', hconfig', hdevice', hverifies'⟩ := Plan.make_ok hplan'
  refine ⟨?_, alike_units hij hunits hunits'⟩
  refine Plan.eq_of_units (hconfig'.trans hconfig.symm) (hdevice'.trans hdevice.symm) ?_ ?_
  · exact Except.ok.inj (hmask'.symm.trans hmask)
  · rw [hverifies', hverifies, hij.expected]

theorem sameCode (hs : run c d i = .ok s) (ht : run c d j = .ok t) (hij : i.AlikeFor c j) : s.SameCode t := by
  obtain ⟨hcoherent, -⟩ := run_ok hs
  obtain ⟨hcoherent', -⟩ := run_ok ht
  obtain ⟨hplan, halike⟩ := plan_units hs ht hij
  obtain ⟨hlifecycle, hfunctions⟩ := lifecycle_eq hs
  obtain ⟨hlifecycle', hfunctions'⟩ := lifecycle_eq ht
  have hcode : ∀ sink ∈ [Sink.main, .api], s.program.text.texts.get sink = t.program.text.texts.get sink := by
    intro sink hsink
    have hapart {p : Plan} (h : p.Coherent) : ∀ u ∈ p.units, ∀ literal ∈ u.literals, ∀ text,
        EmitStep.pieces sink (.raw literal.1 text) = [] := by
      intro u hu literal hl text
      obtain ⟨hmain, hapi⟩ := h.literal_sink hu hl
      rcases List.mem_pair.1 hsink with rfl | rfl
      · exact if_neg hmain
      · exact if_neg hapi
    have hunits := Plan.gather_alike (EmitStep.pieces sink) halike (hapart hcoherent) (hapart hcoherent')
    rw [text_eq hs, text_eq ht, Plan.pieces_units _ sink hunits, ← hplan]
  have hsinks : s.plan.sinks = t.plan.sinks := by
    rw [hplan]
    rfl
  have hfunctions : s.program.text.functions = t.program.text.functions := by
    rw [hfunctions, hfunctions', Plan.definitions_units (alike_names halike), ← hplan]
  have hlifecycle : s.program.lifecycle = t.program.lifecycle := by
    rw [hlifecycle, hlifecycle', hplan]
    rfl
  have hwarnings : s.warnings = t.warnings := by
    rw [warnings, warnings, config, config, device, device, hplan]
  refine ⟨hcode, hfunctions, hlifecycle, hwarnings, ?_, ?_, fun sinks => ?_⟩
  · rw [streams_eq hs, streams_eq ht, hsinks, List.map_map, List.map_map]
    rfl
  · have hkept {s' : Synthesis} {c' : Configuration} {d' : Device} {i' : Inputs} (h : run c' d' i' = .ok s') :
        s'.report.sinks.filter (·.sink ∈ [Sink.main, .api]) =
          (s'.plan.sinks.filter (· ∈ [Sink.main, .api])).map fun sink =>
            .ofText sink (s'.program.text.texts.get sink) := by
      rw [report, streams_eq h, List.map_map, List.filter_map]
      refine List.map_congr_left fun sink _ => ?_
      rw [text_eq h]
      rfl
    rw [hkept hs, hkept ht, ← hsinks]
    exact List.map_congr_left fun sink hsink => by rw [hcode sink (by simpa using (List.mem_filter.1 hsink).2)]
  · rw [report, report, hfunctions, hlifecycle, hwarnings, config, config, device, device, hplan]

/-- Only a fully-connected layer looks at weights and bias. -/
theorem run_of_other_retrieval (hr : c.retrieval ≠ .fullyConnected) (i : Inputs) (weights : Option WeightMatrix)
    (bias : Option (List Int)) : run c d { i with weights, bias } = run c d i := by
  have hunits : classificationUnits c { i with weights, bias } = classificationUnits c i := by
    simp only [classificationUnits]
    cases hc : c.retrieval with
    | fullyConnected => exact absurd hc hr
    | unload | softmaxOnly => rfl
  have hplan : Plan.make c d { i with weights, bias } = Plan.make c d i := by rw [Plan.make, Plan.make, hunits]
  have hinputs : checkInputs c { i with weights, bias } = checkInputs c i := rfl
  rw [run, run, hinputs, hplan]

/-- The values of the arrays do not get into the code, and arrays without a use change nothing at all. -/
theorem arrays_stay_out_of_code (c : Configuration) (d : Device) :
    (∀ i j s t, run c d i = .ok s → run c d j = .ok t → i.AlikeFor c j → s.SameCode t) ∧
    (c.retrieval ≠ .fullyConnected → ∀ (i : Inputs) weights bias, run c d { i with weights, bias } = run c d i) :=
  ⟨fun _ _ _ _ => sameCode, run_of_other_retrieval⟩

/-- More rows, other values and another expected output. -/
def largeWeights : Inputs := ⟨some ⟨4, 2, [5, 6, 7, 8, -1, -2, -3, -4]⟩, none, some [3]⟩

theorem arrays_stay_out_of_code_split :
    (∃ s t, run splitClassifier .ai85 goldenWeights = .ok s ∧ run splitClassifier .ai85 largeWeights = .ok t ∧ s.SameCode t) ∧
    run .sample .ai87 smallWeights = run .sample .ai87 .empty := by
  obtain ⟨s, hs⟩ := exists_run (c := splitClassifier) (d := .ai85) (i := goldenWeights) (by decide)
  obtain ⟨t, ht⟩ := exists_run (c := splitClassifier) (d := .ai85) (i := largeWeights) (by decide)
  have halike : Inputs.AlikeFor splitClassifier goldenWeights largeWeights := ⟨rfl, fun _ => rfl, fun _ => rfl⟩
  refine ⟨⟨s, t, hs, ht, (arrays_stay_out_of_code splitClassifier .ai85).1 _ _ s t hs ht halike⟩, ?_⟩
  exact (arrays_stay_out_of_code .sample .ai87).2 (by decide) .empty _ _

end Synthesis

end AccelFirmware
