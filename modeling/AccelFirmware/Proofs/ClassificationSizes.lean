import AccelFirmware.Proofs.KernelOrder
import AccelFirmware.Proofs.LiteralBodies
import AccelFirmware.Proofs.LiteralHeaders
import AccelFirmware.Proofs.Reports

/-!
# Sizes of the classification arrays

How many elements the array literals of a fully-connected layer have. The kernel reads a bias for every output and the comparison
an expected value for every output, but of the arrays only the weights are held against the shape of the layer.
-/

namespace AccelFirmware

open AccelFirmware.Action EmitStep

/-! ## Literals -/

/-- A text is the literal of an array with some number of elements. -/
def IsArrayOf (name : String) (count : Nat) (text : String) : Prop :=
  ∃ body, text = "#define " ++ name ++ " \x7b \\\n  " ++ String.ofList body ++ " \\\n\x7d\n" ∧
    (ArrayLiteral.readElements body).length = count

theorem isArrayOf_define_iff {name : String} {values : List Int} {count : Nat} :
    IsArrayOf name count (LayerStyle.decimals name values).define ↔ values.length = count := by
  have helement : ∀ v, ArrayLiteral.IsElement ((ElementFormat.format ⟨"", ⟨false, 0, .decimal⟩⟩ v).toList) :=
    ArrayLiteral.isElement_format (by decide) (by decide) (by decide)
  have hcount : (ArrayLiteral.readElements (ArrayLiteral.elements ⟨"", ⟨false, 0, .decimal⟩⟩ 16 1 values).toList).length =
      values.length := by
    rw [ArrayLiteral.readElements_elements helement, List.length_map]
  constructor
  · rintro ⟨body, htext, rfl⟩
    have hbody : ArrayLiteral.elements ⟨"", ⟨false, 0, .decimal⟩⟩ 16 1 values = String.ofList body := eq_of_surrounded htext
    rw [← hcount, hbody, String.toList_ofList]
  · rintro rfl
    refine ⟨(ArrayLiteral.elements ⟨"", ⟨false, 0, .decimal⟩⟩ 16 1 values).toList, ?_, hcount⟩
    rw [String.ofList_toList]
    rfl

namespace Plan

variable {p : Plan} {weights : WeightMatrix} {bias expected : Option (List Int)}

/-- Wherever the literals of a program define a macro, it is an array with some number of elements. -/
def HasSize (p : Plan) (name : String) (count : Nat) : Prop :=
  ∀ sink text, (sink, text) ∈ gather EmitStep.literals p.actions → defines name text = true → IsArrayOf name count text

/-- The size of an array is that of its values, if there are any. -/
theorem HasUnits.hasSize_iff_of (h : p.HasUnits weights bias expected) (ho : p.owns = true) {name : String} {sink : Sink}
    {values? : Option (List Int)} (hn : ' ' ∉ name.toList)
    (hmem : ∀ values, values? = some values → (sink, (LayerStyle.decimals name values).define) ∈ p.unitLiterals)
    (honly : ∀ values sink, (name = "FC_WEIGHTS" ∧ sink = Sink.weights ∧ values = weights.interleave ∨
      name = "FC_BIAS" ∧ sink = Sink.weights ∧ bias = some values ∨
      name = "FC_EXPECTED" ∧ sink = Sink.sampleData ∧ expected = some values) → values? = some values) (count : Nat) :
    p.HasSize name count ↔ ∀ values, values? = some values → values.length = count := by
  have hliterals : gather EmitStep.literals p.actions = p.unitLiterals := by rw [literals_actions, if_pos ho]
  constructor
  · intro hsize values hvalues
    have hemitted : (sink, (LayerStyle.decimals name values).define) ∈ gather EmitStep.literals p.actions := by
      rw [hliterals]
      exact hmem values hvalues
    exact isArrayOf_define_iff.1 (hsize _ _ hemitted (defines_array hn values))
  · intro hlength sink text hm hd
    rw [hliterals] at hm
    obtain ⟨values, rfl, hcase⟩ := h.literal_values hm hn hd
    exact isArrayOf_define_iff.2 (hlength values (honly values sink hcase))

theorem HasUnits.hasSize_iff (h : p.HasUnits weights bias expected) (ho : p.owns = true) (count : Nat) :
    (p.HasSize "FC_WEIGHTS" count ↔ weights.interleave.length = count) ∧
    (p.HasSize "FC_BIAS" count ↔ ∀ values, bias = some values → values.length = count) ∧
    (p.HasSize "FC_EXPECTED" count ↔ ∀ values, expected = some values → values.length = count) := by
  obtain ⟨hweights, hbias, hexpected⟩ := h.literals
  refine ⟨?_, ?_, ?_⟩
  · have hsize : p.HasSize "FC_WEIGHTS" count ↔ ∀ values, some weights.interleave = some values → values.length = count :=
      h.hasSize_iff_of ho (by decide) (by rintro _ ⟨⟩; exact hweights) (by simp +contextual) count
    rw [hsize]
    simp
  · exact h.hasSize_iff_of ho (by decide) hbias (by simp) count
  · exact h.hasSize_iff_of ho (by decide) hexpected (by simp) count

/-- A header holds the literals of its sink, one after the other. -/
theorem header_text {sink : Sink} (hs : sink ∈ [Sink.weights, .sampleData]) : Piece.renderAll (p.pieces sink) =
    String.join (((gather EmitStep.literals p.actions).filter (·.1 = sink)).map Prod.snd) := by
  have hcode : sink ∉ p.codeSinks ∧ sink ≠ .main := by
    simp only [codeSinks]
    rcases List.mem_pair.1 hs with rfl | rfl <;> split <;> decide
  rw [pieces_of_literals hcode.1 hcode.2, Piece.renderAll, List.map_map]
  rfl

end Plan

namespace Synthesis

variable {c : Configuration} {d : Device} {i : Inputs} {s : Synthesis}

/-- A program with a fully-connected layer has weights of the right number, and its units are made from the inputs. -/
theorem units_of_run (h : run c d i = .ok s) (ho : c.topology.ownsAccelerator = true) (hr : c.retrieval = .fullyConnected) :
    ∃ w, i.weights = some w ∧ w.checkShape = .ok () ∧ s.plan.HasUnits w i.bias i.expected := by
  obtain ⟨-, -, -, hplan, -⟩ := run_steps h
  obtain ⟨-, hunits, rfl, -, -⟩ := Plan.make_ok hplan
  obtain ⟨-, hunload | hhost⟩ | ⟨-, kind, u, hkind, hlayer, hus⟩ := classificationUnits_ok hunits
  · rw [hr] at hunload
    cases hunload
  · rw [ho] at hhost
    cases hhost
  · rw [hr] at hkind
    cases hkind
    obtain ⟨hsoftmax, -⟩ | ⟨-, w, hw, hshape, rfl⟩ := LayerStyle.layer_ok hlayer
    · cases hsoftmax
    · exact ⟨w, hw, if_pos hshape, hus⟩

/-- The weights of a fully-connected layer always have the size of its shape. Its bias and its expected output have a value for
every output if and only if they were given so: nothing holds them against the shape. -/
theorem classification_sizes_iff (h : run c d i = .ok s) (ho : c.topology.ownsAccelerator = true)
    (hr : c.retrieval = .fullyConnected) :
    ∃ w, i.weights = some w ∧
      .define "FC_IN" (decimal w.cols) ∈ gather (operationsOn .main) s.plan.actions ∧
      (∀ sink ∈ [Sink.weights, .sampleData], s.program.text.texts.get sink =
        String.join (((gather EmitStep.literals s.plan.actions).filter (·.1 = sink)).map Prod.snd)) ∧
      (∃ text, (.weights, text) ∈ gather EmitStep.literals s.plan.actions ∧ defines "FC_WEIGHTS" text = true) ∧
      s.plan.HasSize "FC_WEIGHTS" (w.rows * w.cols) ∧
      (s.plan.HasSize "FC_BIAS" w.rows ∧ s.plan.HasSize "FC_EXPECTED" w.rows ↔
        (∀ b, i.bias = some b → b.length = w.rows) ∧ ∀ e, i.expected = some e → e.length = w.rows) := by
  obtain ⟨w, hw, hshape, hunits⟩ := units_of_run h ho hr
  have htext := text_eq h
  obtain ⟨-, rfl, -⟩ := run_ok h
  have howns : s.plan.owns = true := ho
  have hsize := hunits.hasSize_iff howns
  refine ⟨w, hw, ?_, fun sink hs => (htext sink).trans (Plan.header_text hs), ?_, ?_, ?_⟩
  · rw [Plan.operations_actions howns hr, Plan.unitOps, hunits]
    simp [LayerStyle.weightedLayer, LayerStyle.kernelCode]
  · rw [Plan.literals_actions, if_pos howns]
    exact ⟨_, hunits.literals.1, defines_array (by decide) _⟩
  · rw [(hsize _).1, (WeightMatrix.interleave_perm hshape).length_eq, WeightMatrix.size_of_checkShape hshape]
  · rw [(hsize _).2.1, (hsize _).2.2]

/-- An embedded program with a fully-connected layer. -/
def classifier : Configuration :=
  ⟨{ Settings.initial with groups := .ofList [0], target := .embedded, retrieval := .fullyConnected }, by decide⟩

/-- One bias for two outputs. -/
def shortBias : Inputs := ⟨some ⟨2, 2, [1, 2, 3, 4]⟩, some [1], none⟩

theorem classification_sizes_short : ∃ s, run classifier .ai85 shortBias = .ok s ∧
    s.plan.HasSize "FC_WEIGHTS" 4 ∧ ¬ (s.plan.HasSize "FC_BIAS" 2 ∧ s.plan.HasSize "FC_EXPECTED" 2) := by
  obtain ⟨s, hs⟩ := exists_run (c := classifier) (d := .ai85) (i := shortBias) (by decide)
  obtain ⟨w, hw, -, -, -, hweights, hiff⟩ := classification_sizes_iff hs rfl rfl
  cases hw
  refine ⟨s, hs, hweights, fun hsizes => ?_⟩
  exact absurd ((hiff.1 hsizes).1 [1] rfl) (by decide)

end Synthesis

end AccelFirmware
