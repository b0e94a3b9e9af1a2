import AccelFirmware.Classification.Weights
import AccelFirmware.Configuration.Axis
import AccelFirmware.Emission.Emitter
import AccelFirmware.Literal.Define

/-!
# Classification layers

The code that turns the output of the accelerator into classes on the host core. A layer is a unit: declarations at file
scope, one function, and the array literals they name. The fully-connected layer runs a fixed-point kernel and then softmax;
the other one applies softmax directly. A third unit compares the output with expected values.
-/

namespace AccelFirmware

/-- A self-contained block of code, with every literal and the sink it belongs to. -/
structure CodeUnit where
  declarations : List Operation
  signature : Signature
  body : List Operation
  result : Option String
  literals : List (Sink × String)

inductive ClassificationError where
  | missingWeights
  | shape (error : ShapeError)
  | format (error : FormatError)
  deriving DecidableEq, Repr

def ClassificationError.message : ClassificationError → String
  | .missingWeights => "missing synthesis input: fully-connected weights"
  | .shape error => error.message
  | .format error => "array format error: " ++ error.message

/-! ## The output buffer -/

def outputBuffer : OutputWidth → Operation
  | .w32 => .declare "static int32_t ml_data[CNN_NUM_OUTPUTS];"
  | w =>
      .declare ("static int32_t ml_data32[(CNN_NUM_OUTPUTS + " ++ decimal (w.perWord - 1) ++ ") / "
        ++ decimal w.perWord ++ "];")

def bufferName : OutputWidth → String
  | .w32 => "ml_data"
  | .w8 | .w16 => "ml_data32"

def unloadCall (w : OutputWidth) : Operation :=
  .call (.provided "cnn_unload") ["(uint32_t *) " ++ bufferName w]

/-! ## Layers -/

inductive LayerKind where
  | fullyConnected
  | softmaxOnly
  deriving DecidableEq, Repr

namespace LayerKind

def ofRetrieval? : Retrieval → Option LayerKind
  | .unload => none
  | .fullyConnected => some .fullyConnected
  | .softmaxOnly => some .softmaxOnly

def functionName : LayerKind → String
  | .fullyConnected => "fc_layer"
  | .softmaxOnly => "softmax_layer"

end LayerKind

/-- How layers are written: the width of the output, the order of the weights and the form of array literals. -/
structure LayerStyle where
  width : OutputWidth
  arrange : WeightMatrix → List Int
  literal : ArrayLiteral → String

namespace LayerStyle

/-- The weight order of the kernel, and macros for literals. -/
def standard (width : OutputWidth) : LayerStyle :=
  ⟨width, WeightMatrix.interleave, ArrayLiteral.define⟩

/-- An array of a layer: decimal numbers, sixteen in a line. -/
def array (name : String) (values : List Int) : Except FormatError ArrayLiteral :=
  ArrayLiteral.make name values "%d" 16

/-- The code of the fully-connected layer over `cols` inputs, with the literals that it names. -/
def kernelCode (s : LayerStyle) (cols : Nat) (biased : Bool) (literals : List (Sink × String)) : CodeUnit where
  declarations :=
    [.comment "Classification layer:",
     .define "FC_IN" (decimal cols),
     .declare "static const q7_t fc_weights[] = FC_WEIGHTS;",
     .blank,
     outputBuffer s.width,
     .declare "static q15_t fc_buffer[FC_IN];",
     .declare "static q15_t fc_output[CNN_NUM_OUTPUTS];",
     .declare "static q15_t ml_softmax[CNN_NUM_OUTPUTS];",
     .blank] ++
    if biased then [.declare "static const q7_t fc_bias[] = FC_BIAS;", .blank] else []
  signature := .procedure LayerKind.fullyConnected.functionName
  body :=
    [unloadCall s.width,
     .call (.provided "arm_fully_connected_q7_q8p7_opt")
       ["(q7_t *) " ++ bufferName s.width, "fc_weights", "FC_IN", "CNN_NUM_OUTPUTS", "0", "7",
        if biased then "fc_bias" else "NULL", "fc_output", "fc_buffer"],
     .call (.provided "arm_softmax_q8p7_q15") ["fc_output", "CNN_NUM_OUTPUTS", "ml_softmax"]]
  result := none
  literals := literals

def fullyConnected (s : LayerStyle) (w : WeightMatrix) (bias : Option (List Int)) : Except FormatError CodeUnit := do
  let weights ← array "FC_WEIGHTS" (s.arrange w)
  let biases ← bias.mapM (array "FC_BIAS")
  pure (s.kernelCode w.cols bias.isSome
    ((.weights, s.literal weights) :: (biases.map fun b => (Sink.weights, s.literal b)).toList))

def softmaxOnly (s : LayerStyle) : CodeUnit where
  declarations :=
    [.comment "Classification layer:",
     outputBuffer s.width,
     .declare "static q15_t ml_softmax[CNN_NUM_OUTPUTS];",
     .blank]
  signature := .procedure LayerKind.softmaxOnly.functionName
  body :=
    [unloadCall s.width,
     match s.width with
     | .w32 =>
         .call (.provided "softmax_q17p14_q15") ["(const q31_t *) ml_data", "CNN_NUM_OUTPUTS", "ml_softmax"]
     | .w8 | .w16 =>
         .call (.provided "arm_softmax_q7_q15") ["(const q7_t *) ml_data32", "CNN_NUM_OUTPUTS", "ml_softmax"]]
  result := none
  literals := []

/-- The layer of a kind. Only the fully-connected one looks at the arrays. -/
def layer (s : LayerStyle) (weights : Option WeightMatrix) (bias : Option (List Int)) :
    LayerKind → Except ClassificationError CodeUnit
  | .softmaxOnly => .ok s.softmaxOnly
  | .fullyConnected =>
      match weights with
      | none => .error .missingWeights
      | some w =>
          match w.checkShape with
          | .ok () => (s.fullyConnected w bias).mapError .format
          | .error e => .error (.shape e)

/-- The code that compares the output with the values of a literal. -/
def comparisonCode (literal : String) : CodeUnit where
  declarations :=
    [.comment "Expected output of classification layer:",
     .declare "static q15_t fc_expected[CNN_NUM_OUTPUTS] = FC_EXPECTED;",
     .blank]
  signature := .status "fc_verify"
  body := []
  result := some "memcmp(fc_output, fc_expected, CNN_NUM_OUTPUTS * sizeof(q15_t)) == 0"
  literals := [(.sampleData, literal)]

def verification (s : LayerStyle) (expected : List Int) : Except FormatError CodeUnit := do
  let literal ← array "FC_EXPECTED" expected
  pure (comparisonCode (s.literal literal))

end LayerStyle

end AccelFirmware
