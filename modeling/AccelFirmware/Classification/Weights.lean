import AccelFirmware.Data.Decode
import AccelFirmware.Data.Json.Reader
import AccelFirmware.Text.Numeral

/-!
# Weights and golden data

The arrays that a classification layer takes: its weight matrix, its bias and the expected output. The matrix is written
in the interleaved order that the fixed-point kernel loads, a permutation of its values.
-/

namespace AccelFirmware

/-- A matrix by rows: a row for every output, a column for every input of the layer. -/
structure WeightMatrix where
  rows : Nat
  cols : Nat
  values : List Int
  deriving DecidableEq, Repr

structure ShapeError where
  rows : Nat
  cols : Nat
  actual : Nat
  deriving DecidableEq, Repr

def ShapeError.message (e : ShapeError) : String :=
  "fully-connected weights have " ++ decimal e.actual ++ " values, expected " ++ decimal e.rows ++ " x "
    ++ decimal e.cols

namespace WeightMatrix

def checkShape (w : WeightMatrix) : Except ShapeError Unit :=
  if w.rows * w.cols = w.values.length then .ok () else .error ⟨w.rows, w.cols, w.values.length⟩

def entry (w : WeightMatrix) (row col : Nat) : Int :=
  w.values.getD (row * w.cols + col) 0

/-! ## Interleaving -/

/-- The order of the sixteen entries of a square of four rows and columns. -/
def squareOrder : List (Nat × Nat) :=
  [(0, 0), (1, 0), (0, 2), (1, 2), (2, 0), (3, 0), (2, 2), (3, 2),
   (0, 1), (1, 1), (0, 3), (1, 3), (2, 1), (3, 1), (2, 3), (3, 3)]

/-- The places of four rows, in order: the squares from left to right, then the columns that are left over. -/
def blockOrder (cols block : Nat) : List (Nat × Nat) :=
  ((List.range (cols / 4)).flatMap fun chunk =>
    squareOrder.map fun (row, col) => (4 * block + row, 4 * chunk + col)) ++
  ((List.range (cols % 4)).flatMap fun j =>
    (List.range 4).map fun row => (4 * block + row, cols - cols % 4 + j))

/-- The full blocks of four rows, counted by their values: a matrix without columns has none. -/
def blocks (w : WeightMatrix) : Nat := w.values.length / (4 * w.cols)

/-- The values in the order of the kernel. Rows that do not fill a block of four stay as they are. -/
def interleave (w : WeightMatrix) : List Int :=
  ((List.range w.blocks).flatMap fun block =>
    (blockOrder w.cols block).map fun (row, col) => w.entry row col) ++
  w.values.drop (4 * w.blocks * w.cols)

end WeightMatrix

/-! ## Inputs -/

structure Inputs where
  weights : Option WeightMatrix
  bias : Option (List Int)
  expected : Option (List Int)
  deriving DecidableEq, Repr

namespace Inputs

def empty : Inputs := ⟨none, none, none⟩

def datum (i : Inputs) : Datum :=
  let array (xs : List Int) : Datum := .list (xs.map .int)
  let matrix (w : WeightMatrix) : Datum :=
    .record [("rows", .int w.rows), ("cols", .int w.cols), ("values", array w.values)]
  .record [("fc-weights", .ofOption matrix i.weights), ("fc-bias", .ofOption array i.bias),
    ("fc-expected", .ofOption array i.expected)]

end Inputs

def WeightMatrix.decode (dialect : Dialect) : Decoder WeightMatrix := fun d => do
  let f ← Decode.fields dialect ["rows", "cols", "values"] d
  pure ⟨← f.required "rows" Decode.size, ← f.required "cols" Decode.size,
    ← f.required "values" (Decode.list Decode.integer)⟩

namespace Inputs

def fieldNames : List String := ["fc-weights", "fc-bias", "fc-expected"]

def decode (dialect : Dialect) : Decoder Inputs := fun d => do
  let f ← Decode.fields dialect fieldNames d
  let f ← f.only fieldNames
  let array := Decode.orNull (Decode.list Decode.integer)
  pure ⟨← f.orDefault "fc-weights" none (Decode.orNull (WeightMatrix.decode dialect)),
    ← f.orDefault "fc-bias" none array, ← f.orDefault "fc-expected" none array⟩

/-- Reads the text of an input file, `none` when it is not JSON or holds something else. -/
def ofJson? (text : String) : Option Inputs :=
  match Json.parse text with
  | some d => (decode .json d).toOption
  | none => .none

end Inputs

end AccelFirmware
