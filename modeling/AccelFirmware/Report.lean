import AccelFirmware.Configuration.Basic
import AccelFirmware.Data.Datum
import AccelFirmware.Emission.Emitter
import AccelFirmware.Lifecycle
import AccelFirmware.Text.Digest

/-!
# Reports

What a synthesis has produced, in short: size and digest of every sink with text, the functions, the life of the
generated program and the warnings. A report is printed as text or as a record.
-/

namespace AccelFirmware

structure SinkSummary where
  sink : Sink
  bytes : Nat
  lines : Nat
  digest : String
  deriving DecidableEq, Repr

def SinkSummary.ofText (sink : Sink) (text : String) : SinkSummary :=
  ⟨sink, text.utf8ByteSize, (splitLines text).length, AccelFirmware.digest text⟩

structure Report where
  device : String
  target : Target
  topology : Topology
  layout : Layout
  sinks : List SinkSummary
  functions : List Definition
  lifecycle : Lifecycle
  warnings : List String
  deriving DecidableEq, Repr

namespace Report

/-! ## As a record -/

def sinkDatum (s : SinkSummary) : Datum :=
  .record [("sink", .text s.sink.name), ("bytes", .int s.bytes), ("lines", .int s.lines),
    ("sha256", .text s.digest)]

def functionDatum (f : Definition) : Datum :=
  .record [("sink", .text f.sink.name), ("name", .text f.name)]

def datum (r : Report) : Datum :=
  .record [("device", .text r.device), ("target", .text r.target.name), ("topology", .text r.topology.name),
    ("layout", .text r.layout.name), ("sinks", .list (r.sinks.map sinkDatum)),
    ("functions", .list (r.functions.map functionDatum)), ("final-stage", .text r.lifecycle.stage.name),
    ("stages", .list (r.lifecycle.history.map fun s => .text s.name)),
    ("fatal-checks", .int r.lifecycle.fatalChecks), ("warnings", .list (r.warnings.map .text))]

/-! ## As text -/

def column (width n : Nat) : String :=
  String.ofList (padLeft ' ' width (decimal n).toList)

def sinkLine (s : SinkSummary) : String :=
  "  " ++ padRight 12 s.sink.name ++ " " ++ column 7 s.bytes ++ " bytes " ++ column 5 s.lines
    ++ " lines  sha256:" ++ s.digest

def functionLine (f : Definition) : String :=
  "  " ++ f.name ++ " [" ++ f.sink.name ++ "]"

def warningLines (warnings : List String) : List String :=
  if warnings.isEmpty then []
  else ["", "--- Warnings (" ++ decimal warnings.length ++ ") ---"] ++ warnings.map ("  " ++ ·)

def lines (r : Report) : List String :=
  ["=== Synthesis Report ===",
   "Device: " ++ r.device,
   "Target: " ++ r.target.name ++ " (" ++ r.topology.name ++ ")",
   "",
   "--- Outputs ---"] ++
  r.sinks.map sinkLine ++
  ["", "--- Functions (" ++ decimal r.functions.length ++ ") ---"] ++
  r.functions.map functionLine ++
  ["",
   "--- Lifecycle: " ++ r.lifecycle.stage.name ++ " ---",
   "  " ++ " -> ".intercalate (r.lifecycle.history.map Stage.name),
   "  Fatal checks: " ++ decimal r.lifecycle.fatalChecks] ++
  warningLines r.warnings

def render (r : Report) : String :=
  String.join (r.lines.map (· ++ "\n"))

end Report

end AccelFirmware
