import AccelFirmware.Operation.Basic
import AccelFirmware.Text.Line
import AccelFirmware.Text.Numeral

/-!
# Operations as C

An operation becomes a list of lines at a nesting depth. Directives ignore the depth, bodies of loops and guards
lie one level deeper, and the further lines of a register value hang under its first line.
-/

namespace AccelFirmware

def Register.render : Register → String
  | .address value => "*((volatile uint32_t *) 0x" ++ hexWide 8 value.toNat ++ ")"
  | .named name => name

def WriteMode.symbol : WriteMode → String
  | .assign => "="
  | .setBits => "|="
  | .keepBits => "&="

def SleepInstruction.statement : SleepInstruction → String
  | .arm => "__WFI();"
  | .riscV => "asm volatile(\"wfi\");"

def FailPolicy.action : FailPolicy → String
  | .halt => "fail();"
  | .abortAndReturn => "\x7b fail(); pass(); return 0; \x7d"

def annotate (text : String) : Option String → String
  | none => text
  | some comment => text ++ " // " ++ comment

def mapLast (f : String → String) : List String → List String
  | [] => []
  | [s] => [f s]
  | s :: ss => s :: mapLast f ss

/-- The lines of an assignment. Lines after the first start below the value, measured in bytes. -/
def assignmentLines (left value : String) : List String :=
  match splitLines value with
  | [] => [left]
  | first :: rest =>
      (left ++ first) :: rest.map fun part =>
        String.ofList (List.replicate left.utf8ByteSize ' ') ++ part

/-- A preformatted line: empty lines and directives are not indented. -/
def verbatimLine (depth : Nat) (text : String) : Line :=
  if text.isEmpty || text.toList.head? == some '#' then ⟨0, text⟩ else ⟨depth, text⟩

def CompletionWait.lines (depth : Nat) : CompletionWait → List Line
  | .sleep instruction =>
      [⟨depth, "while (cnn_time == 0)"⟩, ⟨depth + 1, annotate instruction.statement (some "Wait for CNN")⟩]
  | .spin => [⟨depth, annotate "while (cnn_time == 0);" (some "Spin wait")⟩]
  | .poll => [⟨depth, "cnn_wait();"⟩]

namespace Operation

mutual

def lines : Operation → Nat → List Line
  | .header name system note, _ =>
      [⟨0, annotate (if system then "#include <" ++ name ++ ">" else "#include \"" ++ name ++ "\"") note⟩]
  | .define name value, _ => [⟨0, "#define " ++ name ++ " " ++ value⟩]
  | .declare text, depth => [⟨depth, text⟩]
  | .statement text note, depth => [⟨depth, annotate text note⟩]
  | .write register mode value note, depth =>
      (mapLast (fun s => annotate (s ++ ";") note)
        (assignmentLines (register.render ++ " " ++ mode.symbol ++ " ") value)).map fun s => ⟨depth, s⟩
  | .call callee args note, depth =>
      [⟨depth, annotate (callee.name ++ "(" ++ ", ".intercalate args ++ ");") note⟩]
  | .installVector irq handler note, depth =>
      [⟨depth, annotate ("NVIC_SetVector(" ++ irq ++ ", " ++ handler ++ ");") note⟩]
  | .waitUntil condition note, depth =>
      [⟨depth, annotate ("while (" ++ condition ++ ") ;") note⟩]
  | .await wait, depth => wait.lines depth
  | .guarded condition body, depth => ⟨depth, "if (" ++ condition ++ ")"⟩ :: body.lines (depth + 1)
  | .counted count body, depth =>
      ⟨depth, "for (i = 0; i < " ++ decimal count.toNat ++ "; i++) \x7b"⟩ ::
        linesOfAll body (depth + 1) ++ [⟨depth, "\x7d"⟩]
  | .forever body, depth => ⟨depth, "while (1) \x7b"⟩ :: linesOfAll body (depth + 1) ++ [⟨depth, "\x7d"⟩]
  | .check callee policy, depth =>
      [⟨depth, "if (" ++ callee.name ++ "() != CNN_OK) " ++ policy.action⟩]
  | .comment text, depth => [⟨depth, "// " ++ text⟩]
  | .blank, _ => [⟨0, ""⟩]
  | .verbatim text, depth => (splitLines text).map (verbatimLine depth)

def linesOfAll : List Operation → Nat → List Line
  | [], _ => []
  | op :: ops, depth => op.lines depth ++ linesOfAll ops depth

end

def render (op : Operation) (depth : Nat) : String :=
  Line.renderAll (op.lines depth)

def renderAll (ops : List Operation) (depth : Nat) : String :=
  Line.renderAll (linesOfAll ops depth)

end Operation

end AccelFirmware
