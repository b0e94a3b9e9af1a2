import AccelFirmware.Proofs.Emission
import AccelFirmware.Proofs.Execution

/-!
# Inlining

Calls replaced by what the functions do that they call, with the arguments in the place of the parameters. Parameters are
replaced word by word in every text of a body. A word after a dot or an arrow is the name of a field and stays.
-/

namespace AccelFirmware

/-! ## Words of a text -/

inductive Token where
  | word (name : List Char)
  | mark (c : Char)
  deriving DecidableEq, Repr

namespace Token

def chars : Token → List Char
  | .word name => name
  | .mark c => [c]

end Token

def isWordChar (c : Char) : Bool := c.isAlphanum || c = '_'

/-- Words as long as possible, and the characters between them. -/
def tokens : List Char → List Token
  | [] => []
  | c :: cs =>
      if isWordChar c then
        match tokens cs with
        | .word name :: rest => .word (c :: name) :: rest
        | rest => .word [c] :: rest
      else .mark c :: tokens cs

theorem chars_tokens (cs : List Char) : (tokens cs).flatMap Token.chars = cs := by
  induction cs with
  | nil => rfl
  | cons c cs ih =>
    simp only [tokens]
    split
    · split
      · rename_i name rest h
        rw [h] at ih
        simpa [Token.chars] using ih
      · simpa [Token.chars] using ih
    · simpa [Token.chars] using ih

/-- A character that is in no word separates the words on both sides. -/
theorem tokens_append_mark {c : Char} (hc : isWordChar c = false) (as bs : List Char) :
    tokens (as ++ c :: bs) = tokens as ++ .mark c :: tokens bs := by
  induction as with
  | nil => simp [tokens, hc]
  | cons a as ih =>
    simp only [List.cons_append, tokens, ih]
    cases isWordChar a with
    | false => rfl
    | true =>
      cases tokens as with
      | nil => rfl
      | cons t ts => cases t <;> rfl

/-- Words are made of the characters of their text. -/
theorem mem_of_word {name cs : List Char} (h : .word name ∈ tokens cs) {c : Char} (hc : c ∈ name) : c ∈ cs := by
  rw [← chars_tokens cs]
  exact List.mem_flatMap.2 ⟨_, h, hc⟩

/-! ## Substitution -/

abbrev Bindings := List (List Char × List Char)

namespace Bindings

def value (b : Bindings) (name : List Char) : List Char := (b.lookup name).getD name

/-- Whether the word after some text, which is given backwards, names a field. -/
def selectsField : List Char → Bool
  | '.' :: _ | '>' :: '-' :: _ => true
  | _ => false

/-- Replaces words; `before` is the text so far, backwards. -/
def replace (b : Bindings) : (before : List Char) → List Token → List Char
  | _, [] => []
  | before, .word name :: rest =>
      (if selectsField before then name else b.value name) ++ b.replace (name.reverse ++ before) rest
  | before, .mark c :: rest => c :: b.replace (c :: before) rest

def apply (b : Bindings) (text : String) : String :=
  String.ofList (b.replace [] (tokens text.toList))

variable {b : Bindings}

theorem replace_of_unbound {before : List Char} {ts : List Token} (h : ∀ name, .word name ∈ ts → b.lookup name = none) :
    b.replace before ts = ts.flatMap Token.chars := by
  induction ts generalizing before with
  | nil => rfl
  | cons t ts ih =>
    have hts : b.replace (t.chars.reverse ++ before) ts = ts.flatMap Token.chars :=
      ih fun name hn => h name (by simp [hn])
    cases t with
    | word name =>
      have hname : b.value name = name := by simp [value, h name (by simp)]
      rw [replace, hname, ite_self, List.flatMap_cons, ← hts]
      rfl
    | mark c =>
      rw [replace, List.flatMap_cons, ← hts]
      rfl

/-- A text without bound words stays. -/
theorem apply_of_unbound {text : String} (h : ∀ name, .word name ∈ tokens text.toList → b.lookup name = none) :
    b.apply text = text := by
  rw [apply, replace_of_unbound h, chars_tokens, String.ofList_toList]

/-- A character that is in every bound word, but not in a text. -/
theorem apply_of_missing {text : String} (c : Char) (hb : ∀ x ∈ b, c ∈ x.1) (hc : c ∉ text.toList) :
    b.apply text = text := by
  apply apply_of_unbound
  intro name hn
  rw [List.lookup_eq_none_iff]
  intro x hx
  simp only [bne_iff_ne, ne_eq]
  rintro rfl
  exact hc (mem_of_word hn (hb x hx))

end Bindings

namespace Register

def substitute (b : Bindings) : Register → Register
  | .address value => .address value
  | .named name => .named (b.apply name)

end Register

namespace Operation

variable (b : Bindings)

mutual

/-- Replaces words in an operation. Comments stay as they are. -/
def substitute : Operation → Operation
  | .header name system note => .header name system note
  | .define name value => .define name (b.apply value)
  | .declare text => .declare (b.apply text)
  | .statement text note => .statement (b.apply text) note
  | .write register mode value note => .write (register.substitute b) mode (b.apply value) note
  | .call callee args note => .call callee (args.map b.apply) note
  | .installVector irq handler note => .installVector (b.apply irq) (b.apply handler) note
  | .waitUntil condition note => .waitUntil (b.apply condition) note
  | .await wait => .await wait
  | .guarded condition body => .guarded (b.apply condition) body.substitute
  | .counted count body => .counted count (substituteAll body)
  | .forever body => .forever (substituteAll body)
  | .check callee policy => .check callee policy
  | .comment text => .comment text
  | .blank => .blank
  | .verbatim text => .verbatim (b.apply text)

def substituteAll : List Operation → List Operation
  | [] => []
  | op :: ops => op.substitute :: substituteAll ops

end

theorem substituteAll_eq_map (ops : List Operation) : substituteAll b ops = ops.map (substitute b) := by
  induction ops with
  | nil => rfl
  | cons op ops ih => rw [substituteAll, ih, List.map_cons]

theorem apply_nil (text : String) : Bindings.apply [] text = text :=
  Bindings.apply_of_unbound fun _ _ => rfl

mutual

theorem substitute_nil : (op : Operation) → op.substitute [] = op
  | .guarded _ body => by rw [substitute, substitute_nil body, apply_nil]
  | .counted _ body | .forever body => by rw [substitute, substituteAll_nil body]
  | .write register _ _ _ => by cases register <;> simp [substitute, Register.substitute, apply_nil]
  | .call _ _ _ => by
      have happly : Bindings.apply [] = id := funext apply_nil
      rw [substitute, happly, List.map_id]
  | .define _ _ | .declare _ | .statement _ _ | .installVector _ _ _ | .waitUntil _ _ | .verbatim _ => by
      simp only [substitute, apply_nil]
  | .header _ _ _ | .await _ | .check _ _ | .comment _ | .blank => rfl

/-- Without parameters a body stays as it is. -/
theorem substituteAll_nil : (ops : List Operation) → substituteAll [] ops = ops
  | [] => rfl
  | op :: ops => by rw [substituteAll, substitute_nil op, substituteAll_nil ops]

end

end Operation

/-! ## Calls -/

/-- The words of a parameter list that end a parameter. -/
def parameterNames : List Token → List (List Char)
  | [] => []
  | [.word name] => [name]
  | .word name :: .mark ',' :: rest => name :: parameterNames rest
  | _ :: rest => parameterNames rest

/-- The arguments of a call as values of the parameters. -/
def Signature.bindings (s : Signature) (args : List String) : Bindings :=
  (parameterNames (tokens s.arguments.toList)).zip (args.map String.toList)

namespace EmittedFunction

def instantiate (f : EmittedFunction) (args : List String) : List Operation :=
  Operation.substituteAll (f.signature.bindings args) f.body

end EmittedFunction

/-- What an operation does when it calls one of some functions: the body of the function, with the arguments of the call. -/
def Operation.expand (functions : List EmittedFunction) (names : List String) (taken : String → Bool) :
    Operation → Execution Operation
  | .call (.emitted name) args note =>
      match EmittedFunction.named? name functions with
      | some f =>
          if name ∈ names then executionOfAll taken (f.instantiate args)
          else .ofList [.call (.emitted name) args note]
      | none => .ofList [.call (.emitted name) args note]
  | op => .ofList [op]

namespace Operation

variable {functions : List EmittedFunction} {names : List String} {taken : String → Bool}

theorem expand_of_references {op : Operation} (h : ∀ n ∈ op.references, n ∉ names) :
    op.expand functions names taken = .ofList [op] := by
  cases op with
  | call callee args note =>
    cases callee with
    | provided _ => rfl
    | emitted name =>
      have hname : name ∉ names := h name (by simp [references, calleeReferences])
      simp only [expand]
      split
      · rw [if_neg hname]
      · rfl
  | _ => rfl

/-- Operations that refer to none of the functions stay as they are. -/
theorem bind_expand_of_references {ops : List Operation} (h : ∀ n ∈ referencesOfAll ops, n ∉ names) :
    (executionOfAll taken ops).bind (expand functions names taken) = executionOfAll taken ops :=
  Execution.bind_of_all ((executionOfAll_references taken ops).mono fun _ hsub =>
    expand_of_references fun n hn => h n (hsub hn))

theorem expand_call {f : EmittedFunction} (hf : f ∈ functions) (hn : (functionNames functions).Nodup)
    (hname : f.signature.name ∈ names) (args : List String) (note : Option String) :
    (call (.emitted f.signature.name) args note).expand functions names taken =
      executionOfAll taken (f.instantiate args) := by
  simp only [expand, EmittedFunction.named?_of_mem hn hf, if_pos hname]

end Operation

end AccelFirmware
