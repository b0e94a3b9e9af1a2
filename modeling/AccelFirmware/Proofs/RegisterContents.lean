import AccelFirmware.Operation.Render
import AccelFirmware.Proofs.NumberFields
import AccelFirmware.Proofs.Tokens
import Mathlib.Logic.Function.Basic

/-!
# Contents of registers

What the writes of generated code leave in registers. The values of writes are expressions over 32-bit words: constants, variables,
words in memory and bit operators. They are read from their texts with the precedence of the language they are written in.
-/

namespace AccelFirmware

/-! ## Constants -/

def wordOf? (n : Nat) : Option UInt32 := if n < UInt32.size then some (UInt32.ofNat n) else none

/-- The value of a constant: `0x` and digits, or decimal digits without a zero in front. -/
def constant? : List Char → Option UInt32
  | '0' :: 'x' :: text => (Radix.lowerHex.read? text).bind wordOf?
  | ['0'] => some 0
  | '0' :: _ => none
  | text => (Radix.decimal.read? text).bind wordOf?

/-- A constant with at least some digits. -/
def hexConstant (width : Nat) (value : UInt32) : List Char := '0' :: 'x' :: (hexWide width value.toNat).toList

theorem constant?_hexConstant (width : Nat) (value : UInt32) : constant? (hexConstant width value) = some value := by
  have hread : Radix.lowerHex.read? (hexWide width value.toNat).toList = some value.toNat := by
    rw [hexWide, String.toList_ofList]
    exact Radix.read?_write .lowerHex _ _
  simp [constant?, hexConstant, hread, wordOf?, value.toNat_lt]

theorem isWordChar_of_mem_hexConstant {width : Nat} {value : UInt32} {c : Char} (h : c ∈ hexConstant width value) :
    isWordChar c = true := by
  simp only [hexConstant, hexWide, String.toList_ofList, padLeft, List.mem_cons, List.mem_append, List.mem_replicate] at h
  rcases h with rfl | rfl | ⟨-, rfl⟩ | h
  · rfl
  · rfl
  · rfl
  · exact Token.isWordChar_of_isNumeralChar (isNumeralChar_of_mem_write (by decide) h)

theorem toList_hex (value : UInt32) : ("0x" ++ hex value.toNat).toList = hexConstant 0 value := by
  rw [String.toList_append, hexConstant, hexWide, hex, padLeft, Nat.zero_sub]
  rfl

/-! ## Words of a text -/

/-- A text of word characters is one word. -/
theorem tokens_word {text : List Char} (hne : text ≠ []) (h : ∀ c ∈ text, isWordChar c = true) : tokens text = [.word text] := by
  induction text with
  | nil => exact absurd rfl hne
  | cons c text ih =>
    rw [tokens, if_pos (h c (by simp))]
    cases text with
    | nil => rfl
    | cons d text => rw [ih (by simp) fun e he => h e (by simp [he])]

theorem tokens_hexConstant (width : Nat) (value : UInt32) : tokens (hexConstant width value) = [.word (hexConstant width value)] :=
  tokens_word (by simp [hexConstant]) fun _ => isWordChar_of_mem_hexConstant

/-- A constant between two characters that are in no word. -/
theorem tokens_around_hexConstant {c d : Char} (hc : isWordChar c = false) (hd : isWordChar d = false) (as bs : List Char)
    (width : Nat) (value : UInt32) :
    tokens (as ++ c :: (hexConstant width value ++ d :: bs)) =
      tokens as ++ .mark c :: .word (hexConstant width value) :: .mark d :: tokens bs := by
  rw [tokens_append_mark hc, tokens_append_mark hd, tokens_hexConstant]
  rfl

/-! ## Expressions -/

inductive WordOperator where
  | shiftLeft
  | both
  | either
  deriving DecidableEq, Repr

inductive WordExpr where
  /-- A constant, or the name of a variable. -/
  | word (text : List Char)
  /-- The word in memory at an address. -/
  | load (address : List Char)
  | complement (operand : WordExpr)
  | combine (operator : WordOperator) (left right : WordExpr)
  deriving DecidableEq, Repr

/-- What registers hold, and variables, which are registers by their names. -/
abbrev Contents := Register → UInt32

/-- A shift by the width of a word or more has no value. -/
def WordOperator.apply : WordOperator → UInt32 → UInt32 → Option UInt32
  | .shiftLeft, a, b => if b < 32 then some (a <<< b) else none
  | .both, a, b => some (a &&& b)
  | .either, a, b => some (a ||| b)

namespace WordExpr

def eval (s : Contents) : WordExpr → Option UInt32
  | .word text => if text.head?.any Char.isDigit then constant? text else some (s (.named (String.ofList text)))
  | .load address => (constant? address).map fun a => s (.address a)
  | .complement e => (e.eval s).map (~~~·)
  | .combine operator a b => do operator.apply (← a.eval s) (← b.eval s)

/-- An expression that is not complete: what becomes of its next operand, from the weakest operator level to the strongest. -/
structure Opening where
  either : WordExpr → WordExpr
  both : WordExpr → WordExpr
  shift : WordExpr → WordExpr
  unary : WordExpr → WordExpr

namespace Opening

def fresh : Opening := ⟨id, id, id, id⟩

def operand (o : Opening) (e : WordExpr) : WordExpr := o.shift (o.unary e)

def close (o : Opening) (e : WordExpr) : WordExpr := o.either (o.both e)

end Opening

/-- Reads an expression. An operator takes what has been read on its level as its left side; a parenthesis puts the expression
around it aside. -/
def readFrom? : (around : List Opening) → Opening → (operand : Option WordExpr) → List Token → Option WordExpr
  | around, o, e, .mark ' ' :: ts => readFrom? around o e ts
  | around, o, none, .word text :: ts => readFrom? around o (some (o.operand (.word text))) ts
  | around, o, none, .mark '~' :: ts => readFrom? around { o with unary := fun e => o.unary (.complement e) } none ts
  | around, o, none, .mark '*' :: .mark '(' :: .mark '(' :: .word qualifier :: .mark ' ' :: .word type :: .mark ' ' ::
      .mark '*' :: .mark ')' :: .mark ' ' :: .word address :: .mark ')' :: ts =>
      if qualifier = "volatile".toList ∧ type = "uint32_t".toList then
        readFrom? around o (some (o.operand (.load address))) ts
      else none
  | around, o, none, .mark '(' :: ts => readFrom? (o :: around) .fresh none ts
  | around, o, some e, .mark '<' :: .mark '<' :: ts =>
      readFrom? around { o with shift := fun f => .combine .shiftLeft e f, unary := id } none ts
  | around, o, some e, .mark '&' :: ts =>
      readFrom? around { o with both := fun f => .combine .both (o.both e) f, shift := id, unary := id } none ts
  | around, o, some e, .mark '|' :: ts =>
      readFrom? around { Opening.fresh with either := fun f => .combine .either (o.close e) f } none ts
  | outer :: around, o, some e, .mark ')' :: ts => readFrom? around outer (some (outer.operand (o.close e))) ts
  | [], o, some e, [] => some (o.close e)
  | _, _, _, _ => none

def read? (ts : List Token) : Option WordExpr := readFrom? [] .fresh none ts

end WordExpr

/-- The value of an expression. -/
def valueIn? (s : Contents) (ts : List Token) : Option UInt32 := (WordExpr.read? ts).bind (WordExpr.eval s)

theorem eval_hexConstant (s : Contents) (width : Nat) (value : UInt32) :
    (WordExpr.word (hexConstant width value)).eval s = some value := constant?_hexConstant width value

theorem valueIn?_hex (s : Contents) (value : UInt32) : valueIn? s (tokens ("0x" ++ hex value.toNat).toList) = some value := by
  rw [toList_hex, tokens_hexConstant]
  exact eval_hexConstant s 0 value

/-! ## Writes -/

def WriteMode.combine : WriteMode → UInt32 → UInt32 → UInt32
  | .assign, _, value => value
  | .setBits, word, value => word ||| value
  | .keepBits, word, value => word &&& value

namespace Contents

def write (s : Contents) (r : Register) (mode : WriteMode) (value : UInt32) : Contents :=
  Function.update s r (mode.combine (s r) value)

variable {s : Contents} {r r' : Register} {mode : WriteMode} {value : UInt32}

@[simp] theorem write_self : s.write r mode value r = mode.combine (s r) value := Function.update_self ..

theorem write_of_ne (h : r' ≠ r) : s.write r mode value r' = s r' := Function.update_of_ne h ..

end Contents

/-- The variable, the mode and the expression of an assignment. -/
def assignment? : List Token → Option (List Char × WriteMode × List Token)
  | .word name :: .mark ' ' :: .mark '=' :: ts => some (name, .assign, ts)
  | .word name :: .mark ' ' :: .mark '|' :: .mark '=' :: ts => some (name, .setBits, ts)
  | .word name :: .mark ' ' :: .mark '&' :: .mark '=' :: ts => some (name, .keepBits, ts)
  | _ => none

/-- The assignment that a statement is. -/
def assigned? (ts : List Token) : Option (List Char × WriteMode × List Token) :=
  if ts.getLast? = some (.mark ';') then assignment? ts.dropLast else none

namespace Operation

/-- What an operation makes of the contents, if it is a write, an assignment or no code at all. -/
def effect (s : Contents) : Operation → Option Contents
  | .write r mode value _ => (valueIn? s (tokens value.toList)).map (s.write r mode)
  | .statement text _ =>
      (assigned? (tokens text.toList)).bind fun (name, mode, value) =>
        (valueIn? s value).map (s.write (.named (String.ofList name)) mode)
  | .comment _ | .blank => some s
  | _ => none

/-- The register or the variable that an operation writes. -/
def target? : Operation → Option Register
  | .write r _ _ _ => some r
  | .statement text _ => (assigned? (tokens text.toList)).map fun (name, _, _) => .named (String.ofList name)
  | _ => none

variable {s t : Contents} {op : Operation} {ops : List Operation}

theorem effect_write_hex (s : Contents) (r : Register) (mode : WriteMode) (value : UInt32) (note : Option String) :
    (write r mode ("0x" ++ hex value.toNat) note).effect s = some (s.write r mode value) := by
  rw [effect, valueIn?_hex, Option.map_some]

/-- One operation leaves every register alone but its target. -/
theorem effect_of_ne {r : Register} (h : op.effect s = some t) (hr : op.target? ≠ some r) : t r = s r := by
  cases op with
  | write w mode value note =>
    obtain ⟨value, -, rfl⟩ := Option.map_eq_some_iff.1 h
    exact Contents.write_of_ne fun hw => hr (by rw [target?, hw])
  | statement text note =>
    obtain ⟨⟨name, mode, value⟩, hassigned, h⟩ := Option.bind_eq_some_iff.1 h
    obtain ⟨value, -, rfl⟩ := Option.map_eq_some_iff.1 h
    exact Contents.write_of_ne fun hw => hr (by rw [target?, hassigned, hw]; rfl)
  | comment _ | blank =>
    cases h
    rfl
  | _ => cases h

/-- The contents after some operations, `none` if one of them has no effect of this kind. -/
def effectOfAll (s : Contents) (ops : List Operation) : Option Contents := ops.foldlM effect s

def targets (ops : List Operation) : List Register := ops.filterMap target?

theorem effectOfAll_cons (h : op.effect s = some t) (ops : List Operation) :
    effectOfAll s (op :: ops) = effectOfAll t ops := by
  rw [effectOfAll, List.foldlM_cons, h]
  rfl

theorem effectOfAll_append {rest : List Operation} {u : Option Contents} (h : effectOfAll s ops = some t)
    (hrest : effectOfAll t rest = u) : effectOfAll s (ops ++ rest) = u := by
  simp only [effectOfAll] at h hrest ⊢
  rw [List.foldlM_append, h]
  exact hrest

/-- Operations leave every register alone that is not among their targets. -/
theorem effectOfAll_of_notMem {r : Register} (h : effectOfAll s ops = some t) (hr : r ∉ targets ops) : t r = s r := by
  induction ops generalizing s with
  | nil =>
    cases h
    rfl
  | cons op ops ih =>
    rw [effectOfAll, List.foldlM_cons] at h
    obtain ⟨u, hop, hops⟩ := Option.bind_eq_some_iff.1 h
    have hother : op.target? ≠ some r := fun htarget => hr (List.mem_filterMap.2 ⟨op, by simp, htarget⟩)
    rw [ih hops fun hm => hr ?_, effect_of_ne hop hother]
    obtain ⟨later, hlater, htarget⟩ := List.mem_filterMap.1 hm
    exact List.mem_filterMap.2 ⟨later, by simp [hlater], htarget⟩

end Operation

end AccelFirmware
