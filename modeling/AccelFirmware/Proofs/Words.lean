import AccelFirmware.Proofs.Pins
import AccelFirmware.Proofs.Tokens

/-!
# Words in operations

Which names the code of operations mentions, comments and names of headers left aside. What does not mention the variable of
the output pins has no effect on a pin.
-/

namespace AccelFirmware

/-! ## Code -/

def Register.texts : Register → List String
  | .address _ => []
  | .named name => [name]

namespace Operation

mutual

/-- The pieces of code in an operation. -/
def texts : Operation → List String
  | .define _ value => [value]
  | .declare text | .statement text _ | .verbatim text => [text]
  | .write register _ value _ => register.texts ++ [value]
  | .call callee args _ => callee.name :: args
  | .installVector irq handler _ => [irq, handler]
  | .waitUntil condition _ => [condition]
  | .guarded condition body => condition :: body.texts
  | .counted _ body | .forever body => textsOfAll body
  | .check callee _ => [callee.name]
  | .header _ _ _ | .await _ | .comment _ | .blank => []

def textsOfAll : List Operation → List String
  | [] => []
  | op :: ops => op.texts ++ textsOfAll ops

end

theorem collects_texts : Collects texts textsOfAll :=
  ⟨fun _ _ => List.subset_cons_self _ _, fun _ _ => List.Subset.refl _, fun _ => List.Subset.refl _, fun _ _ => rfl⟩

@[simp] theorem textsOfAll_append (as bs : List Operation) : textsOfAll (as ++ bs) = textsOfAll as ++ textsOfAll bs :=
  collects_texts.append rfl as bs

/-! ## Mentions -/

/-- Whether the code of an operation has a word in it. -/
def mentions (word : String) (op : Operation) : Bool := op.texts.any (hasWord word)

/-- Operations whose code has none of some words. -/
def Lacks (words : List String) (ops : List Operation) : Prop := ∀ text ∈ textsOfAll ops, Excludes words text

section

variable {words : List String} {word : String} {as bs ops : List Operation}

@[simp] theorem lacks_nil : Lacks words [] := by
  simp [Lacks, textsOfAll]

@[simp] theorem lacks_append : Lacks words (as ++ bs) ↔ Lacks words as ∧ Lacks words bs := by
  simp [Lacks, or_imp, forall_and]

theorem lacks_cons {op : Operation} : Lacks words (op :: ops) ↔ Lacks words [op] ∧ Lacks words ops :=
  show Lacks words ([op] ++ ops) ↔ _ from lacks_append

theorem lacks_verbatim {text : String} : Lacks words [.verbatim text] ↔ Excludes words text := by
  simp [Lacks, textsOfAll, texts]

theorem lacks_statement {text : String} {note : Option String} :
    Lacks words [.statement text note] ↔ Excludes words text := by
  simp [Lacks, textsOfAll, texts]

theorem lacks_of_forall (h : ∀ op ∈ ops, Lacks words [op]) : Lacks words ops := by
  induction ops with
  | nil => exact lacks_nil
  | cons op ops ih => exact lacks_cons.2 ⟨h op (by simp), ih fun op hop => h op (by simp [hop])⟩

theorem lacks_of_spelled {letters : List (List Char)} (h : Spelled letters (textsOfAll ops)) :
    Lacks (letters.map String.ofList) ops :=
  h.excludes

theorem Lacks.mono (h : Lacks words ops) {fewer : List String} (hsub : fewer ⊆ words) : Lacks fewer ops :=
  fun text ht word hw => h text ht word (hsub hw)

theorem Lacks.not_mentions (h : Lacks words ops) (hw : word ∈ words) {op : Operation} (hop : op ∈ ops) :
    op.mentions word = false := by
  have hsub : op.texts ⊆ textsOfAll ops := collects_texts.subset hop
  rw [mentions, List.any_eq_false]
  exact fun text ht => by simpa using h text (hsub ht) word hw

theorem Lacks.steps (h : Lacks words ops) (hw : word ∈ words) (taken : String → Bool) :
    (executionOfAll taken ops).All fun step => step.mentions word = false := by
  refine (collects_texts.executionOfAll taken ops).mono fun step hsub => ?_
  rw [mentions, List.any_eq_false]
  exact fun text ht => by simpa using h text (hsub ht) word hw

/-- Wherever a word is mentioned, some operation has come before, or it is this operation. -/
def Declared (word : String) (declaration : Operation) (ops : List Operation) : Prop :=
  ∀ before op after, ops = before ++ op :: after → op.mentions word = true → op = declaration ∨ declaration ∈ before

theorem Lacks.declared (h : Lacks words ops) (hw : word ∈ words) (declaration : Operation) :
    Declared word declaration ops := by
  intro before op after hops hmentions
  rw [h.not_mentions hw (by simp [hops])] at hmentions
  cases hmentions

theorem Lacks.declared_append (h : Lacks words as) (hw : word ∈ words) (declaration : Operation) (bs : List Operation) :
    Declared word declaration (as ++ declaration :: bs) := by
  intro before op after hops hmentions
  -- The mention stands behind the first operations, where the declaration has come, or among them, where there is none.
  rcases List.append_eq_append_iff.1 hops with ⟨more, rfl, hmore⟩ | ⟨more, rfl, hmore⟩
  · cases more with
    | nil =>
      obtain ⟨rfl, -⟩ := List.cons.inj hmore
      exact Or.inl rfl
    | cons first more =>
      obtain ⟨rfl, -⟩ := List.cons.inj hmore
      exact Or.inr (by simp)
  · cases more with
    | nil =>
      obtain ⟨rfl, -⟩ := List.cons.inj hmore
      exact Or.inl rfl
    | cons first more =>
      obtain ⟨rfl, -⟩ := List.cons.inj hmore
      rw [h.not_mentions hw (by simp)] at hmentions
      cases hmentions

/-- A mention with nothing of the kind ahead of it stands without a declaration. -/
theorem Lacks.not_declared (h : Lacks words as) (hw : word ∈ words) {op declaration : Operation} (hop : op.mentions word = true)
    (hd : declaration.mentions word = true) (hne : op ≠ declaration) (bs : List Operation) :
    ¬ Declared word declaration (as ++ op :: bs) := by
  intro hdeclared
  rcases hdeclared as op bs rfl hop with heq | hmem
  · exact hne heq
  · rw [h.not_mentions hw hmem] at hd
    cases hd

end

end Operation

/-! ## The variable of the output pins -/

def pinVariable : String := "gpio_out"

/-- An assignment to one of the fields begins with the variable. -/
theorem hasWord_of_assigned {f : PinField} {text value : String} (h : f.assigned? text = some value) :
    hasWord pinVariable text = true := by
  obtain ⟨field, hfield⟩ : ∃ field, f.target.toList = pinVariable.toList ++ '.' :: field := by
    cases f <;> exact ⟨_, rfl⟩
  obtain ⟨rest, htext⟩ : ∃ rest, text.toList = f.target.toList ++ rest := by
    rw [PinField.assigned?] at h
    split at h
    · rename_i rest hrest
      exact ⟨rest, (List.isPrefixOf?_eq_some_iff_append_eq.1 hrest).symm⟩
    · cases h
  have hvariable : tokens pinVariable.toList = [.word pinVariable.toList] := by decide +kernel
  rw [hasWord, htext, hfield, List.append_assoc, List.cons_append, tokens_append_mark rfl, hvariable]
  simp

namespace PinState

/-- What does not mention the variable is an effect as it stands. -/
theorem step_of_unmentioned {op : Operation} (h : op.mentions pinVariable = false) (st : PinState) :
    st.step op = (st, [.plain op]) := by
  have htexts : ∀ text ∈ op.texts, hasWord pinVariable text = false := by
    simpa [Operation.mentions] using h
  cases op with
  | declare text =>
    have hne : text ≠ "mxc_gpio_cfg_t gpio_out;" := by
      rintro rfl
      have hword := htexts _ (List.mem_singleton_self _)
      revert hword
      decide +kernel
    simp only [step, if_neg hne]
  | statement text note =>
    have hnone : (PinField.all.findSome? fun f => (f.assigned? text).map (f, ·)) = none := by
      rw [List.findSome?_eq_none_iff]
      intro f _
      rw [Option.map_eq_none_iff, Option.eq_none_iff_forall_ne_some]
      intro value hvalue
      have hword := hasWord_of_assigned hvalue
      rw [htexts text (List.mem_singleton_self _)] at hword
      cases hword
    simp only [step, hnone]
  | call callee args note =>
    cases callee with
    | emitted _ => rfl
    | provided name =>
      have hconfig : args ≠ ["&gpio_out"] := by
        rintro rfl
        have hword := htexts "&gpio_out" (by simp [Operation.texts])
        revert hword
        decide +kernel
      have hdriver : args ≠ ["gpio_out.port", "gpio_out.mask"] := by
        rintro rfl
        have hword := htexts "gpio_out.port" (by simp [Operation.texts])
        revert hword
        decide +kernel
      simp [step, driven?, hconfig, hdriver]
  | _ => rfl

theorem run_of_unmentioned {ops : List Operation} (h : ∀ op ∈ ops, op.mentions pinVariable = false) (st : PinState) :
    st.run ops = (st, ops.map .plain) := by
  induction ops with
  | nil => rfl
  | cons op ops ih =>
    simp [run, step_of_unmentioned (h op (by simp)), ih fun op hop => h op (by simp [hop])]

end PinState

end AccelFirmware
