import AccelFirmware.Proofs.Words

/-!
# Phrases

Pieces of text that stand where the program means them and nowhere else: the brackets of blocks, the stamp of the handler and the
instructions that wait for an interrupt. They are looked for in all that is written, comments among it.
-/

namespace AccelFirmware

open AccelFirmware.Action EmitStep

/-! ## Occurrences -/

/-- Whether some letters stand side by side in a text. -/
def occurs (letters : List Char) : List Char → Bool
  | [] => letters.isEmpty
  | c :: cs => letters.isPrefixOf (c :: cs) || occurs letters cs

theorem occurs_iff {letters cs : List Char} : occurs letters cs = true ↔ letters <:+: cs := by
  induction cs with
  | nil => simp [occurs]
  | cons c cs ih => rw [occurs, Bool.or_eq_true, List.isPrefixOf_iff_prefix, ih, List.infix_cons_iff]

/-- A numeral in front of a shape is a zero, which is part of a zero that begins the shape. -/
def zeroed : List Char → List Char
  | '0' :: rest => '0' :: rest
  | rest => '0' :: rest

theorem shape_cons (c : Char) (cs : List Char) :
    shape (c :: cs) = if isNumeralChar c then zeroed (shape cs) else c :: shape cs := rfl

/-- Outside of numerals, shapes are put together like texts. -/
theorem shape_append {c : Char} (hc : isNumeralChar c = false) (as bs : List Char) :
    shape (as ++ c :: bs) = shape as ++ c :: shape bs := by
  have hne : c ≠ '0' := by
    rintro rfl
    cases hc
  have hzeroed (ds : List Char) : zeroed (ds ++ c :: shape bs) = zeroed ds ++ c :: shape bs := by
    cases ds with
    | nil => simp [zeroed, hne]
    | cons d ds =>
      by_cases hd : d = '0'
      · subst hd
        rfl
      · simp [zeroed, hd]
  induction as with
  | nil => simp [shape_cons, hc, shape]
  | cons a as ih =>
    rw [List.cons_append, shape_cons, shape_cons, ih]
    split
    · exact hzeroed _
    · rfl

/-- What stands side by side, with no numeral at either end, does so in shapes. -/
theorem shape_isInfix {first last : Char} (middle : List Char) {cs : List Char} (hf : isNumeralChar first = false)
    (hl : isNumeralChar last = false) (h : first :: middle ++ [last] <:+: cs) :
    shape (first :: middle ++ [last]) <:+: shape cs := by
  obtain ⟨before, after, rfl⟩ := h
  have hend : shape (middle ++ [last]) = shape middle ++ [last] := shape_append hl middle []
  have hrest : shape (middle ++ last :: after) = shape middle ++ last :: shape after := shape_append hl middle after
  have hwhole : before ++ (first :: middle ++ [last]) ++ after = before ++ first :: (middle ++ last :: after) := by simp
  rw [hwhole, shape_append hf, hrest, List.cons_append, shape_cons, hf, hend]
  exact ⟨shape before, shape after, by simp⟩

/-! ## Phrases -/

inductive Phrase where
  | opening
  | closing
  | stamp
  | armSleep
  | riscVSleep
  deriving DecidableEq

namespace Phrase

def all : List Phrase := [.opening, .closing, .stamp, .armSleep, .riscVSleep]

theorem mem_all (ph : Phrase) : ph ∈ all := by
  cases ph <;> decide

/-- All phrases but the brackets. -/
def words : List Phrase := [.stamp, .armSleep, .riscVSleep]

/-- Letters that stand wherever the phrase does, and begin and end with none of a numeral. -/
def letters : Phrase → List Char
  | .opening => ['\x7b']
  | .closing => ['\x7d']
  | .stamp => ['n', 'n', '_', 't', 'i', 'm']
  | .armSleep => ['W', 'F', 'I']
  | .riscVSleep => ['w', 'f', 'i']

theorem letters_shape {ph : Phrase} {cs : List Char} (h : ph.letters <:+: cs) : shape ph.letters <:+: shape cs := by
  cases ph with
  | opening | closing =>
    obtain ⟨before, after, rfl⟩ := h
    rw [letters, List.append_assoc, List.singleton_append, shape_append rfl]
    exact ⟨shape before, shape after, by simp; rfl⟩
  | stamp => exact shape_isInfix ['n', '_', 't', 'i'] rfl rfl h
  | armSleep => exact shape_isInfix ['F'] rfl rfl h
  | riscVSleep => exact shape_isInfix ['f'] rfl rfl h

end Phrase

/-- None of the phrases is in a text, apart from some that are allowed. -/
def Omits (allowed : List Phrase) (text : String) : Prop := ∀ ph ∉ allowed, ¬ ph.letters <:+: text.toList

/-- Whether none of the phrases is among some letters. -/
def omits (allowed : List Phrase) (cs : List Char) : Bool :=
  Phrase.all.all fun ph => allowed.contains ph || !occurs ph.letters cs

def omitsShapes (allowed : List Phrase) (cs : List Char) : Bool :=
  Phrase.all.all fun ph => allowed.contains ph || !occurs (shape ph.letters) (shape cs)

theorem omits_of_written {allowed : List Phrase} {text : String} {cs : List Char} (hw : Written text cs)
    (h : omits allowed cs = true) : Omits allowed text := by
  intro ph hph hin
  rw [hw.toList_eq] at hin
  have hnone := List.all_eq_true.1 h ph ph.mem_all
  simp [hph, occurs_iff.2 hin] at hnone

/-- Numerals are no part of a phrase that is not there without them. -/
theorem omits_of_blurred {allowed : List Phrase} {text : String} {cs : List Char} (hb : Blurred text cs)
    (h : omitsShapes allowed cs = true) : Omits allowed text := by
  intro ph hph hin
  have hshape := Phrase.letters_shape hin
  rw [hb.blurs.shape_eq] at hshape
  have hnone := List.all_eq_true.1 h ph ph.mem_all
  simp [hph, occurs_iff.2 hshape] at hnone

theorem Omits.mono {allowed more : List Phrase} {text : String} (h : Omits allowed text) (hsub : allowed ⊆ more) :
    Omits more text :=
  fun ph hph => h ph fun hm => hph (hsub hm)

/-- Where no phrase is, any may be allowed. -/
theorem Omits.anywhere {allowed : List Phrase} {text : String} (h : Omits [] text) : Omits allowed text :=
  h.mono (List.nil_subset _)

/-- Literals without phrases. -/
inductive Phrased (allowed : List Phrase) : List String → Prop
  | nil : Phrased allowed []
  | cons {cs : List Char} {texts : List String} (h : omits allowed cs = true) (rest : Phrased allowed texts) :
      Phrased allowed (String.ofList cs :: texts)

theorem Phrased.omits {allowed : List Phrase} {texts : List String} (h : Phrased allowed texts) :
    ∀ text ∈ texts, Omits allowed text := by
  induction h with
  | nil => simp
  | @cons cs texts h _ ih => exact List.forall_mem_cons.2 ⟨omits_of_written .literal h, ih⟩

/-! ## Wording -/

namespace Operation

mutual

/-- All texts of an operation, with its comments and the names in it. A wait is written in one way only. -/
def wording : Operation → List String
  | .header name _ note => name :: note.toList
  | .define name value => [name, value]
  | .declare text | .comment text | .verbatim text => [text]
  | .statement text note => text :: note.toList
  | .write register _ value note => register.texts ++ value :: note.toList
  | .call callee args note => callee.name :: args ++ note.toList
  | .installVector irq handler note => irq :: handler :: note.toList
  | .waitUntil condition note => condition :: note.toList
  | .await wait => (wait.lines 0).map Line.text
  | .guarded condition body => condition :: body.wording
  | .counted _ body | .forever body => wordingOfAll body
  | .check callee _ => [callee.name]
  | .blank => []

def wordingOfAll : List Operation → List String
  | [] => []
  | op :: ops => op.wording ++ wordingOfAll ops

end

theorem collects_wording : Collects wording wordingOfAll :=
  ⟨fun _ _ => List.subset_cons_self _ _, fun _ _ => List.Subset.refl _, fun _ => List.Subset.refl _, fun _ _ => rfl⟩

@[simp] theorem wordingOfAll_append (as bs : List Operation) :
    wordingOfAll (as ++ bs) = wordingOfAll as ++ wordingOfAll bs :=
  collects_wording.append rfl as bs

/-- Operations without phrases, apart from some that are allowed. -/
def SaysOnly (allowed : List Phrase) (ops : List Operation) : Prop := ∀ text ∈ wordingOfAll ops, Omits allowed text

section

variable {allowed more : List Phrase} {as bs ops : List Operation}

@[simp] theorem saysOnly_nil : SaysOnly allowed [] := by
  simp [SaysOnly, wordingOfAll]

@[simp] theorem saysOnly_append : SaysOnly allowed (as ++ bs) ↔ SaysOnly allowed as ∧ SaysOnly allowed bs := by
  simp [SaysOnly, or_imp, forall_and]

@[simp] theorem saysOnly_blank : SaysOnly allowed [.blank] := by
  simp [SaysOnly, wordingOfAll, wording]

theorem saysOnly_cons {op : Operation} : SaysOnly allowed (op :: ops) ↔ SaysOnly allowed [op] ∧ SaysOnly allowed ops :=
  show SaysOnly allowed ([op] ++ ops) ↔ _ from saysOnly_append

theorem saysOnly_of_phrased (h : Phrased allowed (wordingOfAll ops)) : SaysOnly allowed ops := h.omits

theorem saysOnly_of_wording (h : ∀ text ∈ wordingOfAll ops, Omits allowed text) : SaysOnly allowed ops := h

theorem saysOnly_of_forall (h : ∀ op ∈ ops, SaysOnly allowed [op]) : SaysOnly allowed ops := by
  induction ops with
  | nil => exact saysOnly_nil
  | cons op ops ih => exact saysOnly_cons.2 ⟨h op (by simp), ih fun op hop => h op (by simp [hop])⟩

theorem SaysOnly.of_mem (h : SaysOnly allowed ops) {op : Operation} (hop : op ∈ ops) : SaysOnly allowed [op] := by
  intro text ht
  exact h text (collects_wording.subset hop (by simpa [wordingOfAll] using ht))

theorem SaysOnly.mono (h : SaysOnly allowed ops) (hsub : allowed ⊆ more) : SaysOnly more ops :=
  fun text ht => (h text ht).mono hsub

/-- Without any phrase, operations may stand wherever some are allowed. -/
theorem SaysOnly.anywhere (h : SaysOnly [] ops) : SaysOnly allowed ops := h.mono (List.nil_subset _)

end

end Operation

/-- The phrases in the way a program waits. -/
def CompletionWait.phrases : CompletionWait → List Phrase
  | .sleep .arm => [.stamp, .armSleep]
  | .sleep .riscV => [.stamp, .riscVSleep]
  | .spin => [.stamp]
  | .poll => []

theorem Operation.says_await (wait : CompletionWait) : SaysOnly wait.phrases [.await wait] := by
  have hstamp : Omits [.stamp] "while (cnn_time == 0)" := omits_of_written .literal rfl
  have hloop {more : List Phrase} : Omits (.stamp :: more) "while (cnn_time == 0)" := hstamp.mono (by simp)
  cases wait with
  | sleep instruction =>
    cases instruction with
    | arm =>
      have hsleep : Omits (CompletionWait.sleep .arm).phrases (annotate "__WFI();" (some "Wait for CNN")) :=
        omits_of_written (.append (.append .literal .literal) .literal) rfl
      simpa [SaysOnly, wordingOfAll, wording, CompletionWait.lines] using ⟨hloop, hsleep⟩
    | riscV =>
      have hsleep : Omits (CompletionWait.sleep .riscV).phrases (annotate "asm volatile(\"wfi\");" (some "Wait for CNN")) :=
        omits_of_written (.append (.append .literal .literal) .literal) rfl
      simpa [SaysOnly, wordingOfAll, wording, CompletionWait.lines] using ⟨hloop, hsleep⟩
  | spin =>
    have hspin : Omits CompletionWait.spin.phrases (annotate "while (cnn_time == 0);" (some "Spin wait")) :=
      omits_of_written (.append (.append .literal .literal) .literal) rfl
    simpa [SaysOnly, wordingOfAll, wording, CompletionWait.lines] using hspin
  | poll =>
    have hcall : Omits CompletionWait.poll.phrases "cnn_wait();" := omits_of_written .literal rfl
    simpa [SaysOnly, wordingOfAll, wording, CompletionWait.lines] using hcall

end AccelFirmware
