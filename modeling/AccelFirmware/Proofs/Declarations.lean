import AccelFirmware.Proofs.Obligations
import Mathlib.Data.List.Nodup

/-!
# Declarations and scopes

Which variables an operation declares and which it uses, and sources in which every use comes behind the one declaration of the
variable, at file scope or in the function around it.
-/

namespace AccelFirmware

open Operation

/-! ## Declared names -/

/-- Where a declaration is being read: at the name of a declarator, which is the last word of it so far, or behind the name, in
the dimensions or the initializer. -/
inductive DeclaratorPart where
  | name (last : Option (List Char))
  | value (depth : Nat)

namespace DeclaratorPart

/-- The names that a declaration has from some point on. -/
def names : DeclaratorPart → List Token → List (List Char)
  | _, [] => []
  | .name _, .word w :: ts => names (.name (some w)) ts
  | .name last, .mark c :: ts =>
      if c = ';' then last.toList
      else if c = ',' then last.toList ++ names (.name none) ts
      else if c = '=' then last.toList ++ names (.value 0) ts
      else if c = '[' then last.toList ++ names (.value 1) ts
      else names (.name last) ts
  | .value depth, .word _ :: ts => names (.value depth) ts
  | .value depth, .mark c :: ts =>
      if c = '[' ∨ c = '(' ∨ c = '\x7b' then names (.value (depth + 1)) ts
      else if c = ']' ∨ c = ')' ∨ c = '\x7d' then names (.value (depth - 1)) ts
      else if depth = 0 ∧ c = ';' then []
      else if depth = 0 ∧ c = ',' then names (.name none) ts
      else names (.value depth) ts

/-- Names are words of the declaration. -/
theorem mem_names {part : DeclaratorPart} {ts : List Token} {w : List Char} (h : w ∈ part.names ts) :
    part = .name (some w) ∨ .word w ∈ ts := by
  induction ts generalizing part with
  | nil => cases part <;> cases h
  | cons t ts ih =>
    have hfrom {part' : DeclaratorPart} (hne : part' ≠ .name (some w)) (h : w ∈ part'.names ts) : .word w ∈ t :: ts :=
      List.mem_cons_of_mem _ ((ih h).resolve_left hne)
    cases part with
    | value depth =>
      refine Or.inr ?_
      cases t with
      | word v => exact hfrom (by simp) h
      | mark c =>
        simp only [names] at h
        (repeat' split at h)
        · exact hfrom (by simp) h
        · exact hfrom (by simp) h
        · cases h
        · exact hfrom (by simp) h
        · exact hfrom (by simp) h
    | name last =>
      cases t with
      | word v =>
        rcases ih h with hv | hm
        · cases hv
          exact Or.inr List.mem_cons_self
        · exact Or.inr (List.mem_cons_of_mem _ hm)
      | mark c =>
        have hlast {more : List (List Char)} (h : w ∈ last.toList ++ more) (hmore : w ∈ more → .word w ∈ Token.mark c :: ts) :
            DeclaratorPart.name last = .name (some w) ∨ .word w ∈ Token.mark c :: ts := by
          rcases List.mem_append.1 h with hw | hm
          · exact Or.inl (by rw [Option.mem_toList.1 hw])
          · exact Or.inr (hmore hm)
        simp only [names] at h
        (repeat' split at h)
        · exact Or.inl (by rw [Option.mem_toList.1 h])
        · exact hlast h (hfrom (by simp))
        · exact hlast h (hfrom (by simp))
        · exact hlast h (hfrom (by simp))
        · rcases ih h with hn | hm
          · exact Or.inl hn
          · exact Or.inr (List.mem_cons_of_mem _ hm)

end DeclaratorPart

/-- The names that are declared by a text. -/
def declaredIn (letters : List Char) : List (List Char) := DeclaratorPart.names (.name none) (tokens letters)

/-! ## Variables -/

namespace Reserved

/-- The variables of a program that some phase declares and others use. -/
def variableWords : List Reserved :=
  [.counter, .trim, .digits, .tens, .data, .packedData, .softmax, .weights, .bias, .buffer, .output, .expected, .time]

def ofLetters? (name : List Char) : Option Reserved := variableWords.find? fun r => r.letters = name

theorem letters_injective {r r' : Reserved} (h : r.letters = r'.letters) : r = r' :=
  List.inj_on_of_nodup_map (by decide : (all.map letters).Nodup) r.mem_all r'.mem_all h

theorem text_injective {r r' : Reserved} (h : r.text = r'.text) : r = r' :=
  letters_injective (String.ofList_injective h)

theorem ofLetters?_eq_some {name : List Char} {r : Reserved} :
    ofLetters? name = some r ↔ r ∈ variableWords ∧ r.letters = name := by
  constructor
  · intro h
    exact ⟨List.mem_of_find?_eq_some h, by simpa using List.find?_some h⟩
  · rintro ⟨hr, rfl⟩
    cases hf : ofLetters? r.letters with
    | none => simpa using List.find?_eq_none.1 hf r hr
    | some r' =>
      have hletters : r'.letters = r.letters := by simpa using List.find?_some hf
      rw [letters_injective hletters]

end Reserved

open Reserved

def variableNames : List String :=
  ["i", "trim", "digs", "tens", "ml_data", "ml_data32", "ml_softmax", "fc_weights", "fc_bias", "fc_buffer", "fc_output",
   "fc_expected", "cnn_time"]

theorem variableNames_eq : variableNames = variableWords.map Reserved.text := rfl

/-- The variable that an obligation is about. -/
def Obligation.word? : Obligation → Option Reserved
  | .counter => some .counter
  | .stamp => some .time
  | .check => none

def Obligation.name? (o : Obligation) : Option String := o.word?.map Reserved.text

namespace Operation

/-- The names that an operation declares. -/
def declared : Operation → List String
  | .declare text => (declaredIn text.toList).map String.ofList
  | _ => []

/-- Whether an operation uses a variable: its code mentions the variable other than to declare it, or it is a loop or a wait that
relies on the variable. -/
def uses (name : String) (op : Operation) : Bool :=
  (op.mentions name && !op.declared.contains name) || op.obligations.any fun o => o.name? == some name

/-- The variables that an operation declares. -/
def declaredWords (op : Operation) : List Reserved := op.declared.filterMap fun name => ofLetters? name.toList

theorem declaredWords_declare (text : String) :
    (Operation.declare text).declaredWords = (declaredIn text.toList).filterMap ofLetters? := by
  simp [declaredWords, declared, List.filterMap_map]

@[simp] theorem declaredWords_callProvided (name : String) (args : List String) (note : Option String) :
    (callProvided name args note).declaredWords = [] := rfl

@[simp] theorem declaredWords_callEmitted (name : String) (args : List String) (note : Option String) :
    (callEmitted name args note).declaredWords = [] := rfl

@[simp] theorem declaredWords_check (callee : Callee) (policy : FailPolicy) :
    (Operation.check callee policy).declaredWords = [] := rfl

@[simp] theorem declaredWords_blank : Operation.blank.declaredWords = [] := rfl

theorem mem_declaredWords {op : Operation} {r : Reserved} :
    r ∈ op.declaredWords ↔ r ∈ variableWords ∧ r.text ∈ op.declared := by
  simp only [declaredWords, List.mem_filterMap, ofLetters?_eq_some]
  constructor
  · rintro ⟨name, hname, hr, hletters⟩
    rw [text, hletters, String.ofList_toList]
    exact ⟨hr, hname⟩
  · rintro ⟨hr, hname⟩
    exact ⟨r.text, hname, hr, by rw [text, String.toList_ofList]⟩

/-- Variables are declared as often as their names are. -/
theorem count_declaredWords (ops : List Operation) {r : Reserved} (hr : r ∈ variableWords) :
    (ops.flatMap declaredWords).count r = (ops.flatMap declared).count r.text := by
  have hname (name : String) : ofLetters? name.toList = some r ↔ name = r.text := by
    rw [ofLetters?_eq_some]
    constructor
    · rintro ⟨-, hletters⟩
      rw [text, hletters, String.ofList_toList]
    · rintro rfl
      exact ⟨hr, by rw [text, String.toList_ofList]⟩
  have hnames (names : List String) : (names.filterMap fun name => ofLetters? name.toList).count r = names.count r.text := by
    induction names with
    | nil => rfl
    | cons name names ih =>
      rw [List.filterMap_cons, List.count_cons, ← ih]
      by_cases heq : name = r.text
      · rw [(hname name).2 heq]
        simp [heq]
      · have hne : ofLetters? name.toList ≠ some r := fun h => heq ((hname name).1 h)
        cases hr' : ofLetters? name.toList with
        | none => simp [heq]
        | some r' =>
          have hne' : r' ≠ r := fun h => hne (h ▸ hr')
          simp [heq, hne']
  induction ops with
  | nil => rfl
  | cons op ops ih =>
    rw [List.flatMap_cons, List.flatMap_cons, List.count_append, List.count_append, ih, declaredWords, hnames]

/-- What is declared is mentioned. -/
theorem mentions_of_declared {op : Operation} {name : String} (h : name ∈ op.declared) : op.mentions name = true := by
  cases op with
  | declare text =>
    obtain ⟨letters, hletters, rfl⟩ := List.mem_map.1 h
    have hword := (DeclaratorPart.mem_names hletters).resolve_left (by simp)
    simpa [mentions, texts, hasWord] using hword
  | _ => cases h

end Operation

/-! ## Code in scope -/

/-- Operations that use no variable but those in scope, and the variables that they declare. -/
inductive InScope : List Reserved → List Operation → List Reserved → Prop
  | nil {scope : List Reserved} : InScope scope [] []
  | cons {scope more : List Reserved} {op : Operation} {ops : List Operation}
      (hu : ∀ r ∈ variableWords, op.uses r.text = true → r ∈ scope) (rest : InScope (scope ++ op.declaredWords) ops more) :
      InScope scope (op :: ops) (op.declaredWords ++ more)

namespace InScope

variable {scope new more : List Reserved} {as bs ops : List Operation}

theorem declares (h : InScope scope ops new) : ops.flatMap declaredWords = new := by
  induction h with
  | nil => rfl
  | cons _ _ ih => rw [List.flatMap_cons, ih]

theorem append (ha : InScope scope as new) (hb : InScope (scope ++ new) bs more) : InScope scope (as ++ bs) (new ++ more) := by
  induction ha with
  | nil => simpa using hb
  | cons hu _ ih =>
    rw [List.cons_append, List.append_assoc]
    exact .cons hu (ih (by simpa using hb))

/-- Where nothing is declared, the scope stays as it is. -/
theorem plain_append (ha : InScope scope as []) (hb : InScope scope bs new) : InScope scope (as ++ bs) new :=
  ha.append (by simpa using hb)

theorem append_plain (ha : InScope scope as new) (hb : InScope (scope ++ new) bs []) : InScope scope (as ++ bs) new := by
  simpa using ha.append hb

theorem in_scope (h : InScope scope ops new) {earlier later : List Operation} {op : Operation}
    (hops : ops = earlier ++ op :: later) {r : Reserved} (hr : r ∈ variableWords) (hu : op.uses r.text = true) :
    r ∈ scope ++ earlier.flatMap declaredWords := by
  induction h generalizing earlier with
  | nil => simp at hops
  | cons huses _ ih =>
    cases earlier with
    | nil =>
      obtain ⟨rfl, -⟩ := List.cons.inj hops
      simpa using huses r hr hu
    | cons first earlier =>
      obtain ⟨rfl, hrest⟩ := List.cons.inj hops
      simpa using ih hrest

/-- Where nothing in scope has the name of another, a use comes behind one declaration. -/
theorem count_declared (h : InScope scope ops new) (hn : (scope ++ new).Nodup) {earlier later : List Operation} {op : Operation}
    (hops : ops = earlier ++ op :: later) {r : Reserved} (hr : r ∈ variableWords) (hu : op.uses r.text = true) :
    (scope ++ earlier.flatMap declaredWords).count r = 1 := by
  have hprefix : (scope ++ earlier.flatMap declaredWords).Sublist (scope ++ new) := by
    rw [← h.declares, hops, List.flatMap_append]
    exact (List.sublist_append_left _ _).append_left scope
  exact List.count_eq_one_of_mem (hn.sublist hprefix) (h.in_scope hops hr hu)

/-- Operations that declare no variable, by the words that they mention and what else they rely on. -/
theorem of_mentions {allowed : List Reserved} (h : MentionsOnly allowed ops) (hd : ops.flatMap declaredWords = [])
    (hs : ∀ r ∈ variableWords, r ∈ allowed → r ∈ scope) (ho : ∀ o ∈ obligationsOfAll ops, ∀ r, o.word? = some r → r ∈ scope) :
    InScope scope ops [] := by
  induction ops with
  | nil => exact .nil
  | cons op ops ih =>
    obtain ⟨hop, hops⟩ := mentionsOnly_cons.1 h
    rw [List.flatMap_cons, List.append_eq_nil_iff] at hd
    rw [obligationsOfAll, List.forall_mem_append] at ho
    have hrest := ih hops hd.2 ho.2
    have huses : ∀ r ∈ variableWords, op.uses r.text = true → r ∈ scope := by
      intro r hr hu
      rw [uses, Bool.or_eq_true, Bool.and_eq_true, List.any_eq_true] at hu
      rcases hu with ⟨hmentions, -⟩ | ⟨o, hm, hname⟩
      · refine hs r hr ?_
        by_contra hnot
        rw [hop.not_mentions hnot (by simp)] at hmentions
        cases hmentions
      · obtain ⟨r', hword, htext⟩ : ∃ r', o.word? = some r' ∧ r'.text = r.text := by
          simpa [Obligation.name?] using hname
        exact ho.1 o hm r (text_injective htext ▸ hword)
    have hcons := cons huses (by rw [hd.1, List.append_nil]; exact hrest)
    rwa [hd.1] at hcons

/-- Operations without any of the variables declare none. -/
theorem of_foreign {allowed : List Reserved} (h : MentionsOnly allowed ops) (ha : variableWords.all (!allowed.contains ·) = true)
    (ho : ∀ o ∈ obligationsOfAll ops, ∀ r, o.word? = some r → r ∈ scope) : InScope scope ops [] := by
  have hnot : ∀ r ∈ variableWords, r ∉ allowed := by simpa using ha
  refine of_mentions h ?_ (fun r hr hm => absurd hm (hnot r hr)) ho
  rw [List.flatMap_eq_nil_iff]
  intro op hop
  refine List.eq_nil_iff_forall_not_mem.2 fun r hm => ?_
  obtain ⟨hr, hdeclared⟩ := mem_declaredWords.1 hm
  have hmentions := mentions_of_declared hdeclared
  rw [h.not_mentions (hnot r hr) hop] at hmentions
  cases hmentions

theorem blank : InScope scope [.blank] [] :=
  of_foreign (mentionsOnly_blank : MentionsOnly [] _) rfl (by simp [obligationsOfAll, obligations])

end InScope

/-- The variables that a declaration uses. -/
def usedIn (letters : List Char) : List Reserved :=
  variableWords.filter fun r => (tokens letters).contains (.word r.letters) && !(declaredIn letters).contains r.letters

theorem uses_declare {text : String} {r : Reserved} (hr : r ∈ variableWords) (h : (Operation.declare text).uses r.text = true) :
    r ∈ usedIn text.toList := by
  have hletters : r.text.toList = r.letters := by rw [Reserved.text, String.toList_ofList]
  have hparts : (Operation.declare text).mentions r.text = true ∧ r.text ∉ (Operation.declare text).declared := by
    simpa [uses, obligations] using h
  refine List.mem_filter.2 ⟨hr, ?_⟩
  have hword : (tokens text.toList).contains (.word r.letters) = true := by
    simpa [mentions, texts, hasWord, hletters] using hparts.1
  have hnew : r.letters ∉ declaredIn text.toList := fun hm => hparts.2 (List.mem_map_of_mem hm)
  simpa [hnew] using hword

/-- A declaration as it is written. -/
theorem InScope.declare {scope : List Reserved} {text : String} {cs : List Char} {new used : List Reserved} (hw : Written text cs)
    (hd : (declaredIn cs).filterMap ofLetters? = new) (hu : usedIn cs = used) (hs : used ⊆ scope) :
    InScope scope [.declare text] new := by
  have hdeclared : (Operation.declare text).declaredWords = new := by rw [declaredWords_declare, hw.toList_eq, hd]
  have huses : ∀ r ∈ variableWords, (Operation.declare text).uses r.text = true → r ∈ scope := fun r hr h =>
    hs (hu ▸ hw.toList_eq ▸ uses_declare hr h)
  have hcons := InScope.cons huses .nil
  rwa [hdeclared, List.append_nil] at hcons

/-- The declaration of a variable that uses no other, ahead of more. -/
theorem InScope.declare_cons {scope more : List Reserved} {text : String} {cs : List Char} {r : Reserved} {ops : List Operation}
    (hw : Written text cs) (hd : (declaredIn cs).filterMap ofLetters? = [r]) (hu : usedIn cs = [])
    (rest : InScope (scope ++ [r]) ops more) : InScope scope (.declare text :: ops) (r :: more) :=
  (InScope.declare hw hd hu (List.nil_subset _)).append rest

/-! ## Sources -/

/-- The code of a fragment; text that is taken as it is is code as it is. -/
def Fragment.contents : Fragment → List Operation
  | .code ops => ops
  | .raw text => [.verbatim text]

/-- The end of a function with a result. -/
def returned : Option String → List Operation
  | none => []
  | some value => [.statement ("return " ++ value ++ ";")]

namespace Piece

/-- The code of a piece, with the result of a function. -/
def contents : Piece → List Operation
  | .loose fragment => fragment.contents
  | .function _ body result => body.flatMap Fragment.contents ++ returned result

/-- What a piece brings to file scope. -/
def fileScope : Piece → List Operation
  | .loose fragment => fragment.contents
  | .function _ _ _ => []

end Piece

/-- Wherever a variable is used in a source, there is one declaration of it ahead of its use, in the function around it or at file
scope. -/
def DeclaresBeforeUse (pieces : List Piece) : Prop :=
  ∀ (before : List Piece) piece after, pieces = before ++ piece :: after →
    ∀ (earlier : List Operation) op later, piece.contents = earlier ++ op :: later →
      ∀ name ∈ variableNames, op.uses name = true →
        ((before.flatMap Piece.fileScope ++ earlier).flatMap declared).count name = 1

/-- Pieces that use no variable but those in scope, and the variables that they bring to file scope. A function may have variables
of its own, apart from those in scope. -/
inductive Scoped : List Reserved → List Piece → List Reserved → Prop
  | nil {scope : List Reserved} : Scoped scope [] []
  | loose {scope new more : List Reserved} {fragment : Fragment} {pieces : List Piece} (h : InScope scope fragment.contents new)
      (rest : Scoped (scope ++ new) pieces more) : Scoped scope (.loose fragment :: pieces) (new ++ more)
  | function {scope own new : List Reserved} {signature : Signature} {body : List Fragment} {result : Option String}
      {pieces : List Piece} (h : InScope scope (body.flatMap Fragment.contents ++ returned result) own)
      (hown : own.Nodup) (hnew : own.Disjoint scope) (rest : Scoped scope pieces new) :
      Scoped scope (.function signature body result :: pieces) new

namespace Scoped

variable {scope new more : List Reserved} {ps qs pieces : List Piece}

theorem append (hp : Scoped scope ps new) (hq : Scoped (scope ++ new) qs more) : Scoped scope (ps ++ qs) (new ++ more) := by
  induction hp with
  | nil => simpa using hq
  | loose h _ ih =>
    rw [List.cons_append, List.append_assoc]
    exact .loose h (ih (by simpa using hq))
  | function h hown hnew _ ih => exact .function h hown hnew (ih hq)

theorem plain_append (hp : Scoped scope ps []) (hq : Scoped scope qs new) : Scoped scope (ps ++ qs) new :=
  hp.append (by simpa using hq)

theorem append_plain (hp : Scoped scope ps new) (hq : Scoped (scope ++ new) qs []) : Scoped scope (ps ++ qs) new := by
  simpa using hp.append hq

theorem of_code {ops : List Operation} (h : InScope scope ops new) : Scoped scope [.loose (.code ops)] new := by
  have hloose := loose (show InScope scope (Fragment.code ops).contents new from h) .nil
  simpa using hloose

/-- A function without variables of its own. -/
theorem of_function {body : List Operation} {signature : Signature} {result : Option String}
    (h : InScope scope (body ++ returned result) []) : Scoped scope [.function signature [.code body] result] [] :=
  have hbody : InScope scope ([Fragment.code body].flatMap Fragment.contents ++ returned result) [] := by
    simpa [Fragment.contents] using h
  function hbody List.nodup_nil (List.disjoint_nil_left _) .nil

theorem of_procedure {body : List Operation} {signature : Signature} (h : InScope scope body []) :
    Scoped scope [.function signature [.code body] none] [] :=
  of_function (by simpa [returned] using h)

theorem count_declared (h : Scoped scope pieces new) (hn : (scope ++ new).Nodup) {before after : List Piece} {piece : Piece}
    (hpieces : pieces = before ++ piece :: after) {earlier later : List Operation} {op : Operation}
    (hcontents : piece.contents = earlier ++ op :: later) {r : Reserved} (hr : r ∈ variableWords) (hu : op.uses r.text = true) :
    (scope ++ (before.flatMap Piece.fileScope ++ earlier).flatMap declaredWords).count r = 1 := by
  induction h generalizing before with
  | nil => simp at hpieces
  | @loose scope new more fragment rest hcode _ ih =>
    cases before with
    | nil =>
      obtain ⟨rfl, -⟩ := List.cons.inj hpieces
      have hscope : (scope ++ new).Nodup := hn.sublist ((List.sublist_append_left _ _).append_left scope)
      simpa using hcode.count_declared hscope hcontents hr hu
    | cons first before =>
      obtain ⟨rfl, hrest⟩ := List.cons.inj hpieces
      have hcount := ih (by simpa using hn) hrest
      rw [← hcode.declares] at hcount
      simpa [Piece.fileScope] using hcount
  | @function scope own new signature body result rest hcode hown hnew _ ih =>
    cases before with
    | nil =>
      obtain ⟨rfl, -⟩ := List.cons.inj hpieces
      have hscope : (scope ++ own).Nodup :=
        List.nodup_append'.2 ⟨hn.sublist (List.sublist_append_left _ _), hown, fun _ hs ho => hnew ho hs⟩
      simpa using hcode.count_declared hscope hcontents hr hu
    | cons first before =>
      obtain ⟨rfl, hrest⟩ := List.cons.inj hpieces
      simpa [Piece.fileScope] using ih hn hrest

/-- A source whose pieces are in scope, with one declaration of every variable at file scope. -/
theorem declaresBeforeUse (h : Scoped [] pieces new) (hn : new.Nodup) : DeclaresBeforeUse pieces := by
  intro before piece after hpieces earlier op later hcontents name hname hu
  rw [variableNames_eq] at hname
  obtain ⟨r, hr, rfl⟩ := List.mem_map.1 hname
  rw [← count_declaredWords _ hr]
  simpa using h.count_declared (by simpa using hn) hpieces hcontents hr hu

end Scoped

end AccelFirmware
