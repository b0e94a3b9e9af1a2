import AccelFirmware.Proofs.Phrases

/-!
# The wording of lines

From what an operation says to the lines that it becomes. Around its texts an operation is written with marks and blanks, and no
phrase reaches across one of them.
-/

namespace AccelFirmware

/-! ## Seams -/

theorem not_infix_join {letters as bs : List Char} {c : Char} (hc : c ∉ letters) (ha : ¬ letters <:+: as)
    (hb : ¬ letters <:+: bs) : ¬ letters <:+: as ++ c :: bs := by
  rintro ⟨before, after, h⟩
  rcases List.append_eq_append_iff.1 h with ⟨more, hmore, -⟩ | ⟨more, hmore, hrest⟩
  · exact ha ⟨before, more, hmore.symm⟩
  · -- The letters reach beyond `as`, so they have the character in them or begin behind it.
    rcases List.append_eq_append_iff.1 hmore with ⟨front, hbefore, hletters⟩ | ⟨front, -, hletters⟩
    · cases more with
      | nil => exact ha ⟨before, [], by rw [hbefore, hletters]; simp⟩
      | cons d more =>
        obtain ⟨rfl, -⟩ := List.cons.inj hrest
        exact hc (by simp [hletters])
    · rw [hletters] at hrest
      cases front with
      | nil =>
        cases letters with
        | nil => exact hb List.nil_infix
        | cons d letters =>
          obtain ⟨rfl, -⟩ := List.cons.inj hrest
          exact hc List.mem_cons_self
      | cons d front =>
        obtain ⟨-, hbs⟩ := List.cons.inj hrest
        exact hb ⟨front, after, hbs.symm⟩

namespace Phrase

/-- Whether a character is part of no phrase. -/
def isSeam (c : Char) : Bool := all.all fun ph => !ph.letters.contains c

theorem notMem_of_isSeam {c : Char} (h : isSeam c = true) (ph : Phrase) : c ∉ ph.letters := by
  simpa using List.all_eq_true.1 h ph ph.mem_all

theorem letters_ne_nil (ph : Phrase) : ph.letters ≠ [] := by
  cases ph <;> exact List.cons_ne_nil _ _

end Phrase

/-- Text without phrases that the next text does not run into. -/
structure Sealed (allowed : List Phrase) (text : String) : Prop where
  omits : Omits allowed text
  last : ∀ c, text.toList.getLast? = some c → Phrase.isSeam c = true

section

variable {allowed : List Phrase} {a b : String}

theorem Sealed.append (ha : Sealed allowed a) (hb : Omits allowed b) : Omits allowed (a ++ b) := by
  intro ph hph
  have hpa := ha.omits ph hph
  rw [String.toList_append]
  rcases List.eq_nil_or_concat a.toList with hnil | ⟨front, c, hfront⟩
  · rw [hnil]
    exact hb ph hph
  · have hc : Phrase.isSeam c = true := ha.last c (by simp [hfront])
    rw [hfront, List.concat_eq_append] at hpa ⊢
    rw [List.append_assoc]
    refine not_infix_join (Phrase.notMem_of_isSeam hc ph) (fun hin => hpa ?_) (hb ph hph)
    exact hin.trans (List.prefix_append _ _).isInfix

/-- Text in front of a mark. -/
theorem omits_marked {c : Char} (cs : List Char) (ha : Omits allowed a) (hs : Phrase.isSeam c = true)
    (h : omits [] cs = true) : Omits allowed (a ++ String.ofList (c :: cs)) := by
  intro ph hph
  rw [String.toList_append, String.toList_ofList]
  have hcs : Omits allowed (String.ofList cs) := Omits.anywhere (omits_of_written .literal h)
  exact not_infix_join (Phrase.notMem_of_isSeam hs ph) (ha ph hph) (by simpa using hcs ph hph)

theorem sealed_literal (cs : List Char) (h : omits [] cs = true) (hl : cs.getLast?.all Phrase.isSeam = true) :
    Sealed allowed (String.ofList cs) where
  omits := Omits.anywhere (omits_of_written .literal h)
  last := by
    intro c hc
    rw [String.toList_ofList] at hc
    simpa [hc] using hl

theorem sealed_marked {c : Char} (cs : List Char) (ha : Omits allowed a) (hs : Phrase.isSeam c = true)
    (h : omits [] cs = true) (hl : (c :: cs).getLast?.all Phrase.isSeam = true) :
    Sealed allowed (a ++ String.ofList (c :: cs)) where
  omits := omits_marked cs ha hs h
  last := by
    intro d hd
    rw [String.toList_append, String.toList_ofList, List.getLast?_append_of_ne_nil _ (by simp)] at hd
    simpa [hd] using hl

theorem sealed_indentation (n : Nat) : Sealed allowed (String.ofList (List.replicate n ' ')) where
  omits := by
    intro ph _ hin
    obtain ⟨c, letters, hletters⟩ := List.exists_cons_of_ne_nil ph.letters_ne_nil
    have hc : c ∈ ph.letters := by simp [hletters]
    rw [String.toList_ofList] at hin
    rw [(List.mem_replicate.1 (hin.subset hc)).2] at hc
    exact Phrase.notMem_of_isSeam (by decide) ph hc
  last := by
    intro c hc
    rw [String.toList_ofList] at hc
    rw [(List.mem_replicate.1 (List.mem_of_getLast? hc)).2]
    decide

theorem Omits.of_isInfix (h : Omits allowed b) (hin : a.toList <:+: b.toList) : Omits allowed a :=
  fun ph hph hletters => h ph hph (hletters.trans hin)

theorem omits_intercalate {texts : List String} (h : ∀ text ∈ texts, Omits allowed text) :
    Omits allowed (", ".intercalate texts) := by
  induction texts with
  | nil => exact Omits.anywhere (omits_of_written .literal rfl)
  | cons text texts ih =>
    obtain ⟨htext, hrest⟩ := List.forall_mem_cons.1 h
    cases texts with
    | nil => simpa using htext
    | cons next texts =>
      rw [String.intercalate_cons_cons]
      exact (sealed_marked [' '] htext (by decide) rfl rfl).append (ih hrest)

theorem omits_annotate {note : Option String} (ha : Omits allowed a) (hn : ∀ text ∈ note, Omits allowed text) :
    Omits allowed (annotate a note) := by
  cases note with
  | none => exact ha
  | some text => exact (sealed_marked ['/', '/', ' '] ha (by decide) rfl rfl).append (hn text rfl)

end

/-! ## Lines of a text -/

theorem closeLine_isInfix (seen : List Char) : (closeLine seen).toList <:+: seen.reverse := by
  unfold closeLine
  split
  · rw [String.toList_ofList, List.reverse_cons]
    exact (List.prefix_append _ _).isInfix
  · simp

/-- Every line stands in the text. -/
theorem infix_of_mem_splitLinesFrom {seen cs : List Char} {line : String} (h : line ∈ splitLinesFrom seen cs) :
    line.toList <:+: seen.reverse ++ cs := by
  induction cs generalizing seen with
  | nil =>
    rw [splitLinesFrom] at h
    split at h
    · cases h
    · obtain rfl := List.mem_singleton.1 h
      simp
  | cons c cs ih =>
    by_cases hc : c = '\n'
    · subst hc
      rcases List.mem_cons.1 h with rfl | h
      · exact (closeLine_isInfix seen).trans (List.prefix_append _ _).isInfix
      · have hin := ih h
        exact hin.trans ⟨seen.reverse ++ ['\n'], [], by simp⟩
    · have hnext : splitLinesFrom seen (c :: cs) = splitLinesFrom (c :: seen) cs := by
        rw [splitLinesFrom]
        exact hc
      rw [hnext] at h
      simpa using ih h

theorem infix_of_mem_splitLines {text line : String} (h : line ∈ splitLines text) : line.toList <:+: text.toList := by
  simpa using infix_of_mem_splitLinesFrom h

theorem mem_mapLast {f : String → String} {texts : List String} {text : String} (h : text ∈ mapLast f texts) :
    text ∈ texts ∨ ∃ t ∈ texts, text = f t := by
  induction texts with
  | nil => cases h
  | cons t texts ih =>
    cases texts with
    | nil => exact Or.inr ⟨t, by simp, List.mem_singleton.1 h⟩
    | cons next texts =>
      rcases List.mem_cons.1 h with rfl | h
      · exact Or.inl List.mem_cons_self
      · rcases ih h with h | ⟨t', ht', rfl⟩
        · exact Or.inl (List.mem_cons_of_mem _ h)
        · exact Or.inr ⟨t', List.mem_cons_of_mem _ ht', rfl⟩

namespace Operation

section

variable {allowed : List Phrase}

theorem omits_assignmentLines {left value : String} (hl : Sealed allowed left) (hv : Omits allowed value) :
    ∀ text ∈ assignmentLines left value, Omits allowed text := by
  have hpart : ∀ part ∈ splitLines value, Omits allowed part := fun part hp => hv.of_isInfix (infix_of_mem_splitLines hp)
  rw [assignmentLines]
  split
  · simpa using hl.omits
  · rename_i first rest hlines
    rw [hlines, List.forall_mem_cons] at hpart
    refine List.forall_mem_cons.2 ⟨hl.append hpart.1, fun text ht => ?_⟩
    obtain ⟨part, hp, rfl⟩ := List.mem_map.1 ht
    exact (sealed_indentation _).append (hpart.2 part hp)

theorem sealed_assignment {register : Register} (h : ∀ text ∈ register.texts, Omits allowed text) (mode : WriteMode) :
    Sealed allowed (register.render ++ " " ++ mode.symbol ++ " ") := by
  have htarget : Omits allowed register.render := by
    cases register with
    | address value =>
      exact Omits.anywhere (omits_of_blurred (.append (.append .literal (.hexWide _ _)) .literal) rfl)
    | named name => exact h name (by simp [Register.texts])
  have hsymbol : Omits allowed mode.symbol := by
    cases mode <;> exact Omits.anywhere (omits_of_written .literal rfl)
  exact sealed_marked [] ((sealed_marked [] htarget (by decide) rfl rfl).append hsymbol) (by decide) rfl rfl

/-! ## Lines of an operation -/

/-- Operations that are written without other operations and without brackets of their own. -/
def isLeaf : Operation → Bool
  | .guarded _ _ | .counted _ _ | .forever _ | .check _ _ => false
  | _ => true

theorem omits_leaf {op : Operation} (hleaf : op.isLeaf = true) (h : ∀ text ∈ op.wording, Omits allowed text) (depth : Nat) :
    ∀ line ∈ op.lines depth, Omits allowed line.text := by
  cases op with
  | guarded _ _ | counted _ _ | forever _ | check _ _ => cases hleaf
  | header name system note =>
    obtain ⟨hname, hnote⟩ := List.forall_mem_cons.1 h
    refine List.forall_mem_singleton.2 (omits_annotate ?_ (by simpa using hnote))
    split
    · exact omits_marked [] ((sealed_literal "#include <".toList rfl rfl).append hname) (by decide) rfl
    · exact omits_marked [] ((sealed_literal "#include \"".toList rfl rfl).append hname) (by decide) rfl
  | define name value =>
    have hname := h name (by simp [wording])
    have hvalue := h value (by simp [wording])
    refine List.forall_mem_singleton.2 ?_
    exact (sealed_marked [] ((sealed_literal "#define ".toList rfl rfl).append hname) (by decide) rfl rfl).append
      hvalue
  | declare text => exact List.forall_mem_singleton.2 (h text (by simp [wording]))
  | statement text note =>
    obtain ⟨htext, hnote⟩ := List.forall_mem_cons.1 h
    exact List.forall_mem_singleton.2 (omits_annotate htext (by simpa using hnote))
  | write register mode value note =>
    obtain ⟨htarget, hrest⟩ := List.forall_mem_append.1 h
    obtain ⟨hvalue, hnote⟩ := List.forall_mem_cons.1 hrest
    have hlines := omits_assignmentLines (sealed_assignment htarget mode) hvalue
    intro line hline
    obtain ⟨text, htext, rfl⟩ := List.mem_map.1 hline
    rcases mem_mapLast htext with htext | ⟨t, ht, rfl⟩
    · exact hlines text htext
    · exact omits_annotate (omits_marked [] (hlines t ht) (by decide) rfl) (by simpa using hnote)
  | call callee args note =>
    obtain ⟨hcall, hnote⟩ := List.forall_mem_append.1 h
    obtain ⟨hname, hargs⟩ := List.forall_mem_cons.1 hcall
    refine List.forall_mem_singleton.2 (omits_annotate ?_ (by simpa using hnote))
    exact omits_marked [';'] ((sealed_marked [] hname (by decide) rfl rfl).append (omits_intercalate hargs))
      (by decide) rfl
  | installVector irq handler note =>
    obtain ⟨hirq, hrest⟩ := List.forall_mem_cons.1 h
    obtain ⟨hhandler, hnote⟩ := List.forall_mem_cons.1 hrest
    refine List.forall_mem_singleton.2 (omits_annotate ?_ (by simpa using hnote))
    have hvector : Omits allowed ("NVIC_SetVector(" ++ irq) := (sealed_literal "NVIC_SetVector(".toList rfl rfl).append hirq
    exact omits_marked [';'] ((sealed_marked [' '] hvector (by decide) rfl rfl).append hhandler) (by decide) rfl
  | waitUntil condition note =>
    obtain ⟨hcondition, hnote⟩ := List.forall_mem_cons.1 h
    refine List.forall_mem_singleton.2 (omits_annotate ?_ (by simpa using hnote))
    exact omits_marked [' ', ';'] ((sealed_literal "while (".toList rfl rfl).append hcondition) (by decide) rfl
  | await wait =>
    have hdepth : (wait.lines depth).map Line.text = (wait.lines 0).map Line.text := by
      cases wait <;> rfl
    intro line hline
    refine h line.text ?_
    rw [wording, ← hdepth]
    exact List.mem_map_of_mem hline
  | comment text =>
    exact List.forall_mem_singleton.2 ((sealed_literal "// ".toList rfl rfl).append (h text (by simp [wording])))
  | blank =>
    exact List.forall_mem_singleton.2 (Omits.anywhere (omits_of_written .literal rfl))
  | verbatim text =>
    have htext := h text (by simp [wording])
    have hline (part : String) : (verbatimLine depth part).text = part := by
      rw [verbatimLine]
      split <;> rfl
    intro line hm
    obtain ⟨part, hp, rfl⟩ := List.mem_map.1 hm
    rw [hline]
    exact htext.of_isInfix (infix_of_mem_splitLines hp)

/-- The head of a guard. -/
theorem omits_guard {condition : String} (h : Omits allowed condition) : Omits allowed ("if (" ++ condition ++ ")") :=
  omits_marked [] ((sealed_literal "if (".toList rfl rfl).append h) (by decide) rfl

/-- A check up to what is done where it fails. -/
theorem sealed_check {name : String} (h : Omits allowed name) : Sealed allowed ("if (" ++ name ++ "() != CNN_OK) ") :=
  sealed_marked ") != CNN_OK) ".toList ((sealed_literal "if (".toList rfl rfl).append h) (by decide) rfl rfl

mutual

/-- Brackets aside, the lines of an operation have the phrases of the operation and no others. -/
theorem omits_lines : (op : Operation) → (∀ text ∈ op.wording, Omits allowed text) → (depth : Nat) →
    ∀ line ∈ op.lines depth, Omits (.opening :: .closing :: allowed) line.text
  | .guarded condition body, h, depth => by
      obtain ⟨hcondition, hbody⟩ := List.forall_mem_cons.1 h
      refine List.forall_mem_cons.2 ⟨?_, omits_lines body hbody (depth + 1)⟩
      exact (omits_guard hcondition).mono (by simp)
  | .counted count body, h, depth => by
      have hhead : Omits [.opening, .closing] ("for (i = 0; i < " ++ decimal count.toNat ++ "; i++) \x7b") :=
        omits_of_blurred (.append (.append .literal (.decimal _)) .literal) rfl
      have hfoot : Omits [.opening, .closing] "\x7d" := omits_of_written .literal rfl
      refine List.forall_mem_cons.2 ⟨hhead.mono (by simp), List.forall_mem_append.2 ⟨omits_linesOfAll body h (depth + 1), ?_⟩⟩
      exact List.forall_mem_singleton.2 (hfoot.mono (by simp))
  | .forever body, h, depth => by
      have hhead : Omits [.opening, .closing] "while (1) \x7b" := omits_of_written .literal rfl
      have hfoot : Omits [.opening, .closing] "\x7d" := omits_of_written .literal rfl
      refine List.forall_mem_cons.2 ⟨hhead.mono (by simp), List.forall_mem_append.2 ⟨omits_linesOfAll body h (depth + 1), ?_⟩⟩
      exact List.forall_mem_singleton.2 (hfoot.mono (by simp))
  | .check callee policy, h, depth => by
      have haction : Omits [.opening, .closing] policy.action := by
        cases policy <;> exact omits_of_written .literal rfl
      have hname : Omits (.opening :: .closing :: allowed) callee.name := (h callee.name (by simp [wording])).mono (by simp)
      exact List.forall_mem_singleton.2 ((sealed_check hname).append (haction.mono (by simp)))
  | .header _ _ _, h, depth | .define _ _, h, depth | .declare _, h, depth | .statement _ _, h, depth
  | .write _ _ _ _, h, depth | .call _ _ _, h, depth | .installVector _ _ _, h, depth | .waitUntil _ _, h, depth
  | .await _, h, depth | .comment _, h, depth | .blank, h, depth | .verbatim _, h, depth =>
      fun line hline => (omits_leaf rfl h depth line hline).mono (by simp)

theorem omits_linesOfAll : (ops : List Operation) → (∀ text ∈ wordingOfAll ops, Omits allowed text) → (depth : Nat) →
    ∀ line ∈ linesOfAll ops depth, Omits (.opening :: .closing :: allowed) line.text
  | [], _, _ => by simp [linesOfAll]
  | op :: ops, h, depth => by
      obtain ⟨hop, hops⟩ := List.forall_mem_append.1 h
      exact List.forall_mem_append.2 ⟨omits_lines op hop depth, omits_linesOfAll ops hops depth⟩

end

end

end Operation

end AccelFirmware
