import AccelFirmware.Proofs.LineWording
import AccelFirmware.Literal.Define
import AccelFirmware.Proofs.NumberFields

/-!
# Nesting of brackets

When the brackets of a text match, and that those of operations and of array literals do. Within operations an opening bracket
always stands behind a blank, which tells it from that of a function.
-/

namespace AccelFirmware

/-! ## Text and its brackets -/

def Bracketless (text : String) : Prop := '\x7b' ∉ text.toList ∧ '\x7d' ∉ text.toList

/-- Text whose brackets match: none is closed that is not open, and in the end all are closed. -/
structure WellNested (text : String) : Prop where
  closed : ∀ before, before <+: text.toList → before.count '\x7d' ≤ before.count '\x7b'
  settled : text.toList.count '\x7d' = text.toList.count '\x7b'

/-- Text in which every bracket opens behind a blank. -/
def Spaced (text : String) : Prop :=
  ∀ before after, text.toList = before ++ '\x7b' :: after → before.getLast? = some ' '

/-- Text whose brackets match and open behind blanks. -/
structure Bracketed (text : String) : Prop where
  nested : WellNested text
  spaced : Spaced text

section

variable {a b text : String}

theorem bracketless_of_omits (h : Omits Phrase.words text) : Bracketless text := by
  have hmem {c : Char} (hm : c ∈ text.toList) : [c] <:+: text.toList := by
    obtain ⟨before, after, htext⟩ := List.append_of_mem hm
    exact ⟨before, after, by simp [htext]⟩
  exact ⟨fun hm => h .opening (by decide) (hmem hm), fun hm => h .closing (by decide) (hmem hm)⟩

theorem Bracketless.omits (h : Bracketless text) : Omits Phrase.words text := by
  intro ph hph hin
  cases ph with
  | opening => exact h.1 (hin.subset (by simp [Phrase.letters]))
  | closing => exact h.2 (hin.subset (by simp [Phrase.letters]))
  | stamp | armSleep | riscVSleep => exact hph (by decide)

theorem bracketless_literal {cs : List Char} (h : omits [] cs = true) : Bracketless (String.ofList cs) :=
  bracketless_of_omits (Omits.anywhere (omits_of_written .literal h))

theorem bracketless_empty : Bracketless "" := bracketless_literal rfl

theorem Bracketless.append (ha : Bracketless a) (hb : Bracketless b) : Bracketless (a ++ b) := by
  simp only [Bracketless, String.toList_append, List.mem_append, not_or]
  exact ⟨⟨ha.1, hb.1⟩, ha.2, hb.2⟩

/-! ## Matching -/

theorem Bracketless.wellNested (h : Bracketless text) : WellNested text where
  closed := by
    intro before hbefore
    rw [List.count_eq_zero.2 fun hm => h.2 (hbefore.subset hm)]
    exact Nat.zero_le _
  settled := by rw [List.count_eq_zero.2 h.1, List.count_eq_zero.2 h.2]

/-- A prefix ends within the first text or reaches into the second one. -/
theorem prefix_append_cases {before as bs : List Char} (h : before <+: as ++ bs) :
    before <+: as ∨ ∃ more, more <+: bs ∧ before = as ++ more := by
  rcases List.prefix_or_prefix_of_prefix h (List.prefix_append as bs) with hin | ⟨more, rfl⟩
  · exact Or.inl hin
  · exact Or.inr ⟨more, (List.prefix_append_right_inj as).1 h, rfl⟩

theorem WellNested.append (ha : WellNested a) (hb : WellNested b) : WellNested (a ++ b) where
  closed := by
    intro before hbefore
    rw [String.toList_append] at hbefore
    rcases prefix_append_cases hbefore with hin | ⟨more, hmore, rfl⟩
    · exact ha.closed before hin
    · rw [List.count_append, List.count_append, ha.settled]
      exact Nat.add_le_add_left (hb.closed more hmore) _
  settled := by rw [String.toList_append, List.count_append, List.count_append, ha.settled, hb.settled]

theorem WellNested.enclose (h : WellNested text) : WellNested ("\x7b" ++ text ++ "\x7d") where
  closed := by
    intro before hbefore
    have hletters : ("\x7b" ++ text ++ "\x7d").toList = '\x7b' :: (text.toList ++ ['\x7d']) := by simp
    rw [hletters] at hbefore
    rcases List.prefix_cons_iff.1 hbefore with rfl | ⟨inside, rfl, hinside⟩
    · exact Nat.le_refl _
    rw [List.count_cons_of_ne (by decide), List.count_cons_self]
    rcases prefix_append_cases hinside with hin | ⟨more, hmore, rfl⟩
    · exact Nat.le_succ_of_le (h.closed inside hin)
    · -- The last bracket closes the first one.
      have hlast : more.count '\x7d' ≤ 1 := by
        simpa using hmore.sublist.count_le '\x7d'
      rw [List.count_append, List.count_append, h.settled]
      omega
  settled := by
    simp [h.settled]

/-! ## Blanks -/

theorem spaced_of_notMem (h : '\x7b' ∉ text.toList) : Spaced text :=
  fun before after htext => absurd (by simp [htext]) h

theorem Spaced.append (ha : Spaced a) (hb : Spaced b) : Spaced (a ++ b) := by
  intro before after htext
  rw [String.toList_append] at htext
  rcases List.append_eq_append_iff.1 htext with ⟨more, rfl, hmore⟩ | ⟨more, hmore, hafter⟩
  · have hlast := hb more after hmore
    rw [List.getLast?_append, hlast]
    rfl
  · cases more with
    | nil =>
      rw [List.append_nil] at hmore
      rw [← hmore]
      have hlast := hb [] after (by simpa using hafter.symm)
      cases hlast
    | cons c more =>
      obtain ⟨rfl, -⟩ := List.cons.inj hafter
      exact ha before more hmore

/-! ## Blocks -/

theorem Bracketless.bracketed (h : Bracketless text) : Bracketed text := ⟨h.wellNested, spaced_of_notMem h.1⟩

theorem Bracketed.append (ha : Bracketed a) (hb : Bracketed b) : Bracketed (a ++ b) :=
  ⟨ha.nested.append hb.nested, ha.spaced.append hb.spaced⟩

theorem Bracketed.block (h : Bracketed text) : Bracketed (" \x7b" ++ text ++ "\x7d") where
  nested := by
    have hblank : Bracketless " " := bracketless_literal rfl
    have hblock : " \x7b" ++ text ++ "\x7d" = " " ++ ("\x7b" ++ text ++ "\x7d") := by
      rw [← String.append_assoc, ← String.append_assoc]
      rfl
    rw [hblock]
    exact hblank.wellNested.append h.nested.enclose
  spaced := by
    have hopening : Spaced " \x7b" := by
      intro before after htext
      have hletters : [' ', '\x7b'] = before ++ '\x7b' :: after := htext
      rcases before with _ | ⟨c, _ | ⟨d, before⟩⟩
      · cases (List.cons.inj hletters).1
      · obtain ⟨rfl, -⟩ := List.cons.inj hletters
        rfl
      · simp at hletters
    exact (hopening.append h.spaced).append (spaced_of_notMem (by decide))

theorem bracketed_join {texts : List String} (h : ∀ text ∈ texts, Bracketed text) : Bracketed (String.join texts) := by
  induction texts with
  | nil => exact bracketless_empty.bracketed
  | cons text texts ih =>
    obtain ⟨htext, hrest⟩ := List.forall_mem_cons.1 h
    rw [String.join_cons]
    exact htext.append (ih hrest)

end

/-! ## Lines -/

namespace Line

theorem bracketless_indentation (depth : Nat) : Bracketless (indentation depth) :=
  bracketless_of_omits (sealed_indentation _).omits

theorem bracketed_render {line : Line} (h : Bracketed line.text) : Bracketed line.render :=
  ((bracketless_indentation line.indent).bracketed.append h).append (bracketless_literal rfl).bracketed

theorem bracketed_renderAll {lines : List Line} (h : ∀ line ∈ lines, Bracketed line.text) : Bracketed (renderAll lines) := by
  refine bracketed_join fun text ht => ?_
  obtain ⟨line, hline, rfl⟩ := List.mem_map.1 ht
  exact bracketed_render (h line hline)

@[simp] theorem renderAll_append (lines more : List Line) : renderAll (lines ++ more) = renderAll lines ++ renderAll more := by
  simp [renderAll]

theorem renderAll_cons (line : Line) (lines : List Line) : renderAll (line :: lines) = line.render ++ renderAll lines := by
  simp [renderAll]

/-- Lines between a line that opens a bracket at its end and one that closes it. -/
theorem bracketed_block {head : String} {lines : List Line} (hhead : Bracketless head) (h : Bracketed (renderAll lines))
    (depth : Nat) : Bracketed (renderAll (⟨depth, head ++ " \x7b"⟩ :: (lines ++ [⟨depth, "\x7d"⟩]))) := by
  have hindent := (bracketless_indentation depth).bracketed
  have hfeed : Bracketed "\n" := (bracketless_literal rfl).bracketed
  have htext : renderAll (⟨depth, head ++ " \x7b"⟩ :: (lines ++ [⟨depth, "\x7d"⟩])) =
      indentation depth ++ head ++ (" \x7b" ++ ("\n" ++ renderAll lines ++ indentation depth) ++ "\x7d") ++ "\n" := by
    simp only [renderAll_cons, renderAll_append, renderAll_nil, render, String.append_assoc, String.append_empty]
  rw [htext]
  exact ((hindent.append hhead.bracketed).append ((hfeed.append h).append hindent).block).append hfeed

end Line

namespace Operation

theorem bracketed_leaf {op : Operation} (hleaf : op.isLeaf = true) (h : ∀ text ∈ op.wording, Bracketless text) (depth : Nat) :
    Bracketed (op.render depth) :=
  Line.bracketed_renderAll fun line hline =>
    (bracketless_of_omits (omits_leaf hleaf (fun text ht => (h text ht).omits) depth line hline)).bracketed

theorem bracketed_check {callee : Callee} (h : Bracketless callee.name) (policy : FailPolicy) (depth : Nat) :
    Bracketed (render (.check callee policy) depth) := by
  have hcondition : Bracketless ("if (" ++ callee.name ++ "() != CNN_OK)") :=
    ((bracketless_literal rfl).append h).append (bracketless_literal rfl)
  refine Line.bracketed_renderAll (List.forall_mem_singleton.2 ?_)
  cases policy with
  | halt =>
    have htext : "if (" ++ callee.name ++ "() != CNN_OK) " ++ FailPolicy.halt.action =
        "if (" ++ callee.name ++ "() != CNN_OK)" ++ " fail();" := by
      simp only [FailPolicy.action, String.append_assoc]
      rfl
    rw [htext]
    exact (hcondition.append (bracketless_literal rfl)).bracketed
  | abortAndReturn =>
    have habort : Bracketless " fail(); pass(); return 0; " := bracketless_literal rfl
    have htext : "if (" ++ callee.name ++ "() != CNN_OK) " ++ FailPolicy.abortAndReturn.action =
        "if (" ++ callee.name ++ "() != CNN_OK)" ++ (" \x7b" ++ " fail(); pass(); return 0; " ++ "\x7d") := by
      simp only [FailPolicy.action, String.append_assoc]
      rfl
    rw [htext]
    exact hcondition.bracketed.append habort.bracketed.block

mutual

/-- An operation whose texts have no brackets has only those of its blocks. -/
theorem bracketed_render : (op : Operation) → (∀ text ∈ op.wording, Bracketless text) → (depth : Nat) →
    Bracketed (op.render depth)
  | .guarded condition body, h, depth => by
      obtain ⟨hcondition, hbody⟩ := List.forall_mem_cons.1 h
      have hhead : Bracketless ("if (" ++ condition ++ ")") := bracketless_of_omits (omits_guard hcondition.omits)
      have hrest : Bracketed (Line.renderAll (body.lines (depth + 1))) := bracketed_render body hbody (depth + 1)
      rw [render, lines, Line.renderAll_cons]
      exact (Line.bracketed_render hhead.bracketed).append hrest
  | .counted count body, h, depth => by
      have hhead : Bracketless ("for (i = 0; i < " ++ decimal count.toNat ++ "; i++)") :=
        bracketless_of_omits (Omits.anywhere (omits_of_blurred (.append (.append .literal (.decimal _)) .literal) rfl))
      have hopening : "; i++) \x7b" = "; i++)" ++ " \x7b" := rfl
      rw [render, lines, hopening, ← String.append_assoc, List.cons_append]
      exact Line.bracketed_block hhead (bracketed_linesOfAll body h (depth + 1)) depth
  | .forever body, h, depth => by
      have hhead : Bracketless "while (1)" := bracketless_literal rfl
      have hopening : "while (1) \x7b" = "while (1)" ++ " \x7b" := rfl
      rw [render, lines, hopening, List.cons_append]
      exact Line.bracketed_block hhead (bracketed_linesOfAll body h (depth + 1)) depth
  | .check callee policy, h, depth => bracketed_check (h callee.name (by simp [wording])) policy depth
  | .header _ _ _, h, depth | .define _ _, h, depth | .declare _, h, depth | .statement _ _, h, depth
  | .write _ _ _ _, h, depth | .call _ _ _, h, depth | .installVector _ _ _, h, depth | .waitUntil _ _, h, depth
  | .await _, h, depth | .comment _, h, depth | .blank, h, depth | .verbatim _, h, depth => bracketed_leaf rfl h depth

theorem bracketed_linesOfAll : (ops : List Operation) → (∀ text ∈ wordingOfAll ops, Bracketless text) → (depth : Nat) →
    Bracketed (Line.renderAll (linesOfAll ops depth))
  | [], _, _ => bracketless_empty.bracketed
  | op :: ops, h, depth => by
      obtain ⟨hop, hops⟩ := List.forall_mem_append.1 h
      rw [linesOfAll, Line.renderAll_append]
      exact (bracketed_render op hop depth).append (bracketed_linesOfAll ops hops depth)

end

theorem bracketed_renderAll {ops : List Operation} {depth : Nat} (h : ∀ op ∈ ops, Bracketed (op.render depth)) :
    Bracketed (renderAll ops depth) := by
  induction ops with
  | nil => exact bracketless_empty.bracketed
  | cons op ops ih =>
    obtain ⟨hop, hops⟩ := List.forall_mem_cons.1 h
    rw [renderAll, linesOfAll, Line.renderAll_append]
    exact hop.append (ih hops)

end Operation

/-! ## Array literals -/

namespace ArrayLiteral

theorem bracketless_format (f : NumberFormat) (value : Int) : Bracketless (String.ofList (f.format value)) := by
  constructor <;> rw [String.toList_ofList] <;> exact NumberFormat.not_mem_format (by decide) (by decide) rfl

theorem bracketless_elements {format : ElementFormat} (h : ∀ value, Bracketless (format.format value)) (wrapWidth : Nat) :
    ∀ (n : Nat) (values : List Int), Bracketless (elements format wrapWidth n values)
  | _, [] => bracketless_empty
  | _, [v] => h v
  | n, v :: w :: vs => by
      have hseparator : Bracketless (separator wrapWidth n) := by
        rw [separator]
        split <;> exact bracketless_literal rfl
      exact ((h v).append hseparator).append (bracketless_elements h wrapWidth (n + 1) (w :: vs))

/-- However long an array is, its elements stand between two brackets. -/
theorem bracketed_define {a : ArrayLiteral} (hname : Bracketless a.name) (h : ∀ value, Bracketless (a.format.format value)) :
    Bracketed a.define := by
  have hhead : Bracketless ("#define " ++ a.name) := (bracketless_literal rfl).append hname
  have hvalues : Bracketless (" \\\n  " ++ elements a.format a.wrapWidth 1 a.values ++ " \\\n") :=
    ((bracketless_literal rfl).append (bracketless_elements h a.wrapWidth 1 a.values)).append (bracketless_literal rfl)
  have hfeed : Bracketless "\n" := bracketless_literal rfl
  have hopening : " \x7b \\\n  " = " \x7b" ++ " \\\n  " := rfl
  have hclosing : " \\\n\x7d\n" = " \\\n" ++ "\x7d" ++ "\n" := rfl
  have htext : a.define = "#define " ++ a.name ++
      (" \x7b" ++ (" \\\n  " ++ elements a.format a.wrapWidth 1 a.values ++ " \\\n") ++ "\x7d") ++ "\n" := by
    rw [define, hopening, hclosing]
    simp only [String.append_assoc]
  rw [htext]
  exact (hhead.bracketed.append hvalues.bracketed.block).append hfeed.bracketed

end ArrayLiteral

end AccelFirmware
