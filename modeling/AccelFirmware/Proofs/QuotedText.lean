import AccelFirmware.Data.Toml.Quoted
import AccelFirmware.Proofs.Numerals
import Mathlib.Tactic.IntervalCases

/-!
# Quoted text read back

A text is read back in each form that can hold it. Both forms with escapes hold every text. The forms without are chosen only for
texts without control characters, and only if their closing quotes cannot come up in the text.
-/

namespace AccelFirmware.Toml

/-! ## One character -/

/-- A test tells characters apart. -/
theorem ne_of_test {test : Char → Bool} {c d : Char} (hc : test c = true) (hd : test d = false) : c ≠ d := by
  rintro rfl
  rw [hc] at hd
  cases hd

theorem isVisible_of_not_needsEscape {c : Char} (h : needsEscape c = false) (hline : c ≠ '\n') : isVisible c = true := by
  simp only [needsEscape, isVisible, Bool.or_eq_false_iff, Bool.and_eq_false_iff, Bool.or_eq_true, Bool.and_eq_true,
    decide_eq_true_eq, decide_eq_false_iff_not] at h ⊢
  obtain ⟨(hlow | htab) | hend, hdelete⟩ := h
  · exact Or.inr ⟨by omega, hdelete⟩
  · exact Or.inl (not_not.1 htab)
  · exact absurd hline hend

theorem ne_lineEnd_of_isVisible {c : Char} (h : isVisible c = true) : c ≠ '\n' ∧ c ≠ '\r' :=
  ⟨ne_of_test h (by decide), ne_of_test h (by decide)⟩

/-- The code of a character that needs one has four digits, two of them zeros in front. -/
theorem padLeft_upperHex {n : Nat} (h : n < 0x80) : padLeft '0' 4 (Radix.upperHex.write n) =
    ['0', '0', Radix.upperHex.digitChar (n / 16), Radix.upperHex.digitChar (n % 16)] := by
  by_cases hsmall : n < 16
  · have hdigits : digits 16 n = [n] := by rw [digits, if_pos (Or.inl hsmall)]
    have hquotient : n / 16 = 0 := Nat.div_eq_of_lt hsmall
    rw [Radix.write, show Radix.upperHex.base = 16 from rfl, hdigits, hquotient, Nat.mod_eq_of_lt hsmall]
    rfl
  · have hdigits : digits 16 n = [n / 16, n % 16] := by
      rw [digits, if_neg (by omega), digits, if_pos (by omega)]
      rfl
    rw [Radix.write, show Radix.upperHex.base = 16 from rfl, hdigits]
    rfl

theorem codePoint?_padLeft (c : Char) (width : Nat) :
    codePoint? (padLeft '0' width (Radix.upperHex.write c.toNat)) = some c := by
  have hvalid : c.toNat.isValidChar := c.valid
  rw [codePoint?, padLeft, readHex_zeros, readHex_write rfl]
  simp [hvalid, Char.ofNat_toNat]

/-- How a character may be spelled where escapes are read. -/
inductive Spelling : Char → List Char → Prop
  | plain {c : Char} (visible : isVisible c = true) (noEscape : c ≠ '\\') (noQuote : c ≠ '"') : Spelling c [c]
  | short {c letter : Char} (h : shortEscape? letter = some c) : Spelling c ['\\', letter]
  | code {c w x y z : Char} (h : codePoint? [w, x, y, z] = some c) : Spelling c ['\\', 'u', w, x, y, z]

theorem escape_spelling {c : Char} (hquote : c ≠ '"') (hline : c ≠ '\n') : Spelling c (escape c) := by
  rw [escape.eq_def]
  split
  · exact .short rfl
  · exact .short rfl
  · exact .short rfl
  · exact .short rfl
  · exact .short rfl
  · rename_i hbackslash _ _ _ _
    split
    · rename_i hescape
      have hsmall : c.toNat < 0x80 := by
        simp only [needsEscape, Bool.or_eq_true, Bool.and_eq_true, decide_eq_true_eq] at hescape
        omega
      have hcode := codePoint?_padLeft c 4
      rw [padLeft_upperHex hsmall] at hcode ⊢
      exact .code hcode
    · rename_i hescape
      exact .plain (isVisible_of_not_needsEscape (by simpa using hescape) hline) hbackslash hquote

/-- A spelling starts with a character that neither closes a text nor ends a line. -/
theorem Spelling.head {c : Char} {text : List Char} (h : Spelling c text) :
    ∃ first more, text = first :: more ∧ isVisible first = true ∧ first ≠ '"' := by
  cases h with
  | plain visible _ noQuote => exact ⟨_, _, rfl, visible, noQuote⟩
  | short => exact ⟨_, _, rfl, by decide, by decide⟩
  | code => exact ⟨_, _, rfl, by decide, by decide⟩

theorem shortEscape?_letter {letter c : Char} (h : shortEscape? letter = some c) :
    letter ≠ 'u' ∧ letter ≠ 'U' ∧ letter ≠ ' ' ∧ letter ≠ '\t' ∧ letter ≠ '\r' ∧ letter ≠ '\n' := by
  refine ⟨?_, ?_, ?_, ?_, ?_, ?_⟩ <;> rintro rfl <;> cases h

theorem readBasic_spelling {c : Char} {text : List Char} (h : Spelling c text) (rest : List Char) :
    readBasic (text ++ rest) = prepend (some c) (readBasic rest) := by
  cases h with
  | plain visible noEscape noQuote => simp [readBasic, visible, noEscape]
  | short h => simp [readBasic, shortEscape?_letter h, h]
  | code h => simp [readBasic, h]

theorem readMultiBasic_spelling {c : Char} {text : List Char} (h : Spelling c text) (rest : List Char) :
    readMultiBasic .text (text ++ rest) = prepend (some c) (readMultiBasic .text rest) := by
  cases h with
  | plain visible noEscape noQuote =>
    simp [readMultiBasic, visible, noEscape, noQuote, ne_lineEnd_of_isVisible visible]
  | short h => simp [readMultiBasic, shortEscape?_letter h, h]
  | code h => simp [readMultiBasic, h]

/-! ## Text on one line -/

theorem readBasic_writeBasic (cs rest : List Char) : readBasic (writeBasic cs ++ '"' :: rest) = some (cs, rest) := by
  have hpiece {c : Char} {text cs : List Char} (h : Spelling c text)
      (ih : readBasic (writeBasic cs ++ '"' :: rest) = some (cs, rest)) :
      readBasic ((text ++ writeBasic cs) ++ '"' :: rest) = some (c :: cs, rest) := by
    rw [List.append_assoc, readBasic_spelling h, ih]
    rfl
  induction cs using writeBasic.induct with
  | case1 => simp [writeBasic, readBasic]
  | case2 cs ih => exact hpiece (show Spelling '"' ['\\', '"'] from .short rfl) ih
  | case3 cs ih => exact hpiece (show Spelling '\n' ['\\', 'n'] from .short rfl) ih
  | case4 c cs hquote hline ih =>
    rw [writeBasic.eq_4 c cs hquote hline]
    exact hpiece (escape_spelling hquote hline) ih

theorem readLiteral_append {cs : List Char} (h : ∀ c ∈ cs, isVisible c = true ∧ c ≠ '\x27') (rest : List Char) :
    readLiteral (cs ++ '\x27' :: rest) = some (cs, rest) := by
  induction cs with
  | nil => simp [readLiteral]
  | cons c cs ih =>
    obtain ⟨⟨hvisible, hquote⟩, hrest⟩ := List.forall_mem_cons.1 h
    rw [List.cons_append, readLiteral.eq_3 _ _ hquote, if_pos hvisible, ih hrest]
    rfl

/-! ## Text over several lines -/

/-- Quotes that do not close the text belong to it. -/
theorem readMultiBasic_quotes {run : Nat} (hrun : run ≤ 2) {c : Char} (hc : c ≠ '"') {cs text rest : List Char}
    (h : readMultiBasic .text (c :: cs) = some (text, rest)) :
    readMultiBasic .text (List.replicate run '"' ++ c :: cs) = some (List.replicate run '"' ++ text, rest) := by
  have hvisible : isVisible '"' = true := by decide
  have hone : readMultiBasic .text ('"' :: c :: cs) = some ('"' :: text, rest) := by
    simp [readMultiBasic, hc, h, hvisible, prepend]
  interval_cases run
  · exact h
  · exact hone
  · simp [List.replicate, readMultiBasic, hc, h, hvisible, prepend]

/-- The quotes in front are those that were written since the last other character. -/
theorem readMultiBasic_writeMultiBasic (cs rest : List Char) {run : Nat} (hrun : run ≤ 2) :
    readMultiBasic .text (List.replicate run '"' ++ (writeMultiBasic run cs ++ '"' :: '"' :: '"' :: '\n' :: rest)) =
      some (List.replicate run '"' ++ cs, '\n' :: rest) := by
  have hpiece {c : Char} {text cs : List Char} {run : Nat} (hrun : run ≤ 2) (h : Spelling c text)
      (ih : readMultiBasic .text (writeMultiBasic 0 cs ++ '"' :: '"' :: '"' :: '\n' :: rest) = some (cs, '\n' :: rest)) :
      readMultiBasic .text (List.replicate run '"' ++ ((text ++ writeMultiBasic 0 cs) ++ '"' :: '"' :: '"' :: '\n' :: rest)) =
        some (List.replicate run '"' ++ c :: cs, '\n' :: rest) := by
    have hread := readMultiBasic_spelling h (writeMultiBasic 0 cs ++ '"' :: '"' :: '"' :: '\n' :: rest)
    rw [ih] at hread
    obtain ⟨first, more, rfl, -, hfirst⟩ := h.head
    rw [List.append_assoc]
    exact readMultiBasic_quotes hrun hfirst hread
  induction run, cs using writeMultiBasic.induct with
  | case1 run => interval_cases run <;> simp [List.replicate, writeMultiBasic, readMultiBasic]
  | case2 cs ih =>
    rw [writeMultiBasic, if_pos rfl]
    exact hpiece hrun (show Spelling '"' ['\\', '"'] from .short rfl) (ih (by omega))
  | case3 run cs hne ih =>
    rw [writeMultiBasic, if_neg hne]
    have hshift (text : List Char) : List.replicate run '"' ++ '"' :: text = List.replicate (run + 1) '"' ++ text := by
      rw [List.replicate_succ', List.append_assoc]
      rfl
    rw [List.cons_append, hshift, hshift]
    exact ih (by omega)
  | case4 run cs ih =>
    have hread : readMultiBasic .text ('\n' :: (writeMultiBasic 0 cs ++ '"' :: '"' :: '"' :: '\n' :: rest)) =
        some ('\n' :: cs, '\n' :: rest) := by
      have hrest : readMultiBasic .text (writeMultiBasic 0 cs ++ '"' :: '"' :: '"' :: '\n' :: rest) = some (cs, '\n' :: rest) :=
        ih (by omega)
      simp [readMultiBasic, hrest, prepend]
    exact readMultiBasic_quotes hrun (by decide) hread
  | case5 run c cs hquote hline ih =>
    rw [writeMultiBasic.eq_4 run c cs hquote hline]
    exact hpiece hrun (escape_spelling hquote hline) (ih (by omega))

theorem readMultiLiteral_quotes {run : Nat} (hrun : run ≤ 2) {c : Char} (hc : c ≠ '\x27') {cs text rest : List Char}
    (h : readMultiLiteral (c :: cs) = some (text, rest)) :
    readMultiLiteral (List.replicate run '\x27' ++ c :: cs) = some (List.replicate run '\x27' ++ text, rest) := by
  have hvisible : isVisible '\x27' = true := by decide
  interval_cases run
  · exact h
  · simp [List.replicate, readMultiLiteral, hc, h, hvisible, prepend]
  · simp [List.replicate, readMultiLiteral, hc, h, hvisible, prepend]

theorem readMultiLiteral_append {cs : List Char} (h : ∀ c ∈ cs, isVisible c = true ∨ c = '\n') (rest : List Char)
    {run : Nat} (hrun : longestRun '\x27' run cs ≤ 2) :
    readMultiLiteral (List.replicate run '\x27' ++ (cs ++ '\x27' :: '\x27' :: '\x27' :: '\n' :: rest)) =
      some (List.replicate run '\x27' ++ cs, '\n' :: rest) := by
  induction cs generalizing run with
  | nil =>
    rw [longestRun] at hrun
    interval_cases run <;> simp [List.replicate, readMultiLiteral]
  | cons c cs ih =>
    obtain ⟨hc, hcs⟩ := List.forall_mem_cons.1 h
    rw [longestRun] at hrun
    split at hrun
    · rename_i hquote
      subst hquote
      have hshift (text : List Char) :
          List.replicate run '\x27' ++ '\x27' :: text = List.replicate (run + 1) '\x27' ++ text := by
        rw [List.replicate_succ', List.append_assoc]
        rfl
      rw [List.cons_append, hshift, hshift]
      exact ih hcs hrun
    · rename_i hquote
      have hread := ih hcs (show longestRun '\x27' 0 cs ≤ 2 by omega)
      rw [List.replicate_zero, List.nil_append, List.nil_append] at hread
      refine readMultiLiteral_quotes (by omega) hquote ?_
      rcases hc with hvisible | rfl
      · simp [readMultiLiteral, hquote, ne_lineEnd_of_isVisible hvisible, hvisible, hread, prepend]
      · simp [readMultiLiteral, hread, prepend]

/-! ## The chosen form -/

/-- The texts that a form can hold. -/
def Quoting.Fits : Quoting → List Char → Prop
  | .basic, _ | .multiBasic, _ => True
  | .literal, cs => ∀ c ∈ cs, isVisible c = true ∧ c ≠ '\x27'
  | .multiLiteral, cs => (∀ c ∈ cs, isVisible c = true ∨ c = '\n') ∧ longestRun '\x27' 0 cs ≤ 2

theorem le_longestRun (q : Char) (run : Nat) (cs : List Char) : run ≤ longestRun q run cs := by
  induction cs generalizing run with
  | nil => exact Nat.le_refl run
  | cons c cs ih =>
    rw [longestRun]
    split
    · exact Nat.le_trans (Nat.le_succ run) (ih (run + 1))
    · exact Nat.le_max_left ..

theorem not_mem_of_longestRun {q : Char} {cs : List Char} (h : longestRun q 0 cs = 0) : q ∉ cs := by
  induction cs with
  | nil => exact List.not_mem_nil
  | cons c cs ih =>
    rw [longestRun] at h
    split at h
    · exact absurd (le_longestRun q (0 + 1) cs) (by omega)
    · rename_i hother
      exact List.not_mem_cons_of_ne_of_not_mem (Ne.symm hother) (ih (by omega))

theorem Quoting.choose_fits (cs : List Char) : (choose cs).Fits cs := by
  have hvisible (h : (!cs.any needsEscape) = true) {c : Char} (hc : c ∈ cs) (hline : c ≠ '\n') : isVisible c = true := by
    rw [Bool.not_eq_true', List.any_eq_false] at h
    exact isVisible_of_not_needsEscape (by simpa using h c hc) hline
  rw [choose]
  split
  · trivial
  · split
    · rename_i hliteral
      simp only [Bool.and_eq_true, decide_eq_true_eq, Bool.not_eq_true', List.contains_eq_mem,
        decide_eq_false_iff_not] at hliteral
      obtain ⟨⟨hcontrols, hsingles⟩, hlines⟩ := hliteral
      intro c hc
      exact ⟨hvisible (by rw [hcontrols]; rfl) hc fun hline => hlines (hline ▸ hc),
        fun hquote => not_mem_of_longestRun hsingles (hquote ▸ hc)⟩
    · split
      · trivial
      · split
        · rename_i hliteral
          simp only [Bool.and_eq_true, decide_eq_true_eq] at hliteral
          obtain ⟨hcontrols, hsingles⟩ := hliteral
          exact ⟨fun c hc => or_iff_not_imp_right.2 fun hline => hvisible hcontrols hc hline, hsingles⟩
        · split <;> trivial

theorem dropLineEnd_visible {c : Char} (h : isVisible c = true) (cs : List Char) : dropLineEnd (c :: cs) = c :: cs := by
  obtain ⟨hline, hreturn⟩ := ne_lineEnd_of_isVisible h
  simp [dropLineEnd, hline, hreturn]

/-- Behind three opening quotes, a line end is skipped exactly if one was written for a text with lines. -/
theorem dropLineEnd_opening (cs : List Char) {body : List Char}
    (h : '\n' ∉ cs → ∃ c more, body = c :: more ∧ isVisible c = true) :
    dropLineEnd ((if cs.contains '\n' then ['\n'] else []) ++ body) = body := by
  split
  · rfl
  · rename_i hlines
    obtain ⟨c, more, rfl, hc⟩ := h (by simpa using hlines)
    exact dropLineEnd_visible hc more

theorem head?_writeBasic (cs : List Char) : (writeBasic cs).head? ≠ some '"' := by
  rw [writeBasic.eq_def]
  split
  · nofun
  · nofun
  · nofun
  · rename_i c cs hquote hline
    obtain ⟨first, more, htext, -, hfirst⟩ := (escape_spelling hquote hline).head
    rw [htext]
    exact fun h => hfirst (Option.some.inj h)

theorem head_writeMultiBasic {cs : List Char} (h : '\n' ∉ cs) (rest : List Char) :
    ∃ c more, writeMultiBasic 0 cs ++ '"' :: rest = c :: more ∧ isVisible c = true := by
  rw [writeMultiBasic.eq_def]
  split
  · exact ⟨'"', rest, rfl, by decide⟩
  · exact ⟨'"', _, rfl, by decide⟩
  · simp at h
  · rename_i c cs hquote hline
    obtain ⟨first, more, htext, hvisible, -⟩ := (escape_spelling hquote hline).head
    rw [htext]
    exact ⟨first, _, rfl, hvisible⟩

theorem head_literal {cs : List Char} (hcs : ∀ c ∈ cs, isVisible c = true ∨ c = '\n') (h : '\n' ∉ cs) (rest : List Char) :
    ∃ c more, cs ++ '\x27' :: rest = c :: more ∧ isVisible c = true := by
  cases cs with
  | nil => exact ⟨'\x27', rest, rfl, by decide⟩
  | cons c cs =>
    obtain ⟨hline, -⟩ := List.ne_and_not_mem_of_not_mem_cons h
    exact ⟨c, _, rfl, (hcs c List.mem_cons_self).resolve_right (Ne.symm hline)⟩

/-- A text in one of the forms is read back, and the line end behind it is left. -/
theorem readQuoted_write {form : Quoting} {cs : List Char} (h : form.Fits cs) (rest : List Char) :
    readQuoted (form.write cs ++ '\n' :: rest) = some (cs, '\n' :: rest) := by
  cases form with
  | basic =>
    have hopen : readQuoted ('"' :: (writeBasic cs ++ '"' :: '\n' :: rest)) =
        readBasic (writeBasic cs ++ '"' :: '\n' :: rest) := by
      have hhead := head?_writeBasic cs
      cases hbody : writeBasic cs <;> simp_all [readQuoted]
    rw [Quoting.write, List.append_assoc]
    exact hopen.trans (readBasic_writeBasic cs ('\n' :: rest))
  | literal =>
    have hopen : readQuoted ('\x27' :: (cs ++ '\x27' :: '\n' :: rest)) = readLiteral (cs ++ '\x27' :: '\n' :: rest) := by
      cases cs with
      | nil => simp [readQuoted]
      | cons c cs => simp [readQuoted, (h c List.mem_cons_self).2]
    rw [Quoting.write, List.append_assoc]
    exact hopen.trans (readLiteral_append h ('\n' :: rest))
  | multiBasic =>
    have hopen := dropLineEnd_opening cs fun hlines => head_writeMultiBasic hlines ('"' :: '"' :: '\n' :: rest)
    rw [Quoting.write, openMulti, List.append_assoc, List.append_assoc]
    exact (congrArg (readMultiBasic .text) hopen).trans (readMultiBasic_writeMultiBasic cs rest (Nat.zero_le 2))
  | multiLiteral =>
    obtain ⟨hvisible, hruns⟩ := h
    have hopen := dropLineEnd_opening cs fun hlines => head_literal hvisible hlines ('\x27' :: '\x27' :: '\n' :: rest)
    rw [Quoting.write, openMulti, List.append_assoc, List.append_assoc]
    exact (congrArg readMultiLiteral hopen).trans (readMultiLiteral_append hvisible rest hruns)

end AccelFirmware.Toml
