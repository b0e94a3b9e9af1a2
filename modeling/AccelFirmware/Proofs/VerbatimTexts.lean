import AccelFirmware.Proofs.QuotedText
import Mathlib.Data.List.Infix

/-!
# Text between quotes as it is

A text that is put between double quotes without any escape is read back just when it has no quotes, no backslash and no control
character. With one of these, what is read ends sooner, is shorter, or is not text at all.
-/

namespace AccelFirmware.Toml

variable {cs text rest tail closing : List Char}

/-- Texts that stand for themselves between double quotes. -/
def Verbatim (cs : List Char) : Prop := ∀ c ∈ cs, isVisible c = true ∧ c ≠ '"' ∧ c ≠ '\\'

instance (cs : List Char) : Decidable (Verbatim cs) := List.decidableBAll _ cs

theorem readBasic_verbatim (h : Verbatim cs) (rest : List Char) : readBasic (cs ++ '"' :: rest) = some (cs, rest) := by
  induction cs with
  | nil => simp [readBasic]
  | cons c cs ih =>
    obtain ⟨⟨hvisible, hquote, hbackslash⟩, hcs⟩ := List.forall_mem_cons.1 h
    have hread := readBasic_spelling (.plain hvisible hbackslash hquote) (cs ++ '"' :: rest)
    rw [ih hcs] at hread
    exact hread

/-! ## What a reader takes -/

theorem prepend_eq_some {c : Option Char} {r : Option (List Char × List Char)} (h : prepend c r = some (text, rest)) :
    ∃ d more, c = some d ∧ r = some (more, rest) ∧ text = d :: more := by
  cases c <;> rcases r with _ | ⟨more, behind⟩ <;> simp_all [prepend]

/-- A text was read from at least as many characters in front of the closing ones. -/
def ReadFrom (closing cs text rest : List Char) : Prop := ∃ used, cs = used ++ (closing ++ rest) ∧ text.length ≤ used.length

namespace ReadFrom

theorem skip (front : List Char) (h : ReadFrom closing cs text rest) : ReadFrom closing (front ++ cs) text rest := by
  obtain ⟨used, rfl, hlength⟩ := h
  refine ⟨front ++ used, (List.append_assoc ..).symm, ?_⟩
  rw [List.length_append]
  omega

theorem take {front : List Char} (hfront : front ≠ []) (c : Char) (h : ReadFrom closing cs text rest) :
    ReadFrom closing (front ++ cs) (c :: text) rest := by
  obtain ⟨used, rfl, hlength⟩ := h
  have hfirst := List.length_pos_iff.2 hfront
  refine ⟨front ++ used, (List.append_assoc ..).symm, ?_⟩
  rw [List.length_append, List.length_cons]
  omega

end ReadFrom

theorem readMultiBasic_eq_some {state : JoinState} (h : readMultiBasic state cs = some (text, rest)) :
    ReadFrom ['"', '"', '"'] cs text rest := by
  have htake {c : Option Char} {next more : List Char} (front : List Char) (hfront : front ≠ [])
      (ih : ∀ {text}, readMultiBasic .text next = some (text, rest) → ReadFrom ['"', '"', '"'] next text rest)
      (h : prepend c (readMultiBasic .text next) = some (more, rest)) : ReadFrom ['"', '"', '"'] (front ++ next) more rest := by
    obtain ⟨d, text, -, hmore, rfl⟩ := prepend_eq_some h
    exact (ih hmore).take hfront d
  fun_induction readMultiBasic state cs generalizing text
  case case1 | case5 | case22 => cases h
  case case2 next ih | case6 next ih => exact (ih h).skip ['\r', '\n']
  case case3 next ih | case7 next ih => exact (ih h).skip ['\n']
  case case4 c next _ _ _ ih => exact (ih h).skip [c]
  case case8 next ih => exact (ih h).skip [' ']
  case case9 next ih => exact (ih h).skip ['\t']
  case case10 | case11 | case12 =>
    cases h
    exact ⟨_, rfl, Nat.le_refl _⟩
  case case13 _ next _ _ ih => exact htake ['\r', '\n'] (by simp) ih h
  case case14 _ next _ _ ih => exact htake ['\n'] (by simp) ih h
  case case15 _ w x y z next _ ih => exact htake ['\\', 'u', w, x, y, z] (by simp) ih h
  case case16 _ a b c d w x y z next _ ih => exact htake ['\\', 'U', a, b, c, d, w, x, y, z] (by simp) ih h
  case case17 _ next _ ih => exact (ih h).skip ['\\', '\r', '\n']
  case case18 _ next _ ih => exact (ih h).skip ['\\', '\n']
  case case19 _ c next _ _ _ _ _ _ ih => exact (ih h).skip ['\\', c]
  case case20 _ c next _ _ _ _ _ _ ih => exact htake ['\\', c] (by simp) ih h
  case case21 ih => exact htake [_] (by simp) ih h

/-- The digits of a code are no line ends. -/
theorem lineEnd_not_mem_of_codePoint? {digits : List Char} {c : Char} (h : codePoint? digits = some c) : '\n' ∉ digits := by
  have hread {n : Nat} (h : (digits.foldlM (fun n c => (hexValue? c).map (16 * n + ·)) n).isSome = true) : '\n' ∉ digits := by
    clear * - h
    induction digits generalizing n with
    | nil => simp
    | cons d digits ih =>
      rw [List.foldlM_cons] at h
      cases hd : hexValue? d with
      | none => simp [hd] at h
      | some value =>
        simp only [hd, Option.map_some] at h
        refine List.not_mem_cons_of_ne_of_not_mem ?_ (ih h)
        rintro rfl
        cases hd
  refine hread (n := 0) ?_
  rw [codePoint?] at h
  split at h
  · rename_i hsome
    exact Option.isSome_iff_exists.2 ⟨_, hsome⟩
  · cases h

/-- A text was read from one line up to the closing quote, and from more characters than it has unless it stands for itself. -/
def ReadLine (cs text rest : List Char) : Prop :=
  ∃ used, cs = used ++ '"' :: rest ∧ '\n' ∉ used ∧ (used = text ∧ Verbatim text ∨ text.length < used.length)

namespace ReadLine

theorem nil (rest : List Char) : ReadLine ('"' :: rest) [] rest := ⟨[], rfl, by simp, Or.inl ⟨rfl, by simp [Verbatim]⟩⟩

theorem plain {c : Char} (hvisible : isVisible c = true) (hquote : c ≠ '"') (hbackslash : c ≠ '\\') (h : ReadLine cs text rest) :
    ReadLine (c :: cs) (c :: text) rest := by
  obtain ⟨used, rfl, hline, hused⟩ := h
  refine ⟨c :: used, rfl, ?_, hused.imp ?_ (fun h => by simpa using h)⟩
  · simpa using ⟨(ne_lineEnd_of_isVisible hvisible).1.symm, hline⟩
  · rintro ⟨rfl, hverbatim⟩
    exact ⟨rfl, List.forall_mem_cons.2 ⟨⟨hvisible, hquote, hbackslash⟩, hverbatim⟩⟩

/-- An escape is longer than its character. -/
theorem escape {front : List Char} (hfront : 2 ≤ front.length) (hline : '\n' ∉ front) (c : Char) (h : ReadLine cs text rest) :
    ReadLine (front ++ cs) (c :: text) rest := by
  obtain ⟨used, rfl, hused, hlength⟩ := h
  refine ⟨front ++ used, (List.append_assoc ..).symm, by simpa using ⟨hline, hused⟩, Or.inr ?_⟩
  have hle : text.length ≤ used.length := hlength.elim (fun h => h.1 ▸ Nat.le_refl _) Nat.le_of_lt
  rw [List.length_append, List.length_cons]
  omega

end ReadLine

theorem readBasic_eq_some (h : readBasic cs = some (text, rest)) : ReadLine cs text rest := by
  fun_induction readBasic cs generalizing text
  case case1 | case7 => cases h
  case case2 =>
    cases h
    exact .nil _
  case case3 a b c d next ih =>
    obtain ⟨code, text, hcode, hmore, rfl⟩ := prepend_eq_some h
    have hline : '\n' ∉ ['\\', 'u', a, b, c, d] := by simpa using lineEnd_not_mem_of_codePoint? hcode
    exact (ih hmore).escape (by simp) hline code
  case case4 a b c d w x y z next ih =>
    obtain ⟨code, text, hcode, hmore, rfl⟩ := prepend_eq_some h
    have hline : '\n' ∉ ['\\', 'U', a, b, c, d, w, x, y, z] := by simpa using lineEnd_not_mem_of_codePoint? hcode
    exact (ih hmore).escape (by simp) hline code
  case case5 letter next _ _ ih =>
    obtain ⟨code, text, hcode, hmore, rfl⟩ := prepend_eq_some h
    have hline : '\n' ∉ ['\\', letter] := by simpa [eq_comm] using (shortEscape?_letter hcode).2.2.2.2.2
    exact (ih hmore).escape (by simp) hline code
  case case6 c next hquote _ _ _ hvisible ih =>
    obtain ⟨d, text, hd, hmore, rfl⟩ := prepend_eq_some h
    obtain rfl := Option.some.inj hd
    obtain ⟨hsees, hbackslash⟩ : isVisible c = true ∧ c ≠ '\\' := by simpa using hvisible
    exact (ih hmore).plain hsees hquote hbackslash

/-! ## A text as it is -/

theorem dropLineEnd_suffix (cs : List Char) : dropLineEnd cs <:+ cs := by
  rw [dropLineEnd.eq_def]
  split
  · exact List.suffix_append ['\r', '\n'] _
  · exact List.suffix_append ['\n'] _
  · exact List.suffix_rfl

/-- Three opening quotes are closed on a line behind the text, or by three quotes that leave less than the text. -/
theorem readQuoted_multi_ne {more : List Char} (htail : ¬ ['"', '"', '"'] <:+: tail)
    (hmore : cs ++ '"' :: '\n' :: tail = '"' :: '"' :: more) : readMultiBasic .text (dropLineEnd more) ≠ some (cs, rest) := by
  intro h
  obtain ⟨front, hfront⟩ := dropLineEnd_suffix more
  obtain ⟨used, hused, hlength⟩ := readMultiBasic_eq_some h
  have hsplit : cs ++ '"' :: '\n' :: tail = ('"' :: '"' :: (front ++ used)) ++ (['"', '"', '"'] ++ rest) := by
    rw [hmore, ← hfront, hused]
    simp
  rcases List.append_eq_append_iff.1 hsplit with ⟨between, hahead, hback⟩ | ⟨between, hcs, -⟩
  · have hlengths := congrArg List.length hahead
    simp only [List.length_cons, List.length_append] at hlengths
    rcases between with _ | ⟨a, _ | ⟨b, between⟩⟩
    · simp at hlengths
      omega
    · simp at hlengths
      omega
    · have htail' : tail = between ++ (['"', '"', '"'] ++ rest) := (List.cons.inj (List.cons.inj hback).2).2
      exact htail ⟨between, rest, by rw [htail', List.append_assoc]⟩
  · have hlengths := congrArg List.length hcs
    simp only [List.length_cons, List.length_append] at hlengths
    omega

/-- One opening quote is closed in the text, at its end, or not on its line. -/
theorem verbatim_of_readBasic (h : readBasic (cs ++ '"' :: '\n' :: tail) = some (cs, rest)) : Verbatim cs := by
  obtain ⟨used, hsplit, hline, ⟨rfl, hverbatim⟩ | hlength⟩ := readBasic_eq_some h
  · exact hverbatim
  · exfalso
    rcases List.append_eq_append_iff.1 hsplit with ⟨between, rfl, hback⟩ | ⟨between, rfl, -⟩
    · rcases between with _ | ⟨a, _ | ⟨b, between⟩⟩
      · simp at hlength
      · simp at hback
      · obtain rfl : '\n' = b := (List.cons.inj (List.cons.inj hback).2).1
        simp at hline
    · rw [List.length_append] at hlength
      omega

theorem readQuoted_verbatim (h : Verbatim cs) (tail : List Char) :
    readQuoted ('"' :: (cs ++ '"' :: '\n' :: tail)) = some (cs, '\n' :: tail) := by
  have hsingle : readQuoted ('"' :: (cs ++ '"' :: '\n' :: tail)) = readBasic (cs ++ '"' :: '\n' :: tail) := by
    refine readQuoted.eq_2 _ fun more hmore => ?_
    cases cs with
    | nil => simp at hmore
    | cons c cs => exact (h c List.mem_cons_self).2.1 (List.cons.inj hmore).1
  rw [hsingle, readBasic_verbatim h]

/-- What is read back as it is stands for itself, if no three quotes follow on the next lines. -/
theorem verbatim_of_readQuoted (htail : ¬ ['"', '"', '"'] <:+: tail)
    (h : readQuoted ('"' :: (cs ++ '"' :: '\n' :: tail)) = some (cs, rest)) : Verbatim cs := by
  by_cases hmulti : ∃ more, cs ++ '"' :: '\n' :: tail = '"' :: '"' :: more
  · obtain ⟨more, hmore⟩ := hmulti
    rw [hmore] at h
    exact absurd h (readQuoted_multi_ne htail hmore)
  · rw [readQuoted.eq_2 _ fun more hmore => hmulti ⟨more, hmore⟩] at h
    exact verbatim_of_readBasic h

end AccelFirmware.Toml
