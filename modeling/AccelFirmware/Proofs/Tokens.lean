import AccelFirmware.Proofs.Inlining
import AccelFirmware.Proofs.Numerals

/-!
# Words in texts

Which words a text has. Numerals are part of the words around them, so a word without digits is the same with any numeral in its
neighbourhood: texts are compared with zeros in the place of their numerals.
-/

namespace AccelFirmware

def hasWord (word text : String) : Bool := (tokens text.toList).contains (.word word.toList)

/-! ## Numerals -/

/-- Digits of decimal and of lower-case hexadecimal numerals. -/
def isNumeralChar (c : Char) : Bool := c.isDigit || ('a' ≤ c && c ≤ 'f')

/-- Two texts that are alike but for their numerals, which are zeros in the second one. -/
inductive Blurs : List Char → List Char → Prop
  | nil : Blurs [] []
  | same (c : Char) {cs ds : List Char} (h : Blurs cs ds) : Blurs (c :: cs) (c :: ds)
  | digit {c : Char} {cs ds : List Char} (hc : isNumeralChar c = true) (h : Blurs cs ds) : Blurs (c :: cs) ('0' :: ds)
  | more {c : Char} {cs ds : List Char} (hc : isNumeralChar c = true) (h : Blurs cs ('0' :: ds)) :
      Blurs (c :: cs) ('0' :: ds)

namespace Blurs

theorem refl : (cs : List Char) → Blurs cs cs
  | [] => .nil
  | c :: cs => .same c (refl cs)

theorem append {as bs cs ds : List Char} (h : Blurs as bs) (h' : Blurs cs ds) : Blurs (as ++ cs) (bs ++ ds) := by
  induction h with
  | nil => exact h'
  | same c _ ih => exact .same c ih
  | digit hc _ ih => exact .digit hc ih
  | more hc _ ih => exact .more hc ih

theorem of_numeral {cs : List Char} (hne : cs ≠ []) (h : ∀ c ∈ cs, isNumeralChar c = true) : Blurs cs ['0'] := by
  induction cs with
  | nil => exact absurd rfl hne
  | cons c cs ih =>
    have hc := h c (by simp)
    cases cs with
    | nil => exact .digit hc .nil
    | cons d cs => exact .more hc (ih (by simp) fun e he => h e (by simp [he]))

end Blurs

/-- Where nothing is a numeral, nothing is blurred. -/
theorem eq_of_blurs {cs ds : List Char} (h : Blurs cs ds) (hc : cs.any isNumeralChar = false) : cs = ds := by
  induction h with
  | nil => rfl
  | same c _ ih =>
    rw [List.any_cons, Bool.or_eq_false_iff] at hc
    rw [ih hc.2]
  | digit hd _ _ | more hd _ _ =>
    rw [List.any_cons, hd] at hc
    cases hc

namespace Token

/-- The same mark, or two words that are alike but for their numerals. -/
inductive Alike : Token → Token → Prop
  | word {v w : List Char} (h : Blurs v w) : Alike (.word v) (.word w)
  | mark (c : Char) : Alike (.mark c) (.mark c)

/-- Puts a character of a word in front of tokens. -/
def extend (c : Char) : List Token → List Token
  | .word name :: rest => .word (c :: name) :: rest
  | rest => .word [c] :: rest

theorem tokens_cons {c : Char} (hc : isWordChar c = true) (cs : List Char) : tokens (c :: cs) = extend c (tokens cs) := by
  rw [tokens, if_pos hc]
  rfl

theorem isWordChar_of_isNumeralChar {c : Char} (h : isNumeralChar c = true) : isWordChar c = true := by
  have hparts : isWordChar c = (((c.isUpper || (decide ('a' ≤ c) && decide (c ≤ 'z'))) || c.isDigit) || decide (c = '_')) := rfl
  simp only [isNumeralChar, Bool.or_eq_true, Bool.and_eq_true, decide_eq_true_eq] at h
  simp only [hparts, Bool.or_eq_true, Bool.and_eq_true, decide_eq_true_eq]
  rcases h with h | ⟨hle, hge⟩
  · exact Or.inl (Or.inr h)
  · exact Or.inl (Or.inl (Or.inr ⟨hle, Char.le_trans hge (by decide)⟩))

theorem alike_extend {ts us : List Token} (h : List.Forall₂ Alike ts us) {c d : Char}
    (hc : ∀ v w, Blurs v w → Blurs (c :: v) (d :: w)) : List.Forall₂ Alike (extend c ts) (extend d us) := by
  cases h with
  | nil => exact .cons (.word (hc _ _ .nil)) .nil
  | cons hhead hrest =>
    cases hhead with
    | word hvw => exact .cons (.word (hc _ _ hvw)) hrest
    | mark m => exact .cons (.word (hc _ _ .nil)) (.cons (.mark m) hrest)

/-- More digits in front of a numeral change nothing. -/
theorem alike_extend_zero {ts us : List Token} (h : List.Forall₂ Alike ts (extend '0' us)) {c : Char}
    (hc : isNumeralChar c = true) : List.Forall₂ Alike (extend c ts) (extend '0' us) := by
  -- The zero has begun a word on its side, and the digit is one more in the word on the other.
  obtain ⟨w, rest, hus⟩ : ∃ w rest, extend '0' us = .word ('0' :: w) :: rest := by
    cases us with
    | nil => exact ⟨_, _, rfl⟩
    | cons u us => cases u <;> exact ⟨_, _, rfl⟩
  rw [hus] at h ⊢
  cases h with
  | cons hhead hrest =>
    cases hhead with
    | word hvw => exact .cons (.word (.more hc hvw)) hrest

end Token

theorem Blurs.tokens {cs ds : List Char} (h : Blurs cs ds) : List.Forall₂ Token.Alike (tokens cs) (tokens ds) := by
  have hzero : isWordChar '0' = true := rfl
  -- From the end of the text: a character is put in front of tokens that are alike already.
  induction h with
  | nil => exact .nil
  | same c _ ih =>
    cases hc : isWordChar c with
    | false =>
      simp only [AccelFirmware.tokens, hc, Bool.false_eq_true, if_false]
      exact .cons (.mark c) ih
    | true =>
      rw [Token.tokens_cons hc, Token.tokens_cons hc]
      exact Token.alike_extend ih fun _ _ => .same c
  | digit hc _ ih =>
    rw [Token.tokens_cons (Token.isWordChar_of_isNumeralChar hc), Token.tokens_cons hzero]
    exact Token.alike_extend ih fun _ _ => .digit hc
  | more hc _ ih =>
    rw [Token.tokens_cons hzero] at ih ⊢
    rw [Token.tokens_cons (Token.isWordChar_of_isNumeralChar hc)]
    exact Token.alike_extend_zero ih hc

/-- Every word is one of the blurred text, but for its numerals. -/
theorem Blurs.exists_word {cs ds : List Char} (h : Blurs cs ds) {word : List Char}
    (hm : .word word ∈ AccelFirmware.tokens cs) : ∃ blurred, .word blurred ∈ AccelFirmware.tokens ds ∧ Blurs word blurred := by
  have hmem {ts us : List Token} (h : List.Forall₂ Token.Alike ts us) (hm : .word word ∈ ts) :
      ∃ blurred, .word blurred ∈ us ∧ Blurs word blurred := by
    induction h with
    | nil => cases hm
    | cons hhead _ ih =>
      rcases List.mem_cons.1 hm with rfl | hm
      · cases hhead with
        | word hvw => exact ⟨_, List.mem_cons_self, hvw⟩
      · obtain ⟨blurred, hm, hb⟩ := ih hm
        exact ⟨blurred, List.mem_cons_of_mem _ hm, hb⟩
  exact hmem h.tokens hm

/-- Words without digits are those of the blurred text. -/
theorem Blurs.mem_tokens {cs ds : List Char} (h : Blurs cs ds) {word : List Char} (hw : word.any isNumeralChar = false)
    (hm : .word word ∈ AccelFirmware.tokens cs) : .word word ∈ AccelFirmware.tokens ds := by
  obtain ⟨blurred, hm, hb⟩ := h.exists_word hm
  rwa [eq_of_blurs hb hw]

/-! ## Shapes -/

/-- A word with a zero in the place of every numeral in it. -/
def shape : List Char → List Char
  | [] => []
  | c :: cs =>
      if isNumeralChar c then
        match shape cs with
        | '0' :: rest => '0' :: rest
        | rest => '0' :: rest
      else c :: shape cs

theorem shape_numeral {c : Char} (hc : isNumeralChar c = true) (cs : List Char) : shape (c :: cs) = shape ('0' :: cs) := by
  simp [shape, hc, show isNumeralChar '0' = true from rfl]

theorem shape_zeros (cs : List Char) : shape ('0' :: '0' :: cs) = shape ('0' :: cs) := by
  have hzero : isNumeralChar '0' = true := rfl
  obtain ⟨rest, hrest⟩ : ∃ rest, shape ('0' :: cs) = '0' :: rest := by
    simp only [shape, hzero, if_true]
    split <;> exact ⟨_, rfl⟩
  rw [shape, if_pos hzero, hrest]
  rfl

/-- Words that are alike but for their numerals have the same shape. -/
theorem Blurs.shape_eq {cs ds : List Char} (h : Blurs cs ds) : shape cs = shape ds := by
  induction h with
  | nil => rfl
  | same c _ ih => rw [shape, shape, ih]
  | @digit c cs ds hc _ ih =>
    rw [shape_numeral hc, shape, shape, ih]
  | @more c cs ds hc _ ih =>
    have hzero : isNumeralChar '0' = true := rfl
    rw [shape_numeral hc, ← shape_zeros ds, shape, shape, if_pos hzero, if_pos hzero, ih]

/-- A text and its characters, with a zero in the place of every numeral. To the unifier a literal is the list of its characters,
so nothing has to be decoded. -/
inductive Blurred : String → List Char → Prop
  | decimal (n : Nat) : Blurred (decimal n) ['0']
  | hex (n : Nat) : Blurred (hex n) ['0']
  | hexWide (width n : Nat) : Blurred (hexWide width n) ['0']
  | append {a b : String} {as bs : List Char} (ha : Blurred a as) (hb : Blurred b bs) : Blurred (a ++ b) (as ++ bs)
  | literal {cs : List Char} : Blurred (String.ofList cs) cs

/-- Every radix but the one with upper-case letters writes its numbers in these digits. -/
theorem isNumeralChar_of_mem_write {r : Radix} (hr : r ≠ .upperHex) {n : Nat} {c : Char} (hc : c ∈ r.write n) :
    isNumeralChar c = true := by
  have hdigit : ∀ r ∈ [Radix.decimal, .lowerHex, .octal, .binary], ∀ d < r.base, isNumeralChar (r.digitChar d) = true := by
    decide
  have hbase : 2 ≤ r.base := by cases r <;> decide
  obtain ⟨d, hd, rfl⟩ := List.mem_map.1 hc
  exact hdigit r (by cases r <;> simp_all) d (digits_lt hbase n d hd)

theorem Blurred.blurs {text : String} {cs : List Char} (h : Blurred text cs) : Blurs text.toList cs := by
  induction h with
  | decimal n => simpa [AccelFirmware.decimal] using
    Blurs.of_numeral (write_ne_nil .decimal n) fun _ => isNumeralChar_of_mem_write (by decide)
  | hex n => simpa [AccelFirmware.hex] using
    Blurs.of_numeral (write_ne_nil .lowerHex n) fun _ => isNumeralChar_of_mem_write (by decide)
  | hexWide width n =>
    rw [AccelFirmware.hexWide, String.toList_ofList]
    refine Blurs.of_numeral (by simp [padLeft, write_ne_nil]) fun c hc => ?_
    rcases List.mem_append.1 hc with hc | hc
    · rw [(List.mem_replicate.1 hc).2]
      rfl
    · exact isNumeralChar_of_mem_write (by decide) hc
  | append _ _ iha ihb =>
    rw [String.toList_append]
    exact iha.append ihb
  | literal => simpa using Blurs.refl _

/-! ## Excluded words -/

/-- None of some words is in a text. -/
def Excludes (words : List String) (text : String) : Prop := ∀ word ∈ words, hasWord word text = false

def Token.isAmong (words : List (List Char)) : Token → Bool
  | .word name => words.contains name
  | .mark _ => false

theorem excludes_of_tokens {letters : List (List Char)} {text : String}
    (h : (tokens text.toList).any (Token.isAmong letters) = false) : Excludes (letters.map String.ofList) text := by
  intro word hword
  obtain ⟨name, hname, rfl⟩ := List.mem_map.1 hword
  rw [hasWord, ← Bool.not_eq_true, List.contains_iff_mem, String.toList_ofList]
  intro hm
  exact List.any_eq_false.1 h _ hm (by simpa [Token.isAmong] using hname)

/-- A text of literals and its characters. -/
inductive Written : String → List Char → Prop
  | append {a b : String} {as bs : List Char} (ha : Written a as) (hb : Written b bs) : Written (a ++ b) (as ++ bs)
  | literal {cs : List Char} : Written (String.ofList cs) cs

theorem Written.toList_eq {text : String} {cs : List Char} (h : Written text cs) : text.toList = cs := by
  induction h with
  | append _ _ iha ihb => rw [String.toList_append, iha, ihb]
  | literal => exact String.toList_ofList

theorem excludes_of_written {letters : List (List Char)} {text : String} {cs : List Char} (hw : Written text cs)
    (h : (tokens cs).any (Token.isAmong letters) = false) : Excludes (letters.map String.ofList) text :=
  excludes_of_tokens (by rw [hw.toList_eq]; exact h)

/-- Excluding words without digits from a text is a matter of the blurred text. -/
theorem excludes_of_blurred {letters : List (List Char)} {text : String} {cs : List Char}
    (hl : letters.all (fun word => !word.any isNumeralChar) = true) (hb : Blurred text cs)
    (h : (tokens cs).any (Token.isAmong letters) = false) : Excludes (letters.map String.ofList) text := by
  refine excludes_of_tokens (List.any_eq_false.2 fun t ht hamong => ?_)
  cases t with
  | mark c => cases hamong
  | word name =>
    have hname : name ∈ letters := by simpa [Token.isAmong] using hamong
    have hdigits : name.any isNumeralChar = false := by simpa using List.all_eq_true.1 hl name hname
    exact List.any_eq_false.1 h _ (hb.blurs.mem_tokens hdigits ht) hamong

def Token.isShapedLike (words : List (List Char)) : Token → Bool
  | .word name => words.any fun word => shape word == shape name
  | .mark _ => false

/-- Any words at all are excluded where the blurred text has no word of their shapes. -/
theorem excludes_of_shapes {letters : List (List Char)} {text : String} {cs : List Char} (hb : Blurred text cs)
    (h : (tokens cs).any (Token.isShapedLike letters) = false) : Excludes (letters.map String.ofList) text := by
  refine excludes_of_tokens (List.any_eq_false.2 fun t ht hamong => ?_)
  cases t with
  | mark c => cases hamong
  | word name =>
    obtain ⟨blurred, hm, hblurs⟩ := hb.blurs.exists_word ht
    have hname : name ∈ letters := by simpa [Token.isAmong] using hamong
    refine List.any_eq_false.1 h _ hm (List.any_eq_true.2 ⟨name, hname, ?_⟩)
    simpa using hblurs.shape_eq

/-- Literals without some words. -/
inductive Spelled (letters : List (List Char)) : List String → Prop
  | nil : Spelled letters []
  | cons {cs : List Char} {texts : List String} (h : (tokens cs).any (Token.isAmong letters) = false)
      (rest : Spelled letters texts) : Spelled letters (String.ofList cs :: texts)

theorem Spelled.excludes {letters : List (List Char)} {texts : List String} (h : Spelled letters texts) :
    ∀ text ∈ texts, Excludes (letters.map String.ofList) text := by
  induction h with
  | nil => simp
  | @cons cs texts h _ ih =>
    exact List.forall_mem_cons.2 ⟨excludes_of_tokens (by rw [String.toList_ofList]; exact h), ih⟩

end AccelFirmware
