import AccelFirmware.Literal.Define
import AccelFirmware.Proofs.NumberFields
import Mathlib.Algebra.Order.Floor.Div

/-!
# Bodies of array literals

The text between the braces of an array literal is read back: its lines have as many elements as the wrap width, and at its commas
it comes apart into the elements in their order.
-/

namespace AccelFirmware

namespace ArrayLiteral

/-! ## Reading -/

/-- Drops what stands between a comma and the element behind it: a blank, and the rest of a line break if the line ends there. -/
def dropGap : List Char → List Char
  | ' ' :: '\\' :: '\n' :: ' ' :: ' ' :: piece => piece
  | ' ' :: piece => piece
  | piece => piece

/-- Whether there is more between two commas than blanks and the backslash of a line end. -/
def holdsElement (piece : List Char) : Bool := piece.any fun c => c != ' ' && c != '\\'

/-- The elements in a text, which is split at its commas. -/
def readElements (text : List Char) : List (List Char) :=
  match text.splitOn ',' with
  | [] => []
  | first :: pieces => (first :: pieces.map dropGap).filter holdsElement

/-- A text that cannot be taken for a separator, nor for a part of one. -/
structure IsElement (text : List Char) : Prop where
  comma : ',' ∉ text
  backslash : '\\' ∉ text
  feed : '\n' ∉ text
  holds : holdsElement text = true

theorem IsElement.dropGap_blank {text : List Char} (h : IsElement text) : dropGap (' ' :: text) = text := by
  rw [dropGap.eq_def]
  split
  · rename_i piece heq
    cases heq
    exact absurd (by simp) h.backslash
  · rename_i piece _ heq
    exact (List.cons.inj heq).2.symm
  · rename_i hno
    exact absurd rfl (hno text)

theorem readElements_eq {text first : List Char} {pieces : List (List Char)} (h : text.splitOn ',' = first :: pieces) :
    readElements text = (first :: pieces.map dropGap).filter holdsElement := by
  rw [readElements, h]

/-- The comma and the backslash at the end of a line are no element. -/
theorem readElements_continued (text : List Char) : readElements (text ++ [',', ' ', '\\']) = readElements text := by
  obtain ⟨first, pieces, hsplit⟩ := List.exists_cons_of_ne_nil (List.splitOn_ne_nil ',' text)
  have hend : [' ', '\\'].splitOn ',' = [[' ', '\\']] := List.splitOn_eq_singleton (by decide)
  have hlonger : (text ++ ',' :: [' ', '\\']).splitOn ',' = first :: (pieces ++ [[' ', '\\']]) := by
    rw [List.splitOn_append_cons_self, hsplit, hend, List.cons_append]
  have hnone : holdsElement (dropGap [' ', '\\']) = false := by decide
  rw [readElements_eq hlonger, readElements_eq hsplit, List.map_append, ← List.cons_append, List.filter_append]
  simp [hnone]

/-! ## Elements behind the first one -/

/-- What stands behind the comma after the `n`-th element. -/
def gap (wrapWidth n : Nat) : List Char := if n % wrapWidth = 0 then [' ', '\\', '\n', ' ', ' '] else [' ']

/-- The elements behind the `n`-th one, with what stands in front of each of them. -/
def followers (f : ElementFormat) (wrapWidth : Nat) : Nat → List Int → List Char
  | _, [] => []
  | n, v :: vs => ',' :: (gap wrapWidth n ++ (f.format v).toList ++ followers f wrapWidth (n + 1) vs)

variable {f : ElementFormat} {wrapWidth : Nat}

theorem toList_separator (wrapWidth n : Nat) : (separator wrapWidth n).toList = ',' :: gap wrapWidth n := by
  rw [separator, gap]
  split <;> rfl

theorem toList_elements (f : ElementFormat) (wrapWidth : Nat) (v : Int) (vs : List Int) (n : Nat) :
    (elements f wrapWidth n (v :: vs)).toList = (f.format v).toList ++ followers f wrapWidth n vs := by
  induction vs generalizing v n with
  | nil => simp [elements, followers]
  | cons w vs ih => simp [elements, followers, toList_separator, ih]

theorem followers_append (us vs : List Int) (n : Nat) :
    followers f wrapWidth n (us ++ vs) = followers f wrapWidth n us ++ followers f wrapWidth (n + us.length) vs := by
  induction us generalizing n with
  | nil => rfl
  | cons u us ih => simp [followers, ih, Nat.add_assoc, Nat.add_comm 1]

theorem IsElement.dropGap_gap {text : List Char} (h : IsElement text) (n : Nat) : dropGap (gap wrapWidth n ++ text) = text := by
  rw [gap]
  split
  · rfl
  · exact h.dropGap_blank

theorem splitOn_followers (hf : ∀ v, IsElement (f.format v).toList) (wrapWidth : Nat) {first : List Char} (hfirst : ',' ∉ first)
    (vs : List Int) (n : Nat) : ∃ pieces, (first ++ followers f wrapWidth n vs).splitOn ',' = first :: pieces ∧
      pieces.map dropGap = vs.map fun v => (f.format v).toList := by
  induction vs generalizing first n with
  | nil => exact ⟨[], by rw [followers, List.append_nil, List.splitOn_eq_singleton hfirst], rfl⟩
  | cons v vs ih =>
    have hgap : ',' ∉ gap wrapWidth n ++ (f.format v).toList := by
      rw [List.mem_append, not_or, gap]
      exact ⟨by split <;> decide, (hf v).comma⟩
    obtain ⟨pieces, hsplit, hpieces⟩ := ih hgap (n + 1)
    refine ⟨_ :: pieces, by rw [followers, List.splitOn_append_cons_self_of_not_mem hfirst, hsplit], ?_⟩
    rw [List.map_cons, List.map_cons, hpieces, (hf v).dropGap_gap]

theorem readElements_followers (hf : ∀ v, IsElement (f.format v).toList) {first : List Char} (hfirst : ',' ∉ first)
    (hholds : holdsElement first = true) (vs : List Int) (n : Nat) :
    readElements (first ++ followers f wrapWidth n vs) = first :: vs.map fun v => (f.format v).toList := by
  obtain ⟨pieces, hsplit, hpieces⟩ := splitOn_followers hf wrapWidth hfirst vs n
  rw [readElements_eq hsplit, hpieces, List.filter_eq_self]
  refine List.forall_mem_cons.2 ⟨hholds, fun text htext => ?_⟩
  obtain ⟨v, -, rfl⟩ := List.mem_map.1 htext
  exact (hf v).holds

theorem readElements_elements (hf : ∀ v, IsElement (f.format v).toList) (n : Nat) (vs : List Int) :
    readElements (elements f wrapWidth n vs).toList = vs.map fun v => (f.format v).toList := by
  cases vs with
  | nil => rfl
  | cons v vs => rw [toList_elements, readElements_followers hf (hf v).comma (hf v).holds, List.map_cons]

/-! ## Lines -/

/-- Lines that hold some number of elements: as many on each line as the wrap width, at most as many on the last one. -/
inductive Wrapped (wrapWidth : Nat) : Nat → List (List Char) → Prop
  | last {count : Nat} {line : List Char} (elements : (readElements line).length = count) (fits : count ≤ wrapWidth) :
      Wrapped wrapWidth count [line]
  | more {count : Nat} {line : List Char} {lines : List (List Char)} (elements : (readElements line).length = wrapWidth)
      (ends : line.getLast? = some '\\') (some : 0 < count) (rest : Wrapped wrapWidth count lines) :
      Wrapped wrapWidth (wrapWidth + count) (line :: lines)

theorem ceilDiv_add (hw : 0 < wrapWidth) (count : Nat) : (wrapWidth + count) ⌈/⌉ wrapWidth = count ⌈/⌉ wrapWidth + 1 := by
  rw [Nat.ceilDiv_eq_add_pred_div, Nat.ceilDiv_eq_add_pred_div, ← Nat.add_div_right _ hw]
  congr 1
  omega

theorem ceilDiv_sub_one_of_le (hw : 0 < wrapWidth) {count : Nat} (h : count ≤ wrapWidth) : count ⌈/⌉ wrapWidth - 1 = 0 := by
  have hone : count ⌈/⌉ wrapWidth ≤ 1 := (ceilDiv_le_iff_le_mul hw).2 (by simpa using h)
  omega

theorem ceilDiv_pos (hw : 0 < wrapWidth) {count : Nat} (h : 0 < count) : 0 < count ⌈/⌉ wrapWidth := by
  rw [Nat.pos_iff_ne_zero]
  intro hzero
  have hle : count ≤ wrapWidth * 0 := (ceilDiv_le_iff_le_mul hw).1 (Nat.le_of_eq hzero)
  omega

namespace Wrapped

variable {count : Nat} {lines : List (List Char)}

theorem ne_nil (h : Wrapped wrapWidth count lines) : lines ≠ [] := by
  cases h <;> exact List.cons_ne_nil _ _

theorem length_sub_one (h : Wrapped wrapWidth count lines) (hw : 0 < wrapWidth) :
    lines.length - 1 = count ⌈/⌉ wrapWidth - 1 := by
  induction h with
  | last _ fits => rw [ceilDiv_sub_one_of_le hw fits, List.length_singleton]
  | more _ _ some rest ih =>
    have hlength := List.length_pos_iff.2 rest.ne_nil
    have hcount := ceilDiv_pos hw some
    rw [ceilDiv_add hw, List.length_cons]
    omega

theorem full (h : Wrapped wrapWidth count lines) :
    ∀ line ∈ lines.dropLast, (readElements line).length = wrapWidth ∧ line.getLast? = some '\\' := by
  induction h with
  | last => simp
  | more helements hends _ hrest ih =>
    rw [List.dropLast_cons_of_ne_nil hrest.ne_nil]
    exact List.forall_mem_cons.2 ⟨⟨helements, hends⟩, ih⟩

theorem remainder (h : Wrapped wrapWidth count lines) (hw : 0 < wrapWidth) :
    ∀ line ∈ lines.getLast?, (readElements line).length = count - wrapWidth * (count ⌈/⌉ wrapWidth - 1) := by
  induction h with
  | last elements fits =>
    intro line hline
    rw [List.getLast?_singleton, Option.mem_some_iff] at hline
    rw [← hline, ceilDiv_sub_one_of_le hw fits, elements, Nat.mul_zero, Nat.sub_zero]
  | @more count line lines _ _ some rest ih =>
    intro last hlast
    rw [List.getLast?_cons_of_ne_nil rest.ne_nil] at hlast
    have hcount : 1 ≤ count ⌈/⌉ wrapWidth := ceilDiv_pos hw some
    have hless : wrapWidth * (count ⌈/⌉ wrapWidth - 1) + wrapWidth = wrapWidth * (count ⌈/⌉ wrapWidth) := by
      rw [← Nat.mul_add_one, Nat.sub_add_cancel hcount]
    rw [ih last hlast, ceilDiv_add hw, Nat.add_sub_cancel]
    omega

end Wrapped

theorem feed_notMem_followers (hf : ∀ v, IsElement (f.format v).toList) {vs : List Int} {n : Nat}
    (h : ∀ j < vs.length, (n + j) % wrapWidth ≠ 0) : '\n' ∉ followers f wrapWidth n vs := by
  induction vs generalizing n with
  | nil => simp [followers]
  | cons v vs ih =>
    have hgap : gap wrapWidth n = [' '] := if_neg (h 0 (by simp))
    have hrest : '\n' ∉ followers f wrapWidth (n + 1) vs := ih fun j hj => by
      rw [Nat.add_assoc, Nat.add_comm 1]
      exact h (j + 1) (by simpa using hj)
    simp [followers, hgap, (hf v).feed, hrest]

theorem exists_full_line (hw : 0 < wrapWidth) {vs : List Int} (h : wrapWidth ≤ vs.length) :
    ∃ us v rest, vs = us ++ v :: rest ∧ us.length + 1 = wrapWidth := by
  have hsome : vs.drop (wrapWidth - 1) ≠ [] := by
    rw [Ne, List.drop_eq_nil_iff]
    omega
  obtain ⟨v, rest, hdrop⟩ := List.exists_cons_of_ne_nil hsome
  refine ⟨vs.take (wrapWidth - 1), v, rest, by rw [← hdrop, List.take_append_drop], ?_⟩
  rw [List.length_take]
  omega

/-- From the start of a line on. -/
theorem wrapped_followers (hf : ∀ v, IsElement (f.format v).toList) (hw : 0 < wrapWidth) {first : List Char}
    (hcomma : ',' ∉ first) (hfeed : '\n' ∉ first) (hholds : holdsElement first = true) (q : Nat) (vs : List Int) :
    Wrapped wrapWidth (vs.length + 1) ((first ++ followers f wrapWidth (wrapWidth * q + 1) vs).splitOn '\n') := by
  have hinside {us : List Int} (hus : us.length < wrapWidth) :
      '\n' ∉ first ++ followers f wrapWidth (wrapWidth * q + 1) us := by
    rw [List.mem_append, not_or]
    refine ⟨hfeed, feed_notMem_followers hf fun j hj => ?_⟩
    rw [Nat.add_assoc, Nat.mul_add_mod, Nat.mod_eq_of_lt (by omega)]
    omega
  have hcount (us : List Int) : (readElements (first ++ followers f wrapWidth (wrapWidth * q + 1) us)).length = us.length + 1 := by
    rw [readElements_followers hf hcomma hholds, List.length_cons, List.length_map]
  by_cases hshort : vs.length < wrapWidth
  · rw [List.splitOn_eq_singleton (hinside hshort)]
    exact .last (hcount vs) hshort
  · -- The line is full before the element that its break stands in front of.
    obtain ⟨us, v, rest, rfl, hus⟩ := exists_full_line hw (not_lt.1 hshort)
    have hplace : wrapWidth * q + 1 + us.length = wrapWidth * (q + 1) := by
      rw [Nat.mul_add_one]
      omega
    have htext : first ++ followers f wrapWidth (wrapWidth * q + 1) (us ++ v :: rest) =
        (first ++ followers f wrapWidth (wrapWidth * q + 1) us ++ [',', ' ', '\\']) ++
          '\n' :: ([' ', ' '] ++ (f.format v).toList ++ followers f wrapWidth (wrapWidth * (q + 1) + 1) rest) := by
      simp [followers_append, followers, hplace, gap]
    have hline : '\n' ∉ first ++ followers f wrapWidth (wrapWidth * q + 1) us ++ [',', ' ', '\\'] := by
      rw [List.mem_append, not_or]
      exact ⟨hinside (by omega), by decide⟩
    have hindent : ',' ∉ [' ', ' '] ++ (f.format v).toList := by simp [(hf v).comma]
    have hrest := wrapped_followers hf hw hindent (by simp [(hf v).feed]) (by simp [holdsElement, ← (hf v).holds]) (q + 1) rest
    rw [htext, List.splitOn_append_cons_self_of_not_mem hline]
    have hlength : (us ++ v :: rest).length + 1 = wrapWidth + (rest.length + 1) := by
      simp only [List.length_append, List.length_cons]
      omega
    rw [hlength]
    refine .more ?_ (by simp) (by omega) hrest
    rw [readElements_continued, hcount, hus]
termination_by vs.length

theorem wrapped_elements (hf : ∀ v, IsElement (f.format v).toList) (hw : 0 < wrapWidth) (vs : List Int) :
    Wrapped wrapWidth vs.length ((elements f wrapWidth 1 vs).toList.splitOn '\n') := by
  cases vs with
  | nil => exact .last rfl (Nat.zero_le _)
  | cons v vs =>
    rw [toList_elements]
    exact wrapped_followers hf hw (hf v).comma (hf v).feed (hf v).holds 0 vs

/-- Lines are split as often as there are line feeds. -/
theorem count_feed (text : List Char) : text.count '\n' = (text.splitOn '\n').length - 1 := by
  induction text with
  | nil => rfl
  | cons c text ih =>
    have hsome := List.length_pos_iff.2 (List.splitOn_ne_nil '\n' text)
    rw [List.splitOn_cons_eq_if_modifyHead, List.count_cons, ih]
    split
    · rw [List.length_cons]
      omega
    · rw [List.length_modifyHead]
      omega

/-! ## Formatted elements -/

theorem isElement_format {f : ElementFormat} (hcomma : ',' ∉ f.leading.toList) (hbackslash : '\\' ∉ f.leading.toList)
    (hfeed : '\n' ∉ f.leading.toList) (value : Int) : IsElement (f.format value).toList := by
  have htext : (f.format value).toList = f.leading.toList ++ f.number.format value := by simp [ElementFormat.format]
  have hno {c : Char} (hleading : c ∉ f.leading.toList) (hnumber : c ∉ f.number.format value) :
      c ∉ (f.format value).toList := by
    rw [htext, List.mem_append, not_or]
    exact ⟨hleading, hnumber⟩
  obtain ⟨c, hc, hdigit⟩ := f.number.exists_digit_format value
  refine ⟨hno hcomma (NumberFormat.not_mem_format (by decide) (by decide) rfl),
    hno hbackslash (NumberFormat.not_mem_format (by decide) (by decide) rfl),
    hno hfeed (NumberFormat.not_mem_format (by decide) (by decide) rfl), ?_⟩
  rw [holdsElement, List.any_eq_true]
  refine ⟨c, by rw [htext, List.mem_append]; exact Or.inr hc, ?_⟩
  have hblank : c ≠ ' ' := Radix.ne_of_isDigit hdigit rfl
  have hback : c ≠ '\\' := Radix.ne_of_isDigit hdigit rfl
  simp [hblank, hback]

theorem defineArray_eq_ok {descriptor : String} (hf : ElementFormat.parse descriptor = .ok f) (hw : 0 < wrapWidth) (name : String)
    (values : List Int) : defineArray name values descriptor wrapWidth =
      .ok ("#define " ++ name ++ " \x7b \\\n  " ++ String.ofList (elements f wrapWidth 1 values).toList ++ " \\\n\x7d\n") := by
  simp [defineArray, make, hf, Nat.ne_of_gt hw, Except.map, define]

/-- An array literal whose descriptor is accepted is a body between braces. In the body a line ends behind as many elements as the
wrap width, if others follow, and at its commas it comes apart into the elements in their order. Of every element, what stands
behind the leading text is a field as wide as is asked for or needed, from which the value is read back. -/
theorem define_reads_back {descriptor : String} {f : ElementFormat} {wrapWidth : Nat} (hf : ElementFormat.parse descriptor = .ok f)
    (hcomma : ',' ∉ f.leading.toList) (hbackslash : '\\' ∉ f.leading.toList) (hfeed : '\n' ∉ f.leading.toList)
    (hw : 0 < wrapWidth) (name : String) (values : List Int) :
    ∃ body, defineArray name values descriptor wrapWidth =
        .ok ("#define " ++ name ++ " \x7b \\\n  " ++ String.ofList body ++ " \\\n\x7d\n") ∧
      body.count '\n' = values.length ⌈/⌉ wrapWidth - 1 ∧
      (∀ line ∈ (body.splitOn '\n').dropLast, (readElements line).length = wrapWidth ∧ line.getLast? = some '\\') ∧
      (∀ line ∈ (body.splitOn '\n').getLast?,
        (readElements line).length = values.length - wrapWidth * (values.length ⌈/⌉ wrapWidth - 1)) ∧
      readElements body = values.map (fun v => (f.format v).toList) ∧
      ∀ value, ∃ field, (f.format value).toList = f.leading.toList ++ field ∧
        field.length = max f.number.width (NumberFormat.bare f.number.radix value).length ∧
        NumberFormat.readField f.number.radix field = some value := by
  have helement := isElement_format hcomma hbackslash hfeed
  have hlines := wrapped_elements helement hw values
  refine ⟨(elements f wrapWidth 1 values).toList, defineArray_eq_ok hf hw name values, ?_, hlines.full, hlines.remainder hw,
    readElements_elements helement 1 values, fun value => ⟨f.number.format value, ?_, f.number.length_format value,
      f.number.readField_format value⟩⟩
  · rw [count_feed, hlines.length_sub_one hw]
  · simp [ElementFormat.format]

/-- The least signed word of eight bytes, in a field that is too narrow for it, on the first of two lines. -/
theorem define_reads_back_wrapped : ElementFormat.parse "0x%05X" = .ok ⟨"0x", ⟨true, 5, .upperHex⟩⟩ ∧
    ∃ body, defineArray "A" [-9223372036854775808, 7, 0] "0x%05X" 2 =
        .ok ("#define " ++ "A" ++ " \x7b \\\n  " ++ String.ofList body ++ " \\\n\x7d\n") ∧
      body.count '\n' = 1 ∧
      (∀ line ∈ (body.splitOn '\n').dropLast, (readElements line).length = 2) ∧
      (∀ line ∈ (body.splitOn '\n').getLast?, (readElements line).length = 1) ∧
      (readElements body).map (fun text => NumberFormat.readField .upperHex (text.drop 2)) =
        [some (-9223372036854775808), some 7, some 0] := by
  refine ⟨rfl, ?_⟩
  obtain ⟨body, hbody, hbreaks, hfull, hlast, hread, hfields⟩ :=
    define_reads_back (show ElementFormat.parse "0x%05X" = .ok ⟨"0x", ⟨true, 5, .upperHex⟩⟩ from rfl) (by decide) (by decide)
      (by decide) (show 0 < 2 by decide) "A" [-9223372036854775808, 7, 0]
  have hvalue (value : Int) : NumberFormat.readField .upperHex
      ((ElementFormat.format ⟨"0x", ⟨true, 5, .upperHex⟩⟩ value).toList.drop 2) = some value := by
    obtain ⟨field, htext, -, hfield⟩ := hfields value
    rw [htext]
    exact hfield
  refine ⟨body, hbody, hbreaks, fun line hline => (hfull line hline).1, hlast, ?_⟩
  simp [hread, hvalue]

end ArrayLiteral

end AccelFirmware
