import AccelFirmware.Proofs.NumberFields
import Mathlib.Data.List.TakeDrop
import Mathlib.Data.List.TakeWhile

/-!
# Format descriptors

The grammar of format descriptors: any text without a percent sign, the percent sign, the digits of a width and a letter. A
descriptor is accepted exactly if the grammar has it, and every format that can be asked for has a descriptor.
-/

namespace AccelFirmware

/-! ## Decimal widths -/

theorem readDecimal_eq_some_iff {text : List Char} {n : Nat} :
    readDecimal text = some n ↔ (∀ c ∈ text, c.isDigit = true) ∧ valueOf 10 text = n := by
  have hfold (h : ∀ c ∈ text, c.isDigit = true) :
      text.foldl (fun n c => 10 * n + (c.toNat - 48)) 0 = valueOf 10 text := by
    induction text using List.reverseRecOn with
    | nil => rfl
    | append_singleton text c ih =>
      have hc : digitValue c = c.toNat - 48 := by simp [digitValue, hexValue?, h c (by simp)]
      rw [List.foldl_append, List.foldl_cons, List.foldl_nil, ih fun d hd => h d (by simp [hd]), valueOf_append_singleton, hc]
      omega
  rw [readDecimal]
  split
  · rename_i hall
    have hdigits := List.all_eq_true.1 hall
    rw [hfold hdigits, Option.some.injEq]
    exact ⟨fun h => ⟨hdigits, h⟩, And.right⟩
  · rename_i hall
    exact ⟨fun h => (by cases h), fun h => absurd (List.all_eq_true.2 h.1) hall⟩

/-! ## Numbers -/

namespace NumberFormat

/-- What may follow the width, and the radix that it asks for. -/
inductive Presents : List Char → Radix → Prop
  | nothing : Presents [] .decimal
  | decimal : Presents ['d'] .decimal
  | lowerHex : Presents ['x'] .lowerHex
  | upperHex : Presents ['X'] .upperHex
  | octal : Presents ['o'] .octal
  | binary : Presents ['b'] .binary

/-- The part of a descriptor behind the percent sign, and the format that it stands for. -/
inductive Describes : List Char → NumberFormat → Prop
  | intro {width letter : List Char} {radix : Radix} (digits : ∀ c ∈ width, c.isDigit = true) (presents : Presents letter radix)
      (nonempty : width ++ letter ≠ []) (small : valueOf 10 width < 2 ^ 64) :
      Describes (width ++ letter) ⟨width.head? == some '0', valueOf 10 width, radix⟩

theorem radixOf?_eq_some_iff {c : Char} {radix : Radix} : radixOf? c = some radix ↔ Presents [c] radix := by
  constructor
  · intro h
    rw [radixOf?.eq_def] at h
    split at h <;> cases h <;> constructor
  · intro h
    cases h <;> rfl

theorem Presents.shape {letter : List Char} {radix : Radix} (h : Presents letter radix) :
    letter = [] ∧ radix = .decimal ∨ ∃ c, letter = [c] := by
  cases h <;> simp

theorem Presents.not_isDigit {c : Char} {radix : Radix} (h : Presents [c] radix) : c.isDigit = false := by
  cases h <;> rfl

theorem ofDigits_eq_ok_iff {width : List Char} {radix : Radix} {f : NumberFormat} :
    ofDigits width radix = .ok f ↔
      (∀ c ∈ width, c.isDigit = true) ∧ valueOf 10 width < 2 ^ 64 ∧
        f = ⟨width.head? == some '0', valueOf 10 width, radix⟩ := by
  rw [ofDigits]
  cases hread : readDecimal width with
  | none =>
    refine ⟨nofun, fun h => ?_⟩
    rw [readDecimal_eq_some_iff.2 ⟨h.1, rfl⟩] at hread
    cases hread
  | some w =>
    obtain ⟨hdigits, rfl⟩ := readDecimal_eq_some_iff.1 hread
    have hlimit : widthLimit = 2 ^ 64 := rfl
    simp only [hlimit]
    split
    · rename_i hsmall
      exact ⟨fun h => ⟨hdigits, hsmall, (Except.ok.inj h).symm⟩, fun h => by rw [h.2.2]⟩
    · rename_i hlarge
      exact ⟨nofun, fun h => absurd h.2.1 hlarge⟩

theorem describes_of_parse {spec : List Char} {f : NumberFormat} (h : parse spec = .ok f) : Describes spec f := by
  rcases List.eq_nil_or_concat' spec with rfl | ⟨front, last, rfl⟩
  · cases h
  · rw [parse, List.getLast?_concat, List.dropLast_concat] at h
    cases hlast : radixOf? last with
    | some radix =>
      simp only [hlast] at h
      obtain ⟨hdigits, hsmall, rfl⟩ := ofDigits_eq_ok_iff.1 h
      exact .intro hdigits (radixOf?_eq_some_iff.1 hlast) (by simp) hsmall
    | none =>
      simp only [hlast] at h
      split at h
      · obtain ⟨hdigits, hsmall, rfl⟩ := ofDigits_eq_ok_iff.1 h
        have hspec := Describes.intro hdigits .nothing (by simp) hsmall
        rwa [List.append_nil] at hspec
      · cases h

theorem parse_of_describes {spec : List Char} {f : NumberFormat} (h : Describes spec f) : parse spec = .ok f := by
  obtain ⟨digits, presents, nonempty, small⟩ := h
  rename_i width letter radix
  rcases presents.shape with ⟨rfl, rfl⟩ | ⟨last, rfl⟩
  · -- A width without a letter: its last digit stands in the place of the letter.
    rw [List.append_nil] at nonempty ⊢
    obtain ⟨front, last, rfl⟩ := (List.eq_nil_or_concat' width).resolve_left nonempty
    have hlast : last.isDigit = true := digits last (by simp)
    have hradix : radixOf? last = none := by
      rw [Option.eq_none_iff_forall_ne_some]
      intro radix hradix
      rw [(radixOf?_eq_some_iff.1 hradix).not_isDigit] at hlast
      cases hlast
    rw [parse, List.getLast?_concat]
    simp only [hradix, hlast, if_true]
    exact ofDigits_eq_ok_iff.2 ⟨digits, small, rfl⟩
  · have hradix : radixOf? last = some radix := radixOf?_eq_some_iff.2 presents
    rw [parse, List.getLast?_concat, List.dropLast_concat]
    simp only [hradix]
    exact ofDigits_eq_ok_iff.2 ⟨digits, small, rfl⟩

theorem Describes.not_mem_percent {spec : List Char} {f : NumberFormat} (h : Describes spec f) : '%' ∉ spec := by
  obtain ⟨digits, presents, -, -⟩ := h
  intro hm
  rcases List.mem_append.1 hm with hm | hm
  · have hdigit := digits _ hm
    cases hdigit
  · cases presents <;> simp at hm

/-- The width in front of a letter. Zero filling without a width is asked for by a zero alone. -/
def widthText (f : NumberFormat) : List Char :=
  (if f.zeroFill then ['0'] else []) ++ if f.width = 0 then [] else Radix.decimal.write f.width

def letter : Radix → Char
  | .decimal => 'd'
  | .lowerHex => 'x'
  | .upperHex => 'X'
  | .octal => 'o'
  | .binary => 'b'

theorem presents_letter (radix : Radix) : Presents [letter radix] radix := by
  cases radix <;> constructor

theorem isDigit_of_mem_widthText {f : NumberFormat} {c : Char} (h : c ∈ f.widthText) : c.isDigit = true := by
  rcases List.mem_append.1 h with hc | hc
  · split at hc
    · rw [List.mem_singleton.1 hc]
      rfl
    · cases hc
  · split at hc
    · cases hc
    · exact isDigit_of_mem_decimal hc

theorem valueOf_widthText (f : NumberFormat) : valueOf 10 f.widthText = f.width := by
  have hwidth : valueOf 10 (if f.width = 0 then [] else Radix.decimal.write f.width) = f.width := by
    split
    · rename_i hzero
      rw [hzero]
      rfl
    · exact valueOf_write .decimal f.width
  rw [widthText]
  split
  · exact (valueOf_zeros 10 1 _).trans hwidth
  · exact hwidth

theorem head?_widthText (f : NumberFormat) : (f.widthText.head? == some '0') = f.zeroFill := by
  rw [widthText]
  split
  · rename_i hzero
    rw [hzero]
    rfl
  · rename_i hzero
    rw [Bool.eq_false_iff.2 hzero, List.nil_append]
    split
    · rfl
    · rename_i hwidth
      obtain ⟨c, text, hwrite, hc⟩ := write_decimal_of_pos (Nat.pos_of_ne_zero hwidth)
      rw [hwrite, List.head?_cons]
      exact beq_false_of_ne (mt Option.some.inj hc)

/-- Every format with a width that fits a word is described by some text. -/
theorem describes_widthText {f : NumberFormat} (h : f.width < 2 ^ 64) : Describes (f.widthText ++ [letter f.radix]) f := by
  have hspec := Describes.intro (fun c => isDigit_of_mem_widthText (f := f)) (presents_letter f.radix) (by simp)
    ((valueOf_widthText f).symm ▸ h)
  rwa [head?_widthText, valueOf_widthText] at hspec

theorem Describes.width_lt {spec : List Char} {f : NumberFormat} (h : Describes spec f) : f.width < 2 ^ 64 := by
  obtain ⟨-, -, -, small⟩ := h
  exact small

end NumberFormat

/-! ## Descriptors -/

namespace ElementFormat

/-- A descriptor and the format that it stands for. -/
inductive Describes : String → ElementFormat → Prop
  | intro {leading : String} {spec : List Char} {number : NumberFormat} (plain : '%' ∉ leading.toList)
      (describes : NumberFormat.Describes spec number) : Describes (leading ++ "%" ++ String.ofList spec) ⟨leading, number⟩

theorem span_percent {leading : List Char} (h : '%' ∉ leading) (spec : List Char) :
    (leading ++ '%' :: spec).span (· ≠ '%') = (leading, '%' :: spec) := by
  have hall : ∀ c ∈ leading, decide (c ≠ '%') = true := fun c hc => decide_eq_true fun he => h (he ▸ hc)
  rw [List.span_eq_takeWhile_dropWhile, List.takeWhile_append_of_pos hall, List.dropWhile_append_of_pos hall]
  simp

theorem span_missing {descriptor : List Char} (h : '%' ∉ descriptor) :
    descriptor.span (· ≠ '%') = (descriptor, []) := by
  have hall : ∀ c ∈ descriptor, decide (c ≠ '%') = true := fun c hc => decide_eq_true fun he => h (he ▸ hc)
  rw [List.span_eq_takeWhile_dropWhile, List.takeWhile_eq_self_iff.2 hall, List.dropWhile_eq_nil_iff.2 hall]

theorem parse_of_missing {descriptor : String} (h : '%' ∉ descriptor.toList) :
    parse descriptor = .error (.missingNumber descriptor) := by
  rw [parse, span_missing h]

/-- What is behind the first percent sign decides. -/
theorem parse_of_percent {leading : String} (h : '%' ∉ leading.toList) (spec : List Char) :
    parse (leading ++ "%" ++ String.ofList spec) =
      if '%' ∈ spec then .error (.invalidNumber (String.ofList spec) .secondPercent)
      else match NumberFormat.parse spec with
        | .ok number => .ok ⟨leading, number⟩
        | .error defect => .error (.invalidNumber (String.ofList spec) defect) := by
  have hsplit : (leading ++ "%" ++ String.ofList spec).toList = leading.toList ++ '%' :: spec := by simp
  rw [parse, hsplit, span_percent h]
  by_cases hsecond : '%' ∈ spec
  · simp [hsecond]
  · cases hnumber : NumberFormat.parse spec <;> simp [hsecond, hnumber]

theorem exists_percent {descriptor : String} (h : '%' ∈ descriptor.toList) :
    ∃ leading spec, '%' ∉ leading.toList ∧ descriptor = leading ++ "%" ++ String.ofList spec := by
  obtain ⟨leading, spec, hsplit, hleading⟩ := List.eq_append_cons_of_mem h
  refine ⟨String.ofList leading, spec, by simpa using hleading, String.toList_injective ?_⟩
  simp [hsplit]

theorem parse_eq_ok_iff {descriptor : String} {f : ElementFormat} : parse descriptor = .ok f ↔ Describes descriptor f := by
  constructor
  · intro h
    by_cases hpercent : '%' ∈ descriptor.toList
    · obtain ⟨leading, spec, hleading, rfl⟩ := exists_percent hpercent
      rw [parse_of_percent hleading] at h
      split at h
      · cases h
      · split at h
        · rename_i hnumber
          cases h
          exact .intro hleading (NumberFormat.describes_of_parse hnumber)
        · cases h
    · rw [parse_of_missing hpercent] at h
      cases h
  · rintro ⟨hleading, hnumber⟩
    rw [parse_of_percent hleading, if_neg hnumber.not_mem_percent, NumberFormat.parse_of_describes hnumber]

theorem invalid_of_percent {descriptor : String} (h : '%' ∈ descriptor.toList) :
    (∃ f, parse descriptor = .ok f) ∨ ∃ spec defect, parse descriptor = .error (.invalidNumber spec defect) := by
  obtain ⟨leading, spec, hleading, rfl⟩ := exists_percent h
  rw [parse_of_percent hleading]
  split
  · exact Or.inr ⟨_, _, rfl⟩
  · split
    · exact Or.inl ⟨_, rfl⟩
    · exact Or.inr ⟨_, _, rfl⟩

/-- A descriptor is accepted exactly if it is text without a percent sign, the percent sign, decimal digits and a letter, of which
the digits or the letter may be missing, and the digits stand for a word. Everything else has the defect that its percent sign
decides. Whatever text, filling, width and radix are wanted, some descriptor asks for them. -/
theorem descriptors_accepted :
    (∀ descriptor f, parse descriptor = .ok f ↔ Describes descriptor f) ∧
    (∀ descriptor, parse descriptor = .error (.missingNumber descriptor) ↔ '%' ∉ descriptor.toList) ∧
    (∀ descriptor, (∃ spec defect, parse descriptor = .error (.invalidNumber spec defect)) ↔
      '%' ∈ descriptor.toList ∧ ∀ f, ¬ Describes descriptor f) ∧
    ∀ f : ElementFormat, (∃ descriptor, parse descriptor = .ok f) ↔ '%' ∉ f.leading.toList ∧ f.number.width < 2 ^ 64 := by
  refine ⟨fun _ _ => parse_eq_ok_iff, fun descriptor => ?_, fun descriptor => ?_, fun f => ?_⟩
  · refine ⟨fun h hpercent => ?_, parse_of_missing⟩
    rcases invalid_of_percent hpercent with ⟨f, hf⟩ | ⟨spec, defect, hinvalid⟩
    · rw [h] at hf
      cases hf
    · rw [h] at hinvalid
      cases hinvalid
  · constructor
    · rintro ⟨spec, defect, h⟩
      refine ⟨by_contra fun hpercent => ?_, fun f hf => ?_⟩
      · rw [parse_of_missing hpercent] at h
        cases h
      · rw [parse_eq_ok_iff.2 hf] at h
        cases h
    · rintro ⟨hpercent, hnone⟩
      exact (invalid_of_percent hpercent).resolve_left fun ⟨f, hf⟩ => hnone f (parse_eq_ok_iff.1 hf)
  · constructor
    · rintro ⟨descriptor, h⟩
      obtain ⟨hleading, hnumber⟩ := parse_eq_ok_iff.1 h
      exact ⟨hleading, hnumber.width_lt⟩
    · rintro ⟨hleading, hwidth⟩
      exact ⟨_, parse_eq_ok_iff.2 (.intro hleading (NumberFormat.describes_widthText hwidth))⟩

end ElementFormat

end AccelFirmware
