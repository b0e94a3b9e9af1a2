import AccelFirmware.Literal.ElementFormat
import AccelFirmware.Proofs.Numerals

/-!
# Numbers in fields

A number is written in a field that is filled on the left. Its field is as wide as it has to be and no wider than the number needs
or the format asks, and the number is read back from it in the radix of the format.
-/

namespace AccelFirmware

/-! ## Digits -/

namespace Radix

def isDigit (r : Radix) (c : Char) : Bool := (hexValue? c).any (· < r.base)

/-- Reads digits of a radix. An empty text is no number. -/
def read? (r : Radix) (text : List Char) : Option Nat :=
  if text.isEmpty = false ∧ text.all r.isDigit = true then some (valueOf r.base text) else none

theorem isDigit_of_mem_write {r : Radix} {n : Nat} {c : Char} (h : c ∈ r.write n) : r.isDigit c = true := by
  obtain ⟨hlow, hhigh⟩ := r.base_bounds
  obtain ⟨d, hd, rfl⟩ := List.mem_map.1 h
  have hlt : d < r.base := digits_lt hlow n d hd
  simp [isDigit, hexValue?_digitChar r (Nat.lt_of_lt_of_le hlt hhigh), hlt]

theorem isDigit_of_mem_zeros {r : Radix} {k n : Nat} {c : Char} (h : c ∈ List.replicate k '0' ++ r.write n) :
    r.isDigit c = true := by
  rcases List.mem_append.1 h with hc | hc
  · rw [(List.mem_replicate.1 hc).2]
    cases r <;> decide
  · exact isDigit_of_mem_write hc

theorem ne_of_isDigit {r : Radix} {c d : Char} (hc : r.isDigit c = true) (hd : hexValue? d = none) : c ≠ d := by
  rintro rfl
  simp [isDigit, hd] at hc

theorem read?_write (r : Radix) (k n : Nat) : r.read? (List.replicate k '0' ++ r.write n) = some n := by
  have hall : (List.replicate k '0' ++ r.write n).all r.isDigit = true := List.all_eq_true.2 fun _ => isDigit_of_mem_zeros
  have hsome : (List.replicate k '0' ++ r.write n).isEmpty = false := by simp [write_ne_nil]
  rw [read?, if_pos ⟨hsome, hall⟩, valueOf_zeros, valueOf_write]

end Radix

/-! ## Fields -/

namespace NumberFormat

/-- A number on its own, without a field around it. -/
def bare (radix : Radix) (value : Int) : List Char := sign value ++ radix.write value.natAbs

theorem length_format (f : NumberFormat) (value : Int) :
    (f.format value).length = max f.width (bare f.radix value).length := by
  simp only [format, bare, padLeft]
  split
  · simp only [List.length_append, List.length_replicate]
    have hdigit : 0 < (f.radix.write value.natAbs).length := List.length_pos_iff.2 (write_ne_nil _ _)
    omega
  · simp only [List.length_append, List.length_replicate]
    omega

/-- Reads what stands in a field: the blanks in front are dropped, a minus sign is kept for the digits behind it. -/
def readField (radix : Radix) (field : List Char) : Option Int :=
  match field.dropWhile (· == ' ') with
  | '-' :: text => (radix.read? text).map fun (n : Nat) => -(n : Int)
  | text => (radix.read? text).map Int.ofNat

theorem readField_blanks (radix : Radix) (k : Nat) (field : List Char) :
    readField radix (List.replicate k ' ' ++ field) = readField radix field := by
  have hdrop : (List.replicate k ' ' ++ field).dropWhile (· == ' ') = field.dropWhile (· == ' ') :=
    List.dropWhile_append_of_pos fun c hc => by simp [(List.mem_replicate.1 hc).2]
  simp only [readField, hdrop]

theorem readField_minus (radix : Radix) (text : List Char) :
    readField radix ('-' :: text) = (radix.read? text).map fun (n : Nat) => -(n : Int) := rfl

theorem readField_digits {radix : Radix} {text : List Char} (h : ∀ c ∈ text, radix.isDigit c = true) :
    readField radix text = (radix.read? text).map Int.ofNat := by
  cases text with
  | nil => rfl
  | cons c text =>
    have hc := h c List.mem_cons_self
    have hblank : (c == ' ') = false := beq_false_of_ne (Radix.ne_of_isDigit hc rfl)
    rw [readField, List.dropWhile_cons_of_neg (by simp [hblank])]
    split
    · rename_i hminus
      exact absurd (List.cons.inj hminus).1 (Radix.ne_of_isDigit hc rfl)
    · rfl

/-- Zeros between the sign and the digits do not change the number, and blanks in front of the sign do not either. -/
theorem readField_sign (radix : Radix) (zeros : Nat) (value : Int) :
    readField radix (sign value ++ (List.replicate zeros '0' ++ radix.write value.natAbs)) = some value := by
  rw [sign]
  split
  · rename_i hnegative
    rw [List.singleton_append, readField_minus, Radix.read?_write, Option.map_some, Option.some.injEq]
    omega
  · rename_i hpositive
    rw [List.nil_append, readField_digits fun c => Radix.isDigit_of_mem_zeros, Radix.read?_write, Option.map_some,
      Option.some.injEq, Int.ofNat_eq_natCast]
    omega

theorem readField_format (f : NumberFormat) (value : Int) : readField f.radix (f.format value) = some value := by
  simp only [format, padLeft]
  split
  · exact readField_sign f.radix _ value
  · rw [readField_blanks]
    exact readField_sign f.radix 0 value

theorem mem_sign {value : Int} {c : Char} (h : c ∈ sign value) : c = '-' := by
  rw [sign] at h
  split at h
  · exact List.mem_singleton.1 h
  · cases h

/-- Fields are made of digits, blanks and minus signs. -/
theorem mem_format {f : NumberFormat} {value : Int} {c : Char} (h : c ∈ f.format value) :
    c = '-' ∨ c = ' ' ∨ f.radix.isDigit c = true := by
  simp only [format, padLeft] at h
  split at h
  · rcases List.mem_append.1 h with hc | hc
    · exact Or.inl (mem_sign hc)
    · exact Or.inr (Or.inr (Radix.isDigit_of_mem_zeros hc))
  · rcases List.mem_append.1 h with hc | hc
    · exact Or.inr (Or.inl (List.mem_replicate.1 hc).2)
    · rcases List.mem_append.1 hc with hc | hc
      · exact Or.inl (mem_sign hc)
      · exact Or.inr (Or.inr (Radix.isDigit_of_mem_write hc))

theorem not_mem_format {f : NumberFormat} {value : Int} {c : Char} (hminus : c ≠ '-') (hblank : c ≠ ' ')
    (h : hexValue? c = none) : c ∉ f.format value := by
  intro hm
  rcases mem_format hm with he | he | hdigit
  · exact hminus he
  · exact hblank he
  · exact Radix.ne_of_isDigit hdigit h rfl

/-- Every field has a digit. -/
theorem exists_digit_format (f : NumberFormat) (value : Int) : ∃ c ∈ f.format value, f.radix.isDigit c = true := by
  obtain ⟨c, text, hwrite⟩ := List.exists_cons_of_ne_nil (write_ne_nil f.radix value.natAbs)
  have hc : c ∈ f.radix.write value.natAbs := by simp [hwrite]
  refine ⟨c, ?_, Radix.isDigit_of_mem_write hc⟩
  simp only [format, padLeft]
  split <;> simp [hc]

end NumberFormat

end AccelFirmware
