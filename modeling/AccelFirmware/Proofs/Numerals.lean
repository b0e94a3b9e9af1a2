import AccelFirmware.Text.Numeral
import Mathlib.Data.List.Basic
import Mathlib.Data.List.Induction
import Mathlib.Data.Nat.Digits.Defs

/-!
# Written numbers read back

Numerals are read back as the number that was written. Hexadecimal ones are so whatever zeros are in front, so different numbers
are written differently.
-/

namespace AccelFirmware

theorem digits_lt {b : Nat} (hb : 2 ≤ b) (n : Nat) : ∀ d ∈ digits b n, d < b := by
  induction n using digits.induct b with
  | case1 n h =>
    intro d hd
    rw [digits, if_pos h, List.mem_singleton] at hd
    omega
  | case2 n h ih =>
    intro d hd
    rw [digits, if_neg h] at hd
    rcases List.mem_append.1 hd with hd | hd
    · exact ih d hd
    · rw [List.mem_singleton.1 hd]
      exact Nat.mod_lt _ (by omega)

theorem Radix.base_bounds (r : Radix) : 2 ≤ r.base ∧ r.base ≤ 16 := by cases r <;> decide

/-- Numbers are written in digits only. -/
theorem not_mem_write {c : Char} (h : hexValue? c = none) (r : Radix) (n : Nat) : c ∉ r.write n := by
  obtain ⟨hlow, hhigh⟩ := r.base_bounds
  have hdigit : ∀ d < 16, hexValue? (r.digitChar d) ≠ none := by cases r <;> decide
  intro hm
  obtain ⟨d, hd, rfl⟩ := List.mem_map.1 hm
  exact hdigit d (Nat.lt_of_lt_of_le (digits_lt hlow n d hd) hhigh) h

theorem write_ne_nil (r : Radix) (n : Nat) : r.write n ≠ [] := by
  rw [Radix.write, digits]
  split <;> simp

theorem hexValue?_digitChar (r : Radix) {d : Nat} (h : d < 16) : hexValue? (r.digitChar d) = some d := by
  have hall : ∀ d < 16, hexValue? (r.digitChar d) = some d := by cases r <;> decide
  exact hall d h

/-! ## In any base -/

/-- What a digit stands for, whatever the radix and the letter case. -/
def digitValue (c : Char) : Nat := (hexValue? c).getD 0

/-- The number that digits stand for in a base, most significant first. -/
def valueOf (base : Nat) (text : List Char) : Nat := Nat.ofDigits base (text.map digitValue).reverse

theorem valueOf_append_singleton (base : Nat) (text : List Char) (c : Char) :
    valueOf base (text ++ [c]) = digitValue c + base * valueOf base text := by
  rw [valueOf, List.map_append, List.map_singleton, List.reverse_append, List.reverse_singleton, List.singleton_append,
    Nat.ofDigits_cons]
  rfl

/-- Zeros in front do not count. -/
theorem valueOf_zeros (base k : Nat) (text : List Char) : valueOf base (List.replicate k '0' ++ text) = valueOf base text := by
  induction text using List.reverseRecOn with
  | nil =>
    induction k with
    | zero => rfl
    | succ k ih =>
      rw [List.append_nil] at ih ⊢
      rw [List.replicate_succ', valueOf_append_singleton, ih]
      simp [valueOf, digitValue, hexValue?]
  | append_singleton text c ih => rw [← List.append_assoc, valueOf_append_singleton, ih, valueOf_append_singleton]

theorem valueOf_write (r : Radix) (n : Nat) : valueOf r.base (r.write n) = n := by
  obtain ⟨hlow, hhigh⟩ := r.base_bounds
  have hdigit {d : Nat} (hd : d < r.base) : digitValue (r.digitChar d) = d := by
    rw [digitValue, hexValue?_digitChar r (Nat.lt_of_lt_of_le hd hhigh)]
    rfl
  rw [Radix.write]
  induction n using digits.induct r.base with
  | case1 n h =>
    rw [digits, if_pos h]
    simp [valueOf, hdigit (show n < r.base by omega)]
  | case2 n h ih =>
    rw [digits, if_neg h, List.map_append, List.map_singleton, valueOf_append_singleton, ih, hdigit (Nat.mod_lt _ (by omega))]
    exact Nat.mod_add_div n r.base

/-! ## Decimal -/

theorem isDigit_of_mem_decimal {c : Char} {n : Nat} (h : c ∈ Radix.decimal.write n) : c.isDigit = true := by
  have hdigit : ∀ d < 10, (Radix.decimal.digitChar d).isDigit = true := by decide
  obtain ⟨d, hd, rfl⟩ := List.mem_map.1 h
  exact hdigit d (digits_lt (by decide) n d hd)

/-- Only zero is written with a zero in front. -/
theorem write_decimal_of_pos {n : Nat} (h : 0 < n) : ∃ c cs, Radix.decimal.write n = c :: cs ∧ c ≠ '0' := by
  have hdigit : ∀ d < 10, 0 < d → Radix.decimal.digitChar d ≠ '0' := by decide
  rw [Radix.write, show Radix.decimal.base = 10 from rfl]
  induction n using digits.induct 10 with
  | case1 n hsmall =>
    rw [digits, if_pos hsmall]
    exact ⟨_, [], rfl, hdigit n (by omega) h⟩
  | case2 n hlarge ih =>
    obtain ⟨c, cs, hwrite, hc⟩ := ih (by omega)
    rw [digits, if_neg hlarge, List.map_append, hwrite]
    exact ⟨c, _, rfl, hc⟩

/-! ## Hexadecimal -/

theorem readHex_append (cs : List Char) (c : Char) :
    readHex (cs ++ [c]) = (readHex cs).bind fun n => (hexValue? c).map (16 * n + ·) := by
  rw [readHex, List.foldlM_append]
  simp [readHex]

theorem readHex_write {r : Radix} (hr : r.base = 16) (n : Nat) : readHex (r.write n) = some n := by
  rw [Radix.write, hr]
  induction n using digits.induct 16 with
  | case1 n h =>
    have hn : n < 16 := by simpa using h
    rw [digits, if_pos h]
    simp [readHex, hexValue?_digitChar r hn]
  | case2 n h ih =>
    have hdigit : n % 16 < 16 := Nat.mod_lt _ (by decide)
    rw [digits, if_neg h, List.map_append, List.map_singleton, readHex_append, ih]
    simp [hexValue?_digitChar r hdigit, Nat.div_add_mod]

/-- Zeros in front are not seen. -/
theorem readHex_zeros (k : Nat) (cs : List Char) : readHex (List.replicate k '0' ++ cs) = readHex cs := by
  induction k with
  | zero => rfl
  | succ k ih => exact ih

theorem readHex_hexWide (width n : Nat) : readHex (hexWide width n).toList = some n := by
  rw [hexWide, String.toList_ofList, padLeft, readHex_zeros, readHex_write rfl]

theorem hex_injective : Function.Injective hex := by
  intro m n h
  have hread := congrArg (fun text => readHex text.toList) h
  simp only [hex, String.toList_ofList, readHex_write (r := .lowerHex) rfl] at hread
  exact Option.some.inj hread

theorem hexWide_injective (width : Nat) : Function.Injective (hexWide width) := by
  intro m n h
  have hread := congrArg (fun text => readHex text.toList) h
  simp only [readHex_hexWide] at hread
  exact Option.some.inj hread

/-- A text gives away what stands between two known texts, a numeral say. -/
theorem eq_of_surrounded {before x y after : String} (h : before ++ x ++ after = before ++ y ++ after) : x = y := by
  have hchars := congrArg String.toList h
  simp only [String.toList_append] at hchars
  exact String.toList_injective (List.append_cancel_left (List.append_cancel_right hchars))

end AccelFirmware
