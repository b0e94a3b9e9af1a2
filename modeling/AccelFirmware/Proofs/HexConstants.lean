import AccelFirmware.Proofs.Descriptors
import AccelFirmware.Proofs.LiteralBodies

/-!
# Hexadecimal constants

Which elements of an array literal are constants of the language that the literal is compiled in, if the descriptor puts `0x` in
front of hexadecimal digits. The leading text of a descriptor comes before the sign, so negative numbers have no such constant.
-/

namespace AccelFirmware

/-- The value of a hexadecimal constant: a minus sign or none, `0x`, and digits; `none` for any other text. -/
def hexConstant? : List Char → Option Int
  | '-' :: '0' :: 'x' :: text => (Radix.lowerHex.read? text).map fun (n : Nat) => -(n : Int)
  | '0' :: 'x' :: text => (Radix.lowerHex.read? text).map Int.ofNat
  | _ => none

/-- The letter case does not matter for reading. -/
theorem Radix.read?_of_base {r : Radix} (h : r.base = 16) (text : List Char) : lowerHex.read? text = r.read? text := by
  cases r with
  | lowerHex | upperHex => rfl
  | decimal | octal | binary => cases h

/-- Descriptors of hexadecimal constants: `0x`, and a width that zeros fill, or no width. -/
inductive HexDescriptor : String → Prop
  | intro {width : List Char} {letter : Char} (digits : ∀ c ∈ width, c.isDigit = true)
      (zeros : width ≠ [] → width.head? = some '0') (small : valueOf 10 width < 2 ^ 64) (hex : letter = 'x' ∨ letter = 'X') :
      HexDescriptor ("0x%" ++ String.ofList (width ++ [letter]))

/-- Formats in which zeros stand between the sign and the digits, and no blanks in front. -/
structure ElementFormat.IsHex (f : ElementFormat) : Prop where
  leading : f.leading = "0x"
  base : f.number.radix.base = 16
  filled : f.number.zeroFill = true ∨ f.number.width = 0

namespace ElementFormat

variable {f : ElementFormat}

theorem isHex_of_descriptor {descriptor : String} (h : HexDescriptor descriptor) :
    ∃ f, parse descriptor = .ok f ∧ f.IsHex := by
  obtain ⟨digits, zeros, small, hex⟩ := h
  rename_i width letter
  obtain ⟨radix, hpresents, hbase⟩ : ∃ radix, NumberFormat.Presents [letter] radix ∧ radix.base = 16 := by
    rcases hex with rfl | rfl
    · exact ⟨_, .lowerHex, rfl⟩
    · exact ⟨_, .upperHex, rfl⟩
  have hspec := NumberFormat.Describes.intro digits hpresents (by simp) small
  have hplain : '%' ∉ "0x".toList := by decide
  refine ⟨_, parse_eq_ok_iff.2 (.intro hplain hspec), rfl, hbase, ?_⟩
  by_cases hwidth : width = []
  · rw [hwidth]
    exact Or.inr rfl
  · exact Or.inl (beq_iff_eq.2 (zeros hwidth))

theorem IsHex.toList_format (h : f.IsHex) (value : Int) : ∃ zeros, (f.format value).toList =
    '0' :: 'x' :: (NumberFormat.sign value ++ (List.replicate zeros '0' ++ f.number.radix.write value.natAbs)) := by
  have htext : (f.format value).toList = '0' :: 'x' :: f.number.format value := by simp [format, h.leading]
  rw [htext]
  simp only [NumberFormat.format, padLeft]
  split
  · exact ⟨_, rfl⟩
  · rename_i hfill
    have hwidth : f.number.width = 0 := h.filled.resolve_left hfill
    exact ⟨0, by simp [hwidth]⟩

/-- The minus sign comes between `0x` and the digits. -/
theorem IsHex.hexConstant?_format (h : f.IsHex) (value : Int) :
    hexConstant? (f.format value).toList = if 0 ≤ value then some value else none := by
  obtain ⟨zeros, htext⟩ := h.toList_format value
  rw [htext, hexConstant?, Radix.read?_of_base h.base, NumberFormat.sign]
  split
  · rename_i hnegative
    have hminus : f.number.radix.isDigit '-' = false := by cases f.number.radix <;> rfl
    rw [if_neg (by omega)]
    simp [Radix.read?, hminus]
  · rename_i hpositive
    rw [List.nil_append, Radix.read?_write, if_pos (by omega), Option.map_some, Option.some.injEq, Int.ofNat_eq_natCast]
    omega

end ElementFormat

namespace ArrayLiteral

/-- The elements that a hexadecimal descriptor asks for are constants of their values exactly if they are not negative, and the
elements of a literal are such constants exactly if none of its values is negative. -/
theorem hex_constants_iff {descriptor : String} (h : HexDescriptor descriptor) :
    ∃ f, ElementFormat.parse descriptor = .ok f ∧
      (∀ value, hexConstant? (f.format value).toList = some value ↔ 0 ≤ value) ∧
      ∀ name values wrapWidth, 0 < wrapWidth → ∃ body, defineArray name values descriptor wrapWidth =
          .ok ("#define " ++ name ++ " \x7b \\\n  " ++ String.ofList body ++ " \\\n\x7d\n") ∧
        ((readElements body).map hexConstant? = values.map some ↔ ∀ value ∈ values, 0 ≤ value) := by
  obtain ⟨f, hf, hhex⟩ := ElementFormat.isHex_of_descriptor h
  have hvalue (value : Int) : hexConstant? (f.format value).toList = some value ↔ 0 ≤ value := by
    rw [hhex.hexConstant?_format]
    split <;> simp_all
  refine ⟨f, hf, hvalue, fun name values wrapWidth hw => ?_⟩
  have helement : ∀ v, IsElement (f.format v).toList :=
    isElement_format (by rw [hhex.leading]; decide) (by rw [hhex.leading]; decide) (by rw [hhex.leading]; decide)
  refine ⟨_, defineArray_eq_ok hf hw name values, ?_⟩
  rw [readElements_elements helement, List.map_map, List.map_inj_left]
  exact forall₂_congr fun value _ => hvalue value

theorem hex_constants_negative : HexDescriptor "0x%08x" ∧ ∃ f, ElementFormat.parse "0x%08x" = .ok f ∧
    hexConstant? (f.format (-5)).toList ≠ some (-5) ∧ hexConstant? (f.format 5).toList = some 5 := by
  have hdigits : ∀ c ∈ ['0', '8'], c.isDigit = true := by simp
  have hdescriptor : HexDescriptor "0x%08x" := .intro hdigits (fun _ => rfl) (by decide) (Or.inl rfl)
  obtain ⟨f, hf, hvalue, -⟩ := hex_constants_iff hdescriptor
  exact ⟨hdescriptor, f, hf, fun h => absurd ((hvalue (-5)).1 h) (by decide), (hvalue 5).2 (by decide)⟩

end ArrayLiteral

end AccelFirmware
