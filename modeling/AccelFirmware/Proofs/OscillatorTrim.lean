import AccelFirmware.Program.Core
import AccelFirmware.Proofs.RegisterContents
import AccelFirmware.Proofs.WordBits

/-!
# Oscillator trim

What a manual trim leaves in the register that the two slower oscillators share. The register is read into a variable, a field of
it is cleared and the value is set there, and the variable is written back. A value that is too big for its field also sets bits
of the factory trim beside it.
-/

namespace AccelFirmware

open Operation

/-! ## Statements -/

theorem effect_of_assigned {s : Contents} {text : String} {note : Option String} {name : List Char} {mode : WriteMode}
    {ts : List Token} {value : UInt32} (h : assigned? (tokens text.toList) = some (name, mode, ts)) (hv : valueIn? s ts = some value) :
    (statement text note).effect s = some (s.write (.named (String.ofList name)) mode value) := by
  simp only [effect, h, Option.bind_some, hv, Option.map_some]

/-- Statements assign variables. -/
theorem target?_statement_ne (text : String) (note : Option String) (a : UInt32) : (statement text note).target? ≠ some (.address a) := by
  intro h
  obtain ⟨_, -, he⟩ := Option.map_eq_some_iff.1 h
  cases he

/-- The tokens of a word in memory. -/
def loadTokens (address : List Char) : List Token :=
  [.mark '*', .mark '(', .mark '(', .word "volatile".toList, .mark ' ', .word "uint32_t".toList, .mark ' ', .mark '*', .mark ')',
    .mark ' ', .word address, .mark ')']

theorem tokens_readAt (a : UInt32) : tokens (readAt a).toList = loadTokens (hexConstant 8 a) := by
  have htext : (readAt a).toList = "*((volatile uint32_t *)".toList ++ ' ' :: (hexConstant 8 a ++ ')' :: []) := by
    unfold readAt
    simp only [String.toList_append]
    rfl
  rw [htext, tokens_around_hexConstant rfl rfl]
  rfl

namespace ClockTrim

variable {s : Contents}

/-- The variable in which a trim is put together. -/
def trimVariable : Register := .named "trim"

section

variable {c : Char} (hc : isWordChar c = false) {tail : String} {rest : List Char} (htail : tail.toList = c :: rest)

include hc htail

theorem tokens_load (a : UInt32) : tokens ("trim = " ++ readAt a ++ tail).toList =
    .word "trim".toList :: .mark ' ' :: .mark '=' :: .mark ' ' :: (loadTokens (hexConstant 8 a) ++ .mark c :: tokens rest) := by
  have htext : ("trim = " ++ readAt a ++ tail).toList = "trim =".toList ++ ' ' :: ((readAt a).toList ++ c :: rest) := by
    simp only [String.toList_append, htail]
    rfl
  rw [htext, tokens_append_mark rfl, tokens_append_mark hc, tokens_readAt]
  rfl

theorem tokens_set (value : UInt32) : tokens ("trim |= 0x" ++ hex value.toNat ++ tail).toList =
    .word "trim".toList :: .mark ' ' :: .mark '|' :: .mark '=' :: .mark ' ' :: .word (hexConstant 0 value) :: .mark c :: tokens rest := by
  have htext : ("trim |= 0x" ++ hex value.toNat ++ tail).toList = "trim |=".toList ++ ' ' :: (hexConstant 0 value ++ c :: rest) := by
    rw [hexConstant, hexWide, hex, padLeft, Nat.zero_sub]
    simp only [String.toList_append, htail]
    rfl
  rw [htext, tokens_around_hexConstant rfl hc]
  rfl

end

theorem effect_load (s : Contents) (a : UInt32) :
    (statement ("trim = " ++ readAt a ++ ";")).effect s = some (s.write trimVariable .assign (s (.address a))) := by
  have hassigned : assigned? (tokens ("trim = " ++ readAt a ++ ";").toList) =
      some ("trim".toList, .assign, .mark ' ' :: loadTokens (hexConstant 8 a)) := by
    rw [tokens_load rfl rfl]
    rfl
  have hread : WordExpr.read? (.mark ' ' :: loadTokens (hexConstant 8 a)) = some (.load (hexConstant 8 a)) := rfl
  refine effect_of_assigned hassigned ?_
  rw [valueIn?, hread, Option.bind_some, WordExpr.eval, constant?_hexConstant, Option.map_some]

theorem effect_loadLimit (s : Contents) (a : UInt32) : (statement ("trim = " ++ readAt a ++ " & ~(0x1ff << 15);")).effect s =
    some (s.write trimVariable .assign (s (.address a) &&& ~~~((0x1ff : UInt32) <<< 15))) := by
  have hassigned : assigned? (tokens ("trim = " ++ readAt a ++ " & ~(0x1ff << 15);").toList) =
      some ("trim".toList, .assign, .mark ' ' :: (loadTokens (hexConstant 8 a) ++ tokens " & ~(0x1ff << 15)".toList)) := by
    rw [tokens_load rfl rfl]
    rfl
  have hread : WordExpr.read? (.mark ' ' :: (loadTokens (hexConstant 8 a) ++ tokens " & ~(0x1ff << 15)".toList)) =
      some (.combine .both (.load (hexConstant 8 a))
        (.complement (.combine .shiftLeft (.word "0x1ff".toList) (.word "15".toList)))) := rfl
  refine effect_of_assigned hassigned ?_
  rw [valueIn?, hread, Option.bind_some, WordExpr.eval, WordExpr.eval, constant?_hexConstant, Option.map_some]
  rfl

theorem effect_set (s : Contents) (value : UInt32) (note : Option String) :
    (statement ("trim |= 0x" ++ hex value.toNat ++ ";") note).effect s = some (s.write trimVariable .setBits value) := by
  have hassigned : assigned? (tokens ("trim |= 0x" ++ hex value.toNat ++ ";").toList) =
      some ("trim".toList, .setBits, [.mark ' ', .word (hexConstant 0 value)]) := by
    rw [tokens_set rfl rfl]
    rfl
  exact effect_of_assigned hassigned (eval_hexConstant s 0 value)

theorem effect_setShifted (s : Contents) (value : UInt32) (note : Option String) :
    (statement ("trim |= 0x" ++ hex value.toNat ++ " << 22;") note).effect s =
      some (s.write trimVariable .setBits (value <<< 22)) := by
  have hassigned : assigned? (tokens ("trim |= 0x" ++ hex value.toNat ++ " << 22;").toList) =
      some ("trim".toList, .setBits, .mark ' ' :: .word (hexConstant 0 value) :: .mark ' ' :: tokens "<< 22".toList) := by
    rw [tokens_set rfl rfl]
    rfl
  have hread : WordExpr.read? (.mark ' ' :: .word (hexConstant 0 value) :: .mark ' ' :: tokens "<< 22".toList) =
      some (.combine .shiftLeft (.word (hexConstant 0 value)) (.word "22".toList)) := rfl
  refine effect_of_assigned hassigned ?_
  rw [valueIn?, hread, Option.bind_some, WordExpr.eval, eval_hexConstant]
  rfl

/-- Bits are cleared and others are set in their place. -/
theorem effectOfAll_replace {clear set : Operation} {mask value : UInt32} (s : Contents)
    (hclear : clear.effect s = some (s.write trimVariable .keepBits mask))
    (hset : ∀ s, set.effect s = some (s.write trimVariable .setBits value)) :
    effectOfAll s [clear, set] = some (s.write trimVariable .assign (s trimVariable &&& mask ||| value)) := by
  rw [effectOfAll_cons hclear, effectOfAll_cons (hset _)]
  simp [effectOfAll, Contents.write, WriteMode.combine]

/-! ## The shared register -/

variable (t : ClockTrim)

/-- The contents of the shared register after a trim. -/
def replaced (before : UInt32) : UInt32 :=
  t.hirc.elim id (replaceField 22 9) (t.hirc8m.elim id (replaceField 0 16) before)

theorem replaceField_slow (value word : UInt32) : replaceField 0 16 value word = word &&& ~~~0xffff ||| value := by
  have hshift (w : UInt32) : w <<< UInt32.ofNat 0 = w := UInt32.shiftLeft_zero
  rw [replaceField, hshift, hshift]
  rfl

theorem replaceField_fast (value word : UInt32) :
    replaceField 22 9 value word = word &&& ~~~((0x1ff : UInt32) <<< 22) ||| value <<< 22 := rfl

/-- A field is replaced if there is a value for it. -/
theorem effectOfAll_field (value? : Option UInt32) (low width : Nat) {operations : List Operation} (s : Contents)
    (hnone : value? = none → operations = [])
    (hsome : ∀ value, value? = some value → effectOfAll s operations =
      some (s.write trimVariable .assign (replaceField low width value (s trimVariable)))) :
    effectOfAll s operations =
      some (s.write trimVariable .assign (value?.elim id (replaceField low width) (s trimVariable))) := by
  cases value? with
  | none =>
    rw [hnone rfl, Option.elim_none, id_eq, Contents.write, WriteMode.combine, Function.update_eq_self]
    rfl
  | some value => exact hsome value rfl

theorem exists_effectOfAll_sharedWrites (s : Contents) : ∃ s', effectOfAll s t.sharedWrites = some s' ∧
    s' (.address trimShared) = t.replaced (s (.address trimShared)) := by
  by_cases hgiven : (t.hirc8m.isSome || t.hirc.isSome) = true
  · have hload : effectOfAll s [.statement ("trim = " ++ readAt trimShared ++ ";")] =
        some (s.write trimVariable .assign (s (.address trimShared))) := effectOfAll_cons (effect_load s trimShared) []
    have hstore (s : Contents) : effectOfAll s [writeAt trimShared .assign "trim"] =
        some (s.write (.address trimShared) .assign (s trimVariable)) := rfl
    rw [sharedWrites, if_pos hgiven]
    refine ⟨_, effectOfAll_append (effectOfAll_append (effectOfAll_append hload
      (effectOfAll_field t.hirc8m 0 16 _ ?_ ?_)) (effectOfAll_field t.hirc 22 9 _ ?_ ?_)) (hstore _), ?_⟩
    · intro hnone
      rw [hnone]
    · intro value hvalue
      rw [hvalue, replaceField_slow]
      exact effectOfAll_replace _ rfl fun s => effect_set s value _
    · intro hnone
      rw [hnone]
    · intro value hvalue
      rw [hvalue, replaceField_fast]
      exact effectOfAll_replace _ rfl fun s => effect_setShifted s value _
    · simp [replaced, WriteMode.combine]
  · refine ⟨s, ?_, ?_⟩
    · rw [sharedWrites, if_neg hgiven]
      rfl
    · simp only [Bool.or_eq_true, not_or, Option.not_isSome_iff_eq_none] at hgiven
      rw [replaced, hgiven.1, hgiven.2]
      rfl

theorem exists_effectOfAll_fastWrites (s : Contents) : ∃ s', effectOfAll s t.fastWrites = some s' := by
  rw [fastWrites]
  cases t.hirc96m with
  | none => exact ⟨s, rfl⟩
  | some value =>
    have hlimit (s : Contents) : (writeAt trimLimit .assign "trim | (0xff << 15)" (some "HILIM")).effect s =
        some (s.write (.address trimLimit) .assign (s trimVariable ||| (0xff : UInt32) <<< 15)) := rfl
    rw [effectOfAll_cons (effect_loadLimit s trimLimit), effectOfAll_cons (hlimit _), writeAt, effectOfAll_cons (effect_write_hex ..)]
    exact ⟨_, rfl⟩

/-- The fastest oscillator has registers of its own. -/
theorem trimShared_notMem_fastWrites : .address trimShared ∉ targets t.fastWrites := by
  have hlimit : Register.address trimLimit ≠ .address trimShared := by decide
  have hfast : Register.address trimFast ≠ .address trimShared := by decide
  rw [fastWrites]
  cases t.hirc96m with
  | none => exact List.not_mem_nil
  | some value =>
    intro hm
    obtain ⟨op, hop, htarget⟩ := List.mem_filterMap.1 hm
    simp only [List.mem_cons, List.not_mem_nil, or_false] at hop
    rcases hop with rfl | rfl | rfl
    · exact target?_statement_ne _ _ _ htarget
    · exact hlimit (Option.some.inj htarget)
    · exact hfast (Option.some.inj htarget)

theorem exists_effectOfAll_operations (s : Contents) : ∃ s', effectOfAll s t.operations = some s' ∧
    s' (.address trimShared) = t.replaced (s (.address trimShared)) := by
  have hkey : Register.address trimShared ≠ .address trimKey := by decide
  have hopen : effectOfAll s [.comment "Manual clock trim override:", writeAt trimKey .assign "1" (some "Set TME")] =
      some (s.write (.address trimKey) .assign 1) := rfl
  have hclose (s : Contents) : effectOfAll s [writeAt trimKey .assign "0" (some "Clear TME"), .blank] =
      some (s.write (.address trimKey) .assign 0) := rfl
  obtain ⟨u, hshared, hreplaced⟩ := t.exists_effectOfAll_sharedWrites (s.write (.address trimKey) .assign 1)
  obtain ⟨v, hfast⟩ := t.exists_effectOfAll_fastWrites u
  refine ⟨_, effectOfAll_append (effectOfAll_append (effectOfAll_append hopen hshared) hfast) (hclose v), ?_⟩
  rw [Contents.write_of_ne hkey, effectOfAll_of_notMem hfast t.trimShared_notMem_fastWrites, hreplaced, Contents.write_of_ne hkey]

/-- Without a value for it, the shared register is not written. -/
theorem trimShared_notMem_operations (hslow : t.hirc8m = none) (hfast : t.hirc = none) :
    .address trimShared ∉ targets t.operations := by
  have hkey : trimShared ≠ trimKey := by decide
  have hnone : t.sharedWrites = [] := by
    rw [sharedWrites, hslow, hfast]
    rfl
  rw [operations, hnone, List.append_nil, targets, List.filterMap_append, List.filterMap_append]
  simp only [List.mem_append, not_or]
  refine ⟨⟨?_, t.trimShared_notMem_fastWrites⟩, ?_⟩ <;> simp [target?, writeAt, hkey, hkey.symm]

/-- A trim changes its own fields of the shared register: they hold its values where it has some, and all other bits stay. -/
structure ChangesOwnFields (before after : UInt32) : Prop where
  slow : bitField after 0 16 = (t.hirc8m.map UInt32.toNat).getD (bitField before 0 16)
  fast : bitField after 22 9 = (t.hirc.map UInt32.toNat).getD (bitField before 22 9)
  between : bitField after 16 6 = bitField before 16 6
  top : bitField after 31 1 = bitField before 31 1

section

variable {value? : Option UInt32} {word : UInt32} {low width : Nat} (hlow : low < 32) (hwidth : low + width ≤ 32)
  (hvalue : ∀ v, value? = some v → v.toNat < 2 ^ width)

include hlow hwidth hvalue

theorem bitField_elim :
    bitField (value?.elim id (replaceField low width) word) low width = (value?.map UInt32.toNat).getD (bitField word low width) := by
  cases value? with
  | none => rfl
  | some v => exact bitField_replaceField hlow hwidth (hvalue v rfl)

theorem bitField_elim_of_disjoint {low' width' : Nat} (hrange : low' + width' ≤ 32)
    (hdisjoint : low' + width' ≤ low ∨ low + width ≤ low') :
    bitField (value?.elim id (replaceField low width) word) low' width' = bitField word low' width' := by
  cases value? with
  | none => rfl
  | some v => exact bitField_replaceField_of_disjoint hlow hwidth (hvalue v rfl) hrange hdisjoint

end

theorem changesOwnFields_replaced_iff (before : UInt32) : t.ChangesOwnFields before (t.replaced before) ↔
    (∀ v, t.hirc8m = some v → v.toNat < 2 ^ 16) ∧ ∀ v, t.hirc = some v → v.toNat < 2 ^ 9 := by
  constructor
  · -- Whatever a field holds is below its width, so a value that it holds is, too.
    rintro ⟨hslow, hfast, -, -⟩
    refine ⟨fun v hv => ?_, fun v hv => ?_⟩
    · rw [hv, Option.map_some, Option.getD_some] at hslow
      exact hslow ▸ bitField_lt
    · rw [hv, Option.map_some, Option.getD_some] at hfast
      exact hfast ▸ bitField_lt
  · rintro ⟨hslow, hfast⟩
    have hslowStays {low width : Nat} (hlow : 16 ≤ low) (hrange : low + width ≤ 32) (word : UInt32) :
        bitField (t.hirc8m.elim id (replaceField 0 16) word) low width = bitField word low width :=
      bitField_elim_of_disjoint (by decide) (by decide) hslow hrange (Or.inr hlow)
    have hfastStays {low width : Nat} (hrange : low + width ≤ 32) (hdisjoint : low + width ≤ 22 ∨ 31 ≤ low) (word : UInt32) :
        bitField (t.hirc.elim id (replaceField 22 9) word) low width = bitField word low width :=
      bitField_elim_of_disjoint (by decide) (by decide) hfast hrange hdisjoint
    refine ⟨?_, ?_, ?_, ?_⟩ <;> rw [replaced]
    · rw [hfastStays (by decide) (by decide)]
      exact bitField_elim (by decide) (by decide) hslow
    · rw [bitField_elim (by decide) (by decide) hfast, hslowStays (by decide) (by decide)]
    · rw [hfastStays (by decide) (by decide), hslowStays (by decide) (by decide)]
    · rw [hfastStays (by decide) (by decide), hslowStays (by decide) (by decide)]

/-- A trim changes its own fields of the shared register if and only if its values have the widths of those fields, and without
a value for the register it is not written. A configuration may have any trim. -/
theorem changes_own_fields_iff (t : ClockTrim) (s : Contents) :
    (∃ s', effectOfAll s t.operations = some s' ∧ s' (.address trimShared) = t.replaced (s (.address trimShared)) ∧
      (t.ChangesOwnFields (s (.address trimShared)) (s' (.address trimShared)) ↔
        (∀ v, t.hirc8m = some v → v.toNat < 2 ^ 16) ∧ ∀ v, t.hirc = some v → v.toNat < 2 ^ 9)) ∧
    (t.hirc8m = none → t.hirc = none → .address trimShared ∉ targets t.operations) ∧
    ∀ c : Configuration, { c.toSettings with clockTrim := some t }.conflict? = none := by
  refine ⟨?_, t.trimShared_notMem_operations, fun c => c.legal⟩
  obtain ⟨s', hrun, hreplaced⟩ := t.exists_effectOfAll_operations s
  refine ⟨s', hrun, hreplaced, ?_⟩
  rw [hreplaced]
  exact t.changesOwnFields_replaced_iff _

/-- A value of 23 bits for the slowest oscillator, whose field has 16, also sets the first bit of the other field. -/
theorem changes_own_fields_spilled : ∃ s', effectOfAll (fun _ => 0) (ClockTrim.operations ⟨some 0x400000, none, none⟩) = some s' ∧
    bitField (s' (.address trimShared)) 22 9 = 1 ∧ ¬ ChangesOwnFields ⟨some 0x400000, none, none⟩ 0 (s' (.address trimShared)) := by
  obtain ⟨⟨s', hrun, hreplaced, hiff⟩, -⟩ := changes_own_fields_iff ⟨some 0x400000, none, none⟩ fun _ => 0
  refine ⟨s', hrun, ?_, fun hfields => absurd ((hiff.1 hfields).1 0x400000 rfl) (by decide)⟩
  rw [hreplaced]
  decide

end ClockTrim

end AccelFirmware
