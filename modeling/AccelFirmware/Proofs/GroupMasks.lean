import AccelFirmware.Group
import AccelFirmware.Proofs.WordBits

/-!
# Masks of groups

When the masks of some groups are made, and which groups they stand for, bit by bit. A device that passes its checks has few
enough groups for all of them to have their bit.
-/

namespace AccelFirmware

/-- How many groups of a device have a bit in the masks. -/
def Device.maskWidth (d : Device) : Nat := min d.groupCount.toNat 32

/-- Below the sixteen groups that a device can have, every group has a bit. -/
theorem Device.maskWidth_eq {d : Device} (h : d.groupCount ≤ 16) : d.maskWidth = d.groupCount.toNat :=
  Nat.min_eq_left (Nat.le_trans (UInt8.le_iff_toNat_le.1 h) (by decide))

/-- Bit by bit, the groups in use, the other groups of a device, and all of its groups. -/
structure GroupMask.Marks (m : GroupMask) (groups : GroupSet) (device : Device) : Prop where
  used : ∀ n, m.mask.toNat.testBit n = true ↔ ∃ g ∈ groups, g.toNat = n
  unused : ∀ n, m.unmask.toNat.testBit n = true ↔ n < device.groupCount.toNat ∧ ∀ g ∈ groups, g.toNat ≠ n
  every : ∀ n, m.all.toNat.testBit n = true ↔ n < device.groupCount.toNat

namespace GroupMask

variable {m : GroupMask} {groups : GroupSet} {d : Device}

/-! ## Bits -/

theorem toNat_bit {g : UInt8} (h : g < 32) : (bit g).toNat = 2 ^ g.toNat := by
  have hg : g.toNat < 32 := UInt8.lt_iff_toNat_lt.1 h
  have hpower : 2 ^ g.toNat < 2 ^ 32 := Nat.pow_lt_pow_right (by decide) hg
  rw [bit, UInt32.toNat_shiftLeft, UInt8.toNat_toUInt32, Nat.mod_eq_of_lt hg, UInt32.toNat_one, Nat.shiftLeft_eq, Nat.one_mul,
    Nat.mod_eq_of_lt hpower]

theorem testBit_bit {g : UInt8} (h : g < 32) (n : Nat) : (bit g).toNat.testBit n = true ↔ g.toNat = n := by
  rw [toNat_bit h, Nat.testBit_two_pow, decide_eq_true_iff]

theorem testBit_foldl {gs : List UInt8} (h : ∀ g ∈ gs, g < 32) (start : UInt32) (n : Nat) :
    (gs.foldl (fun m g => m ||| bit g) start).toNat.testBit n = true ↔
      start.toNat.testBit n = true ∨ ∃ g ∈ gs, g.toNat = n := by
  -- The start is general because every group of the fold changes it.
  induction gs generalizing start with
  | nil => simp
  | cons g gs ih =>
    have hg : g < 32 := h g (by simp)
    rw [List.foldl_cons, ih fun g hg => h g (by simp [hg])]
    simp [UInt32.toNat_or, Nat.testBit_or, testBit_bit hg, or_assoc]

theorem toNat_allGroups (d : Device) : d.allGroups.toNat = 2 ^ d.maskWidth - 1 := by
  rw [Device.allGroups, Device.maskWidth]
  split
  · rename_i hlt
    have hbit : ((1 : UInt32) <<< d.groupCount.toUInt32).toNat = 2 ^ d.groupCount.toNat := toNat_bit hlt
    have hone : (1 : UInt32) ≤ 1 <<< d.groupCount.toUInt32 := by
      rw [UInt32.le_iff_toNat_le, hbit]
      exact Nat.one_le_two_pow
    have hcount : d.groupCount.toNat < 32 := UInt8.lt_iff_toNat_lt.1 hlt
    rw [UInt32.toNat_sub_of_le _ _ hone, hbit, Nat.min_eq_left (Nat.le_of_lt hcount)]
    rfl
  · rename_i hge
    have hcount : 32 ≤ d.groupCount.toNat := UInt8.le_iff_toNat_le.1 (UInt8.not_lt.1 hge)
    rw [Nat.min_eq_right hcount]
    rfl

theorem testBit_allGroups (d : Device) (n : Nat) : d.allGroups.toNat.testBit n = true ↔ n < d.maskWidth := by
  rw [toNat_allGroups, Nat.testBit_two_pow_sub_one, decide_eq_true_iff]

/-! ## Making masks -/

/-- What is refused is a group that is beyond the device or beyond the bits of a word. -/
theorem refused_iff (g : UInt8) : (d.groupCount ≤ g || 32 ≤ g) = true ↔ d.maskWidth ≤ g.toNat := by
  have hword : (32 : UInt8).toNat = 32 := rfl
  simp only [Bool.or_eq_true, decide_eq_true_eq, UInt8.le_iff_toNat_le, Device.maskWidth, hword]
  omega

/-- The error names the least group without a bit. -/
theorem make_eq_error_iff {e : GroupRangeError} : make groups d = .error e ↔
    (e.group ∈ groups ∧ d.maskWidth ≤ e.group.toNat ∧ ∀ g ∈ groups, d.maskWidth ≤ g.toNat → e.group ≤ g) ∧
      e = ⟨e.group, d.name, d.groupCount⟩ := by
  simp only [make]
  cases hf : groups.members.find? fun g => d.groupCount ≤ g || 32 ≤ g with
  | none =>
    constructor
    · rintro ⟨⟩
    · rintro ⟨⟨hg, hout, -⟩, -⟩
      exact absurd ((refused_iff e.group).2 hout) (List.find?_eq_none.1 hf e.group hg)
  | some least =>
    obtain ⟨hout, before, after, hmembers, hbefore⟩ := List.find?_eq_some_iff_append.1 hf
    have hmem : least ∈ groups := by
      change least ∈ groups.members
      simp [hmembers]
    -- The groups ascend, so only those before the first refused one are less.
    have hleast (g : UInt8) (hg : g ∈ groups) (hwide : d.maskWidth ≤ g.toNat) : least ≤ g := by
      change g ∈ groups.members at hg
      have hascending := groups.ascending
      rw [hmembers] at hg hascending
      rcases List.mem_append.1 hg with hg | hg
      · have hin := hbefore g hg
        rw [(refused_iff g).2 hwide] at hin
        cases hin
      · rcases List.mem_cons.1 hg with rfl | hg
        · exact UInt8.le_refl _
        · exact UInt8.le_of_lt ((List.pairwise_cons.1 (List.pairwise_append.1 hascending).2.1).1 g hg)
    constructor
    · rintro ⟨⟩
      exact ⟨⟨hmem, (refused_iff least).1 hout, hleast⟩, rfl⟩
    · rintro ⟨⟨hg, hwide, hle⟩, he⟩
      have hsame : e.group = least := UInt8.le_antisymm (hle least hmem ((refused_iff least).1 hout)) (hleast e.group hg hwide)
      rw [he, hsame]

theorem make_eq_ok_iff : make groups d = .ok m ↔ (∀ g ∈ groups, g.toNat < d.maskWidth) ∧
    m.mask = groups.members.foldl (fun m g => m ||| bit g) 0 ∧ m.unmask = ~~~m.mask &&& d.allGroups ∧ m.all = d.allGroups := by
  simp only [make]
  cases hf : groups.members.find? fun g => d.groupCount ≤ g || 32 ≤ g with
  | some g =>
    have hout : d.maskWidth ≤ g.toNat := (refused_iff g).1 (by simpa using List.find?_some hf)
    have hmem : g ∈ groups := List.mem_of_find?_eq_some hf
    constructor
    · rintro ⟨⟩
    · rintro ⟨hin, -⟩
      exact absurd (hin g hmem) (Nat.not_lt.2 hout)
  | none =>
    have hin : ∀ g ∈ groups, g.toNat < d.maskWidth := fun g hg =>
      Nat.not_le.1 fun hout => List.find?_eq_none.1 hf g hg ((refused_iff g).2 hout)
    obtain ⟨mask, unmask, all⟩ := m
    simp only [Except.ok.injEq, mk.injEq]
    constructor
    · rintro ⟨rfl, rfl, rfl⟩
      exact ⟨hin, rfl, rfl, rfl⟩
    · rintro ⟨-, rfl, rfl, rfl⟩
      exact ⟨rfl, rfl, rfl⟩

/-! ## Meaning -/

theorem testBit_mask (h : make groups d = .ok m) (n : Nat) : m.mask.toNat.testBit n = true ↔ ∃ g ∈ groups, g.toNat = n := by
  obtain ⟨hin, hmask, -⟩ := make_eq_ok_iff.1 h
  have hsmall (g : UInt8) (hg : g ∈ groups.members) : g < 32 := by
    have hg : g.toNat < 32 := Nat.lt_of_lt_of_le (hin g hg) (Nat.min_le_right _ _)
    exact UInt8.lt_iff_toNat_lt.2 hg
  rw [hmask, testBit_foldl hsmall]
  simp
  rfl

theorem testBit_all (h : make groups d = .ok m) (n : Nat) : m.all.toNat.testBit n = true ↔ n < d.maskWidth := by
  rw [(make_eq_ok_iff.1 h).2.2.2, testBit_allGroups]

theorem testBit_unmask (h : make groups d = .ok m) (n : Nat) :
    m.unmask.toNat.testBit n = true ↔ n < d.maskWidth ∧ ∀ g ∈ groups, g.toNat ≠ n := by
  rw [(make_eq_ok_iff.1 h).2.2.1, UInt32.toNat_and, Nat.testBit_and, Bool.and_eq_true, testBit_allGroups, and_comm]
  refine and_congr_right fun hn => ?_
  -- A complement also sets the bits above the groups, which the mask of all groups then clears.
  rw [testBit_complement _ (Nat.lt_of_lt_of_le hn (Nat.min_le_right _ _)), Bool.not_eq_true', ← Bool.not_eq_true, testBit_mask h]
  constructor
  · exact fun hnone g hg he => hnone ⟨g, hg, he⟩
  · rintro hfree ⟨g, hg, he⟩
    exact hfree g hg he

theorem marks_of_make (h : make groups d = .ok m) (hcount : d.groupCount ≤ 16) : m.Marks groups d := by
  have hunused := testBit_unmask h
  have hevery := testBit_all h
  rw [Device.maskWidth_eq hcount] at hunused hevery
  exact ⟨testBit_mask h, hunused, hevery⟩

theorem mask_and_unmask (h : make groups d = .ok m) : m.mask &&& m.unmask = 0 := by
  refine eq_of_testBit_eq fun n => ?_
  rw [UInt32.toNat_and, Nat.testBit_and]
  cases hmask : m.mask.toNat.testBit n with
  | false => simp
  | true =>
    obtain ⟨g, hg, he⟩ := (testBit_mask h n).1 hmask
    have hunmask : ¬ m.unmask.toNat.testBit n = true := fun hunmask => ((testBit_unmask h n).1 hunmask).2 g hg he
    simpa using hunmask

theorem mask_or_unmask (h : make groups d = .ok m) : m.mask ||| m.unmask = m.all := by
  refine eq_of_testBit_eq fun n => Bool.eq_iff_iff.2 ?_
  rw [UInt32.toNat_or, Nat.testBit_or, Bool.or_eq_true, testBit_mask h, testBit_unmask h, testBit_all h]
  constructor
  · rintro (⟨g, hg, rfl⟩ | ⟨hn, -⟩)
    · exact (make_eq_ok_iff.1 h).1 g hg
    · exact hn
  · intro hn
    by_cases hused : ∃ g ∈ groups, g.toNat = n
    · exact Or.inl hused
    · exact Or.inr ⟨hn, fun g hg he => hused ⟨g, hg, he⟩⟩

end GroupMask

end AccelFirmware
