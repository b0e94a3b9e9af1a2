import AccelFirmware.Device.Validation
import AccelFirmware.Proofs.Outcome

/-!
# Addresses of control registers

On a device without errors no address computation wraps: the control registers of its groups lie where the sum of base, stride
and index says.
-/

namespace AccelFirmware

/-! ## Checked words -/

theorem toNat_of_addChecked {a b w : UInt32} (h : addChecked a b = some w) : w.toNat = a.toNat + b.toNat := by
  simp only [addChecked] at h
  split at h
  · rename_i hlt
    cases h
    rw [UInt32.toNat_add]
    exact Nat.mod_eq_of_lt hlt
  · cases h

theorem toNat_of_mulChecked {a b w : UInt32} (h : mulChecked a b = some w) : w.toNat = a.toNat * b.toNat := by
  simp only [mulChecked] at h
  split at h
  · rename_i hlt
    cases h
    rw [UInt32.toNat_mul]
    exact Nat.mod_eq_of_lt hlt
  · cases h

namespace Device

variable {d : Device} {group : UInt8}

/-! ## The last group -/

/-- The control register of a group, counted without bound. -/
def ctlOffset (d : Device) (group : UInt8) : Nat :=
  d.apbBase.toNat + d.cnnBase.toNat + d.groupStride.toNat * group.toNat + d.ctlRegister.toNat * 4

theorem ctlOffset_of_lastCtl {w : UInt32} (h : d.lastCtl? = some w) : w.toNat = d.ctlOffset d.lastGroup := by
  simp only [lastCtl?, Option.bind_eq_bind, Option.bind_eq_some_iff] at h
  obtain ⟨base, hbase, offset, hoffset, start, hstart, index, hindex, hw⟩ := h
  rw [toNat_of_addChecked hw, toNat_of_addChecked hstart, toNat_of_addChecked hbase, toNat_of_mulChecked hoffset,
    toNat_of_mulChecked hindex, ctlOffset, UInt8.toNat_toUInt32]
  rfl

theorem ctlOffset_lastGroup_lt (h : d.errors = []) : d.ctlOffset d.lastGroup < UInt32.size := by
  have hfound : (DeviceIssue.addressOverflow, d.lastCtl?.isNone) ∈ d.findings := by simp [findings]
  have hfine := finding_eq_false h hfound rfl
  cases hw : d.lastCtl? with
  | none => simp [hw] at hfine
  | some w =>
    rw [← ctlOffset_of_lastCtl hw]
    exact w.toNat_lt

/-! ## Every group -/

theorem le_lastGroup (hg : group < d.groupCount) : group.toNat ≤ d.lastGroup.toNat := by
  have hlt : group.toNat < d.groupCount.toNat := UInt8.lt_iff_toNat_lt.1 hg
  have hne : d.groupCount ≠ 0 := by
    rintro hz
    simp [hz] at hlt
  have hone : (1 : UInt8) ≤ d.groupCount := by
    rw [UInt8.le_iff_toNat_le]
    have : (1 : UInt8).toNat = 1 := rfl
    omega
  rw [lastGroup, if_neg hne, UInt8.toNat_sub_of_le _ _ hone]
  have : (1 : UInt8).toNat = 1 := rfl
  omega

/-- The address of a control register is the exact sum. -/
theorem toNat_ctlAddress (h : d.errors = []) (hg : group < d.groupCount) :
    (d.ctlAddress group).toNat = d.ctlOffset group := by
  have hlast := ctlOffset_lastGroup_lt h
  have hle : d.groupStride.toNat * group.toNat ≤ d.groupStride.toNat * d.lastGroup.toNat :=
    Nat.mul_le_mul_left _ (le_lastGroup hg)
  simp only [ctlOffset] at hlast ⊢
  have hfour : (4 : UInt32).toNat = 4 := rfl
  have hsize : UInt32.size = 2 ^ 32 := rfl
  simp only [ctlAddress, baseAddress, UInt32.toNat_add, UInt32.toNat_mul, UInt8.toNat_toUInt32, hfour]
  omega

theorem toNat_baseAddress (h : d.errors = []) : d.baseAddress.toNat = d.apbBase.toNat + d.cnnBase.toNat := by
  have hlast := ctlOffset_lastGroup_lt h
  have hsize : UInt32.size = 2 ^ 32 := rfl
  simp only [ctlOffset] at hlast
  rw [baseAddress, UInt32.toNat_add]
  exact Nat.mod_eq_of_lt (by omega)

/-- Groups beyond the first one lie apart. -/
theorem groupStride_pos (h : d.errors = []) (hg : group < d.groupCount) (hne : group ≠ 0) : 0 < d.groupStride.toNat := by
  have hfound : (DeviceIssue.zeroStride, decide (d.groupCount > 1) && decide (d.groupStride = 0)) ∈ d.findings := by
    simp [findings]
  have hfine := finding_eq_false h hfound rfl
  have hone : (1 : UInt8).toNat = 1 := rfl
  have hpos : group.toNat ≠ 0 := fun hz => hne (UInt8.toNat_inj.1 hz)
  have hcount : d.groupCount > 1 := by
    rw [gt_iff_lt, UInt8.lt_iff_toNat_lt]
    have := UInt8.lt_iff_toNat_lt.1 hg
    omega
  have hstride : d.groupStride ≠ 0 := by simpa [hcount] using hfine
  exact Nat.pos_of_ne_zero fun hz => hstride (UInt32.toNat_inj.1 hz)

/-- Only the first group can have its control register at the base address, and only as its first register. -/
theorem ctlAddress_eq_baseAddress_iff (h : d.errors = []) (hg : group < d.groupCount) :
    d.ctlAddress group = d.baseAddress ↔ d.ctlRegister = 0 ∧ group = 0 := by
  rw [← UInt32.toNat_inj, toNat_ctlAddress h hg, toNat_baseAddress h, ctlOffset]
  constructor
  · intro he
    have hregister : d.ctlRegister.toNat = 0 := by omega
    refine ⟨UInt32.toNat_inj.1 hregister, ?_⟩
    by_contra hne
    have hpos : 0 < d.groupStride.toNat * group.toNat := by
      refine Nat.mul_pos (groupStride_pos h hg hne) (Nat.pos_of_ne_zero fun hz => hne ?_)
      exact UInt8.toNat_inj.1 hz
    omega
  · rintro ⟨hregister, rfl⟩
    simp [hregister]

end Device

end AccelFirmware
