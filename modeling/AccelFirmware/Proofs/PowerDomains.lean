import AccelFirmware.Device.Preset
import AccelFirmware.PowerDomain
import AccelFirmware.Proofs.GroupMasks
import AccelFirmware.Proofs.RegisterContents

/-!
# Power domains

What a power sequence leaves in the registers of the power controller. Masks are made for all groups that have a bit, and the two
directions then switch exactly the groups that the masks stand for.
-/

namespace AccelFirmware

open Operation

/-! ## Registers -/

namespace PowerController

/-- Bit by bit, the groups that have power and memory and those that are isolated. No group is in reset. -/
structure Switched (c : PowerController) (t : Contents) (powered isolated : Nat → Prop) : Prop where
  power : ∀ n, (t (c.register 0)).toNat.testBit n = true ↔ powered n
  memory : ∀ n, (t (c.register 1)).toNat.testBit n = true ↔ powered n
  isolation : ∀ n, (t (c.register 2)).toNat.testBit n = true ↔ isolated n
  reset : t (c.register 3) = 0

theorem registers_nodup (c : PowerController) : ([0, 1, 2, 3].map c.register).Nodup := by
  cases c <;> decide +kernel

end PowerController

section Sequences

variable {s : Contents} (c : PowerController) (direction : PowerDirection) (m : GroupMask)

theorem targets_powerSequence : targets (powerSequence c direction m) = [3, 1, 0, 2, 3].map c.register := by
  cases direction <;> rfl

/-- A power sequence assigns its values, one after the other. -/
theorem effectOfAll_powerSequence : effectOfAll s (powerSequence c direction m) =
    some ((powerWrites direction m).foldl (fun s (index, value, _) => s.write (c.register index) .assign value) s) := by
  rw [powerSequence, effectOfAll_cons (t := s) rfl]
  generalize powerWrites direction m = writes
  induction writes generalizing s with
  | nil => rfl
  | cons w writes ih => rw [List.map_cons, effectOfAll_cons (effect_write_hex ..), ih, List.foldl_cons]

/-- The last values that a power sequence assigns. -/
theorem exists_effectOfAll_powerSequence (s : Contents) : ∃ t, effectOfAll s (powerSequence c direction m) = some t ∧
    t (c.register 0) = direction.powered m ∧ t (c.register 1) = direction.powered m ∧
    t (c.register 2) = direction.isolated m ∧ t (c.register 3) = 0 := by
  refine ⟨_, effectOfAll_powerSequence c direction m, ?_⟩
  have hnodup := c.registers_nodup
  simp only [List.map_cons, List.map_nil, List.nodup_cons, List.mem_cons, List.not_mem_nil, or_false, not_or] at hnodup
  obtain ⟨⟨h01, h02, h03⟩, ⟨h12, h13⟩, h23, -⟩ := hnodup
  simp only [powerWrites, List.foldl_cons, List.foldl_nil]
  refine ⟨?_, ?_, ?_, Contents.write_self⟩
  · rw [Contents.write_of_ne h03, Contents.write_of_ne h02, Contents.write_self]
    rfl
  · rw [Contents.write_of_ne h13, Contents.write_of_ne h12, Contents.write_of_ne (Ne.symm h01), Contents.write_self]
    rfl
  · rw [Contents.write_of_ne h23, Contents.write_self]
    rfl

end Sequences

/-! ## Groups -/

namespace GroupMask

variable {groups : GroupSet} {d : Device} {m : GroupMask}

/-- Up, exactly the groups in use have power and memory, and exactly the other groups are isolated. -/
theorem switched_up (h : make groups d = .ok m) (c : PowerController) (s : Contents) :
    ∃ t, effectOfAll s (powerSequence c .up m) = some t ∧
      c.Switched t (fun n => ∃ g ∈ groups, g.toNat = n) fun n => n < d.maskWidth ∧ ∀ g ∈ groups, g.toNat ≠ n := by
  obtain ⟨t, hrun, hpower, hmemory, hisolation, hreset⟩ := exists_effectOfAll_powerSequence c .up m s
  refine ⟨t, hrun, fun n => ?_, fun n => ?_, fun n => ?_, hreset⟩
  · rw [hpower]
    exact testBit_mask h n
  · rw [hmemory]
    exact testBit_mask h n
  · rw [hisolation]
    exact testBit_unmask h n

/-- Down, no group has power or memory, and all groups are isolated. -/
theorem switched_down (h : make groups d = .ok m) (c : PowerController) (s : Contents) :
    ∃ t, effectOfAll s (powerSequence c .down m) = some t ∧ c.Switched t (fun _ => False) fun n => n < d.maskWidth := by
  obtain ⟨t, hrun, hpower, hmemory, hisolation, hreset⟩ := exists_effectOfAll_powerSequence c .down m s
  have hnone (n : Nat) : (0 : UInt32).toNat.testBit n = true ↔ False := by simp
  refine ⟨t, hrun, fun n => ?_, fun n => ?_, fun n => ?_, hreset⟩
  · rw [hpower]
    exact hnone n
  · rw [hmemory]
    exact hnone n
  · rw [hisolation]
    exact testBit_all h n

/-- Masks are made unless some group has no bit, of which the error names the least. The groups in use and the other ones then
divide the groups of the device, and they are what the two directions of power switch, over the same registers in the same order. -/
theorem make_switches_groups (groups : GroupSet) (d : Device) :
    ((∃ e, make groups d = .error e) ↔ ∃ g ∈ groups, min d.groupCount.toNat 32 ≤ g.toNat) ∧
    (∀ e, make groups d = .error e → e = ⟨e.group, d.name, d.groupCount⟩ ∧ e.group ∈ groups ∧
      min d.groupCount.toNat 32 ≤ e.group.toNat ∧ ∀ g ∈ groups, min d.groupCount.toNat 32 ≤ g.toNat → e.group ≤ g) ∧
    ∀ m, make groups d = .ok m →
      (∀ n, m.mask.toNat.testBit n = true ↔ ∃ g ∈ groups, g.toNat = n) ∧
      (∀ n, m.all.toNat.testBit n = true ↔ n < min d.groupCount.toNat 32) ∧
      m.mask &&& m.unmask = 0 ∧ m.mask ||| m.unmask = m.all ∧
      ∀ c : PowerController,
        (∀ s, ∃ t, effectOfAll s (powerSequence c .up m) = some t ∧ c.Switched t (fun n => ∃ g ∈ groups, g.toNat = n)
          fun n => n < min d.groupCount.toNat 32 ∧ ∀ g ∈ groups, g.toNat ≠ n) ∧
        (∀ s, ∃ t, effectOfAll s (powerSequence c .down m) = some t ∧
          c.Switched t (fun _ => False) fun n => n < min d.groupCount.toNat 32) ∧
        ∀ direction, targets (powerSequence c direction m) = [3, 1, 0, 2, 3].map c.register := by
  refine ⟨⟨?_, ?_⟩, ?_, ?_⟩
  · rintro ⟨e, he⟩
    obtain ⟨⟨hg, hout, -⟩, -⟩ := make_eq_error_iff.1 he
    exact ⟨e.group, hg, hout⟩
  · rintro ⟨g, hg, hout⟩
    cases hmake : make groups d with
    | error e => exact ⟨e, rfl⟩
    | ok m => exact absurd ((make_eq_ok_iff.1 hmake).1 g hg) (Nat.not_lt.2 hout)
  · intro e he
    obtain ⟨⟨hg, hout, hleast⟩, hname⟩ := make_eq_error_iff.1 he
    exact ⟨hname, hg, hout, hleast⟩
  · intro m hm
    exact ⟨testBit_mask hm, testBit_all hm, mask_and_unmask hm, mask_or_unmask hm, fun c =>
      ⟨switched_up hm c, switched_down hm c, fun direction => targets_powerSequence c direction m⟩⟩

/-- Four groups of which two are in use, and a set with two groups that are not there. -/
theorem make_switches_groups_ai85 :
    (∃ m, make (.ofList [0, 2]) .ai85 = .ok m ∧ m.mask = 0b0101 ∧ m.unmask = 0b1010 ∧ m.mask ||| m.unmask = m.all ∧
      ∀ s, ∃ t, effectOfAll s (powerSequence .bbfc .up m) = some t ∧
        PowerController.bbfc.Switched t (fun n => ∃ g ∈ GroupSet.ofList [0, 2], g.toNat = n)
          fun n => n < 4 ∧ ∀ g ∈ GroupSet.ofList [0, 2], g.toNat ≠ n) ∧
    ∃ e, make (.ofList [9, 0, 7]) .ai85 = .error e ∧ e.group = 7 ∧ e.group ∈ GroupSet.ofList [9, 0, 7] := by
  constructor
  · obtain ⟨-, -, hmade⟩ := make_switches_groups (.ofList [0, 2]) .ai85
    obtain ⟨-, -, -, hall, hswitches⟩ := hmade ⟨0b0101, 0b1010, 0b1111⟩ (by decide)
    exact ⟨_, by decide, rfl, rfl, hall, (hswitches .bbfc).1⟩
  · obtain ⟨-, hfails, -⟩ := make_switches_groups (.ofList [9, 0, 7]) .ai85
    have hmake : make (.ofList [9, 0, 7]) .ai85 = .error ⟨7, "ai85", 4⟩ := by decide
    obtain ⟨-, hgroup, -⟩ := hfails _ hmake
    exact ⟨_, hmake, rfl, hgroup⟩

end GroupMask

end AccelFirmware
