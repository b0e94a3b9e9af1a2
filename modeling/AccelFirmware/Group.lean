import AccelFirmware.Device.Basic
import AccelFirmware.Text.Numeral

/-!
# Accelerator groups

The groups that a program uses, as an ascending list without repetition and as bit masks over the groups of a device.
-/

namespace AccelFirmware

/-! ## Sets of groups -/

/-- A set of groups, by its members in ascending order. -/
structure GroupSet where
  members : List UInt8
  ascending : members.Pairwise (· < ·)
  deriving DecidableEq, Repr

namespace GroupSet

def insert (group : UInt8) : List UInt8 → List UInt8
  | [] => [group]
  | g :: gs =>
      if group < g then group :: g :: gs
      else if group = g then g :: gs
      else g :: insert group gs

theorem mem_insert {group g : UInt8} {gs : List UInt8} : g ∈ insert group gs ↔ g = group ∨ g ∈ gs := by
  induction gs with
  | nil => simp [insert]
  | cons h gs ih =>
    simp only [insert]
    split
    · simp
    · split
      · rename_i e
        subst e
        simp
      · simp only [List.mem_cons, ih]
        constructor
        · rintro (h | h | h) <;> simp [h]
        · rintro (h | h | h) <;> simp [h]

theorem pairwise_insert {group : UInt8} {gs : List UInt8} (h : gs.Pairwise (· < ·)) :
    (insert group gs).Pairwise (· < ·) := by
  induction gs with
  | nil => simp [insert]
  | cons g gs ih =>
    have hg := List.pairwise_cons.1 h
    simp only [insert]
    split
    · rename_i lt
      refine List.pairwise_cons.2 ⟨fun x hx => ?_, h⟩
      rcases List.mem_cons.1 hx with rfl | hx
      · exact lt
      · exact UInt8.lt_trans lt (hg.1 x hx)
    · split
      · exact h
      · rename_i ge ne
        refine List.pairwise_cons.2 ⟨fun x hx => ?_, ih hg.2⟩
        rcases mem_insert.1 hx with rfl | hx
        · exact UInt8.lt_of_le_of_ne (UInt8.not_lt.1 ge) fun e => ne e.symm
        · exact hg.1 x hx

def sorted : List UInt8 → List UInt8
  | [] => []
  | g :: gs => insert g (sorted gs)

theorem pairwise_sorted (gs : List UInt8) : (sorted gs).Pairwise (· < ·) := by
  induction gs with
  | nil => exact List.Pairwise.nil
  | cons g gs ih => exact pairwise_insert ih

/-- The groups of a list, in whatever order and however often they occur. -/
def ofList (gs : List UInt8) : GroupSet := ⟨sorted gs, pairwise_sorted gs⟩

def empty : GroupSet := ⟨[], List.Pairwise.nil⟩

instance : Membership UInt8 GroupSet := ⟨fun s g => g ∈ s.members⟩

instance (s : GroupSet) (g : UInt8) : Decidable (g ∈ s) := inferInstanceAs (Decidable (g ∈ s.members))

end GroupSet

/-! ## Masks -/

/-- A group that a device does not have, or that has no bit in a mask. -/
structure GroupRangeError where
  group : UInt8
  device : String
  count : UInt8
  deriving DecidableEq, Repr

def GroupRangeError.message (e : GroupRangeError) : String :=
  "group " ++ decimal e.group.toNat ++ " is out of range for " ++ e.device ++ " (" ++ decimal e.count.toNat
    ++ " groups)"

/-- The groups in use, the other groups of the device, and all of its groups. -/
structure GroupMask where
  mask : UInt32
  unmask : UInt32
  all : UInt32
  deriving DecidableEq, Repr

namespace GroupMask

def bit (group : UInt8) : UInt32 := 1 <<< group.toUInt32

/-- Fails at the least group that is out of range. -/
def make (groups : GroupSet) (device : Device) : Except GroupRangeError GroupMask :=
  match groups.members.find? fun g => device.groupCount ≤ g || 32 ≤ g with
  | some group => .error ⟨group, device.name, device.groupCount⟩
  | none =>
      let mask := groups.members.foldl (fun m g => m ||| bit g) 0
      .ok ⟨mask, ~~~mask &&& device.allGroups, device.allGroups⟩

end GroupMask

end AccelFirmware
