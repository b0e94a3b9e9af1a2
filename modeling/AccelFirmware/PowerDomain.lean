import AccelFirmware.Group
import AccelFirmware.Operation.Basic

/-!
# Power of accelerator groups

The five register writes that switch the power of groups. Both directions write the same registers in the same order:
reset, memory mask, power, isolation, reset.
-/

namespace AccelFirmware

inductive PowerDirection where
  | up
  | down
  deriving DecidableEq, Repr

namespace PowerDirection

def heading : PowerDirection → String
  | .up => "Reset all domains, restore power to CNN"
  | .down => "Disable power to CNN"

def powered (m : GroupMask) : PowerDirection → UInt32
  | .up => m.mask
  | .down => 0

def isolated (m : GroupMask) : PowerDirection → UInt32
  | .up => m.unmask
  | .down => m.all

end PowerDirection

/-- The five writes of a direction, as register index, value and purpose. -/
def powerWrites (direction : PowerDirection) (m : GroupMask) : List (Nat × UInt32 × String) :=
  [(3, m.all, "Reset"), (1, direction.powered m, "Mask memory"), (0, direction.powered m, "Power"),
   (2, direction.isolated m, "Iso"), (3, 0, "Reset")]

def PowerController.register (c : PowerController) (index : Nat) : Register :=
  .named (c.block ++ "->reg" ++ decimal index)

def powerSequence (c : PowerController) (direction : PowerDirection) (m : GroupMask) : List Operation :=
  .comment direction.heading ::
    (powerWrites direction m).map fun (index, value, purpose) =>
      .write (c.register index) .assign ("0x" ++ hex value.toNat) (some purpose)

end AccelFirmware
