/-!
# Blank characters

The characters of the Unicode property `White_Space`. A name made of them alone counts as empty.
-/

namespace AccelFirmware

/-- The ranges of the property, ends included. -/
def blankRanges : List (Nat × Nat) :=
  [(0x09, 0x0d), (0x20, 0x20), (0x85, 0x85), (0xa0, 0xa0), (0x1680, 0x1680), (0x2000, 0x200a),
   (0x2028, 0x2029), (0x202f, 0x202f), (0x205f, 0x205f), (0x3000, 0x3000)]

def isBlank (c : Char) : Bool :=
  blankRanges.any fun (first, last) => first ≤ c.toNat && c.toNat ≤ last

def allBlank (text : String) : Bool :=
  text.toList.all isBlank

end AccelFirmware
