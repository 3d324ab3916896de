/-!
Byte strings, and 32-bit words in little-endian order.
-/
namespace CameraChannel

abbrev Bytes := List UInt8

/-- The byte of an ASCII character. -/
@[inline] def ascii (c : Char) : UInt8 := UInt8.ofNat c.toNat

namespace Bytes

/-- The four bytes of a word, least significant first. -/
def ofWord (w : UInt32) : Bytes :=
  [UInt8.ofNat w.toNat, UInt8.ofNat (w.toNat / 256), UInt8.ofNat (w.toNat / 65536),
    UInt8.ofNat (w.toNat / 16777216)]

def toWord (a b c d : UInt8) : UInt32 :=
  UInt32.ofNat (a.toNat + 256 * b.toNat + 65536 * c.toNat + 16777216 * d.toNat)

@[simp] theorem length_ofWord (w : UInt32) : (ofWord w).length = 4 := rfl

end Bytes

end CameraChannel
