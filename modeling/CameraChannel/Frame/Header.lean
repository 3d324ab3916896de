import CameraChannel.Bytes

/-!
The 18-byte header of a frame: payload length, message flag, package id, deal flag and forwarding
token, in this order, with words in little-endian order. Main statement: reading a header gives back
what was written, with the bytes behind it.
-/
namespace CameraChannel

/-- Eight bytes that route a frame. -/
abbrev ForwardId := Vector UInt8 8

def ForwardId.zero : ForwardId := #v[0, 0, 0, 0, 0, 0, 0, 0]

structure Header where
  length : UInt32 := 0
  messageFlag : UInt8 := 0
  packageId : UInt32 := 0
  dealFlag : UInt8 := 0
  forwardId : ForwardId := .zero
  deriving DecidableEq, Repr

namespace Header

def size : Nat := 18

def toBytes (h : Header) : Bytes :=
  Bytes.ofWord h.length ++ h.messageFlag :: Bytes.ofWord h.packageId ++
    h.dealFlag :: h.forwardId.toList

/-- A buffer with the header appended, field by field. -/
def writeTo (h : Header) (buffer : Bytes) : Bytes :=
  buffer ++ Bytes.ofWord h.length ++ [h.messageFlag] ++ Bytes.ofWord h.packageId ++ [h.dealFlag] ++
    h.forwardId.toList

/-- The bytes of the frame that the header announces. -/
def frameLength (h : Header) : Nat := size + h.length.toNat

/-- The header at the front and the bytes behind it. -/
def read? : Bytes → Option (Header × Bytes)
  | l₀ :: l₁ :: l₂ :: l₃ :: flag :: p₀ :: p₁ :: p₂ :: p₃ :: deal ::
      f₀ :: f₁ :: f₂ :: f₃ :: f₄ :: f₅ :: f₆ :: f₇ :: rest =>
    some ({
      length := Bytes.toWord l₀ l₁ l₂ l₃
      messageFlag := flag
      packageId := Bytes.toWord p₀ p₁ p₂ p₃
      dealFlag := deal
      forwardId := #v[f₀, f₁, f₂, f₃, f₄, f₅, f₆, f₇] }, rest)
  | _ => none

end Header

end CameraChannel
