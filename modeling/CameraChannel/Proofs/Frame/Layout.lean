import CameraChannel.Proofs.Frame.Extension

/-!
Where the fields of a header stand. Main statement: headers and byte strings of 18 bytes correspond
one to one, field by field, and a frame split off and the bytes behind it make up what was split.
-/
namespace CameraChannel

namespace Bytes

/-- The number that some bytes stand for, least significant first. -/
def littleEndian (bs : Bytes) : Nat := bs.foldr (fun b n => b.toNat + 256 * n) 0

theorem littleEndian_ofWord (w : UInt32) : littleEndian (ofWord w) = w.toNat := by
  have hw := w.toNat_lt
  simp only [littleEndian, ofWord, List.foldr_cons, List.foldr_nil, UInt8.toNat_ofNat']
  omega

end Bytes

namespace Header

/-- The payload's length in the first four bytes, then the message flag, the package id in four
bytes, the deal flag and the eight bytes of the forwarding token. -/
structure LaidOut (h : Header) (bs : Bytes) : Prop where
  length : Bytes.littleEndian (bs.take 4) = h.length.toNat
  messageFlag : bs[4]? = some h.messageFlag
  packageId : Bytes.littleEndian ((bs.drop 5).take 4) = h.packageId.toNat
  dealFlag : bs[9]? = some h.dealFlag
  forwardId : bs.drop 10 = h.forwardId.toList

theorem laidOut_toBytes (h : Header) : h.LaidOut h.toBytes where
  length := Bytes.littleEndian_ofWord h.length
  messageFlag := rfl
  packageId := Bytes.littleEndian_ofWord h.packageId
  dealFlag := rfl
  forwardId := rfl

theorem writeTo_eq (h : Header) (buffer : Bytes) : h.writeTo buffer = buffer ++ h.toBytes := by
  simp [writeTo, toBytes]

end Header

namespace Frame

theorem readHeader_toBytes (h : Header) (rest : Bytes) :
    readHeader (h.toBytes ++ rest) = .ok (h, rest) := by
  rw [readHeader, Header.read?_toBytes]

/-- Any 18 bytes are those of the header that is read from them. -/
theorem exists_readHeader {d : Bytes} (hd : Header.size ≤ d.length) :
    ∃ h : Header, readHeader d = .ok (h, d.drop Header.size) ∧ h.toBytes = d.take Header.size := by
  obtain ⟨h, rest, hr⟩ := Header.exists_read? hd
  have hlen : h.toBytes.length = Header.size := h.length_toBytes
  rw [Header.toBytes_of_read? hr, readHeader_toBytes, ← hlen, List.drop_left, List.take_left]
  exact ⟨h, rfl, rfl⟩

/-- A header is written as its 18 bytes behind whatever stands there, with each field in its place,
and read back whatever follows; 18 bytes or more start with those of the header that is read from
them. A frame that is split off has a payload of the length that its header announces, and header,
payload and rest are all that was there, in this order. -/
theorem layout_lossless (h : Header) (front rest d : Bytes) :
    (h.writeTo front = front ++ h.toBytes ∧ h.toBytes.length = 18 ∧ h.LaidOut h.toBytes ∧
      readHeader (h.toBytes ++ rest) = .ok (h, rest)) ∧
    (18 ≤ d.length →
      ∃ h' : Header, readHeader d = .ok (h', d.drop 18) ∧ h'.toBytes = d.take 18) ∧
    ∀ (w : RawFrame) (behind : Bytes), split d = .ok (w, behind) →
      w.payload.length = w.header.length.toNat ∧ w.header.frameLength = 18 + w.header.length.toNat ∧
        w.header.toBytes ++ w.payload ++ behind = d := by
  refine ⟨⟨h.writeTo_eq front, h.length_toBytes, h.laidOut_toBytes, readHeader_toBytes h rest⟩,
    fun hd => exists_readHeader hd, fun w behind hs => ?_⟩
  obtain ⟨sized, rfl⟩ := frame_of_split hs
  exact ⟨sized.symm, rfl, rfl⟩

end Frame

end CameraChannel
