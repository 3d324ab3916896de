import CameraChannel.Frame.Header

/-!
Headers read back from their bytes, with any bytes behind them, and every header of 18 bytes written
again as it was read.
-/
namespace CameraChannel

namespace Bytes

theorem toWord_ofWord (w : UInt32) :
    toWord (UInt8.ofNat w.toNat) (UInt8.ofNat (w.toNat / 256)) (UInt8.ofNat (w.toNat / 65536))
      (UInt8.ofNat (w.toNat / 16777216)) = w := by
  have hw := w.toNat_lt
  apply UInt32.toNat_inj.1
  rw [toWord, UInt32.toNat_ofNat']
  simp only [UInt8.toNat_ofNat']
  omega

theorem ofWord_toWord (a b c d : UInt8) : ofWord (toWord a b c d) = [a, b, c, d] := by
  have ha := a.toNat_lt
  have hb := b.toNat_lt
  have hc := c.toNat_lt
  have hd := d.toNat_lt
  have hw : (toWord a b c d).toNat =
      a.toNat + 256 * b.toNat + 65536 * c.toNat + 16777216 * d.toNat := by
    rw [toWord, UInt32.toNat_ofNat']
    omega
  have byte : ∀ (n : Nat) (x : UInt8), n % 256 = x.toNat → UInt8.ofNat n = x := by
    intro n x h
    apply UInt8.toNat_inj.1
    rw [UInt8.toNat_ofNat']
    exact h
  rw [ofWord, hw, byte _ a (by omega), byte _ b (by omega), byte _ c (by omega),
    byte _ d (by omega)]

end Bytes

namespace Header

theorem forwardId_eq (f : ForwardId) : ∃ a b c d e g h i, f = #v[a, b, c, d, e, g, h, i] := by
  obtain ⟨⟨l⟩, hl⟩ := f
  match l, hl with
  | [a, b, c, d, e, g, h, i], _ => exact ⟨a, b, c, d, e, g, h, i, rfl⟩

@[simp] theorem length_toBytes (h : Header) : h.toBytes.length = size := by
  simp [toBytes, size]

/-- A header is read back with the bytes behind it. -/
theorem read?_toBytes (h : Header) (rest : Bytes) : read? (h.toBytes ++ rest) = some (h, rest) := by
  obtain ⟨length, flag, package, deal, forward⟩ := h
  obtain ⟨a, b, c, d, e, g, h, i, rfl⟩ := forwardId_eq forward
  change some (Header.mk (Bytes.toWord _ _ _ _) flag (Bytes.toWord _ _ _ _) deal _, rest) = _
  rw [Bytes.toWord_ofWord, Bytes.toWord_ofWord]

theorem toBytes_of_read? {bs rest : Bytes} {h : Header} (e : read? bs = some (h, rest)) :
    bs = h.toBytes ++ rest := by
  unfold read? at e
  split at e
  · cases e
    simp only [toBytes, Bytes.ofWord_toWord]
    rfl
  · cases e

end Header

end CameraChannel
