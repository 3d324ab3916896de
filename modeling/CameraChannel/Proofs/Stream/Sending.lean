import CameraChannel.Frame.Buffered
import CameraChannel.Proofs.Stream.Release

/-!
Encoding for a buffer, for a stream and for neither. Main statement: a codec appends the frame that
is encoded without it, or refuses and leaves its buffer alone; it would decode what it appended, and
a client with the same codec puts the same bytes on the wire.
-/
namespace CameraChannel

theorem Frame.encode_of_payload {m : Content} {o : FrameOptions} {p : Bytes}
    (h : encodePayload m o.style = .ok p) : encode m o = enclose p o := by
  rw [encode, h]

theorem Frame.encodePayload_of_error {m : Content} {r : Command.Reserved}
    (h : m.document = .error r) (s : Style) : encodePayload m s = .error (.unencodable r) := by
  rw [encodePayload, h]

/-- A payload within both limits is put behind its header. -/
theorem Codec.frame_of_payload {k : Codec} {m : Content} {p : Bytes}
    (h : Frame.encodePayload m k.options.style = .ok p) (hc : p.length ≤ k.ceiling)
    (hl : p.length ≤ Frame.lengthLimit) :
    k.frame m = .ok (Frame.rawFrame p k.options).toBytes := by
  rw [frame, h]
  simp only [if_neg (Nat.not_lt.2 hc)]
  exact Frame.enclose_fits hl k.options

namespace Buffered

variable {b : Buffered} {m : Content}

theorem perform_encode {w : Bytes} (h : b.codec.frame m = .ok w) :
    b.perform (.encode m) = (.done, { b with buffer := b.buffer ++ w }) := by
  rw [perform, Codec.encode, h]
  rfl

theorem perform_encode_error {e : FrameError} (h : b.codec.frame m = .error e) :
    b.perform (.encode m) = (.failed (.protocol e), b) := by
  rw [perform, Codec.encode, h]
  rfl

/-- What an encoding says and leaves tells what frame it made. -/
theorem frame_of_perform {w : Bytes}
    (h : b.perform (.encode m) = (.done, { b with buffer := b.buffer ++ w })) :
    b.codec.frame m = .ok w := by
  cases hf : b.codec.frame m with
  | error e =>
    rw [perform_encode_error hf] at h
    cases h
  | ok w' =>
    rw [perform_encode hf] at h
    have hw : b.buffer ++ w' = b.buffer ++ w := congrArg (·.2.buffer) h
    rw [List.append_cancel_left hw]

theorem frame_of_perform_error {e : FrameError}
    (h : (b.perform (.encode m)).1 = .failed (.protocol e)) : b.codec.frame m = .error e := by
  cases hf : b.codec.frame m with
  | error e' =>
    rw [perform_encode_error hf] at h
    cases h
    rfl
  | ok w =>
    rw [perform_encode hf] at h
    cases h

end Buffered

namespace Client

variable {c : Client} {s : Step} {m : Command} {w : Bytes}

theorem perform_refused (h : s.message? = some m) {e : FrameError}
    (hf : (s.codec c.codec).frame (.command m) = .error e) :
    c.perform s = (.failed (.protocol e), c) := by
  rw [perform_message h, sendBy, hf]
  rfl

theorem perform_framed (h : s.message? = some m)
    (hf : (s.codec c.codec).frame (.command m) = .ok w) :
    c.perform s = Reply.of .sent (c.writeFrame w) := by
  rw [perform_message h, sendBy, hf]

/-- A frame that is written while the stream is held is sent, or the stream fails. -/
theorem writeFrame_held (hc : c.connected = true) (w : Bytes) :
    (Reply.of .sent (c.writeFrame w)).1.isSent = true ∨
      (Reply.of .sent (c.writeFrame w)).1.isBroken = true := by
  rw [writeFrame, if_neg (by simp [hc])]
  dsimp only
  split
  · exact .inl rfl
  · exact .inr rfl
  · exact .inr rfl

/-- A stream that takes all it is given fails no frame. -/
theorem writeFrame_ready (hc : c.connected = true) (hw : c.stream.writes = [])
    (hf : c.stream.flushes = []) (w : Bytes) : (c.writeFrame w).1 = .ok w.length := by
  rw [writeFrame, if_neg (by simp [hc])]
  simp only [Stream.write, hw, writeAll, Stream.andThen, Stream.flush, hf, control]

/-- A send puts its frame on the wire, or a part of it if the stream fails over it and is lost. -/
theorem perform_sent (h : s.message? = some m)
    (hf : (s.codec c.codec).frame (.command m) = .ok w) (hc : c.connected = true) :
    ((c.perform s).1 = .sent w.length ∧
      (c.perform s).2.stream.taken = c.stream.taken ++ w) ∨
    ∃ e p, (c.perform s).1 = .failed e ∧ (Reply.failed e).isBroken = true ∧ p <+: w ∧
      (c.perform s).2.stream.taken = c.stream.taken ++ p ∧ (c.perform s).2.connected = false := by
  obtain ⟨he, hfit⟩ := Codec.encode_of_frame hf
  have hframe : s.frame? c.codec.options = some w := by
    rw [Step.frame?, h]
    exact congrArg Except.toOption he
  have heff := writeFrame_effect hframe hfit
  rw [perform_framed h hf]
  have hheld := writeFrame_held hc w
  generalize (Reply.of .sent (c.writeFrame w)).1 = r at heff hheld ⊢
  generalize (Reply.of .sent (c.writeFrame w)).2 = c' at heff ⊢
  cases heff with
  | quiet unsent unbroken =>
    obtain hs | hb := hheld
    · rw [unsent] at hs
      cases hs
    · rw [unbroken hb] at h
      cases h
  | sent held frame fits taken =>
    obtain rfl := Option.some.inj (hframe.symm.trans frame)
    exact .inl ⟨rfl, taken⟩
  | @broken s e w' p c' tried held fails frame fits part taken controls flushes gone =>
    obtain rfl := Option.some.inj (hframe.symm.trans frame)
    exact .inr ⟨e, p, rfl, fails, part, taken, gone⟩
  | closed => cases h

end Client

namespace Buffered

/-- A codec appends exactly the frame that is encoded without it when the payload stays within its
ceiling and within what a header can announce; it refuses what cannot be encoded, then what is above
the ceiling, then what is above the other limit, and leaves its buffer as it is. It decodes every
frame that it appends, whatever follows it. A client that sends with the same codec refuses the same
commands for the same reason, and else puts the same bytes on its stream, all of them when it says
so, and otherwise a part of them at the cost of the stream. -/
theorem encoded_exact (b : Buffered) (m : Content) :
    let o := b.codec.options
    let ceiling := b.codec.ceiling
    (∀ r, m.document = .error r →
      Frame.encode m o = .error (.unencodable r) ∧
      b.perform (.encode m) = (.failed (.protocol (.unencodable r)), b)) ∧
    (∀ v, m.document = .ok v → ∃ p, Frame.encodePayload m o.style = .ok p ∧
      (p.length ≤ ceiling → p.length ≤ 0xffffffff → ∃ w, Frame.encode m o = .ok w ∧
        b.perform (.encode m) = (.done, { b with buffer := b.buffer ++ w }) ∧
        ∀ rest, b.codec.decode (w ++ rest) =
          .ok (some (RawFrame.entry ⟨.forPayload (UInt32.ofNat p.length) o, p⟩, rest))) ∧
      (ceiling < p.length →
        b.perform (.encode m) = (.failed (.protocol (.tooLarge p.length ceiling)), b)) ∧
      (p.length ≤ ceiling → 0xffffffff < p.length →
        Frame.encode m o = .error (.tooLarge p.length 0xffffffff) ∧
        b.perform (.encode m) = (.failed (.protocol (.tooLarge p.length 0xffffffff)), b))) ∧
    ∀ (c : Client) (s : Client.Step) (k : Command), m = .command k → s.message? = some k →
      s.codec c.codec = b.codec →
      (∀ e, (b.perform (.encode m)).1 = .failed (.protocol e) →
        c.perform s = (.failed (.protocol e), c)) ∧
      ∀ w, b.perform (.encode m) = (.done, { b with buffer := b.buffer ++ w }) →
        (c.connected = false → c.perform s = (.failed .notConnected, c)) ∧
        (c.connected = true →
          ((c.perform s).1 = .sent w.length ∧
            (c.perform s).2.stream.taken = c.stream.taken ++ w) ∨
          ∃ e p, (c.perform s).1 = .failed e ∧ (Client.Reply.failed e).isBroken = true ∧ p <+: w ∧
            (c.perform s).2.stream.taken = c.stream.taken ++ p ∧
            (c.perform s).2.connected = false) ∧
        (c.connected = true → c.stream.writes = [] → c.stream.flushes = [] →
          (c.perform s).1 = .sent w.length) := by
  intro o ceiling
  refine ⟨fun r hr => ?_, fun v hv => ?_, fun c s k hm hs hk => ⟨fun e he => ?_, fun w hw => ?_⟩⟩
  · have hp := Frame.encodePayload_of_error hr o.style
    refine ⟨?_, perform_encode_error (Codec.frame_of_refused hp)⟩
    rw [Frame.encode, hp]
  · obtain ⟨p, hp⟩ : ∃ p, Frame.encodePayload m o.style = .ok p := by
      rw [Frame.encodePayload, hv]
      exact ⟨_, rfl⟩
    refine ⟨p, hp, fun hc hl => ?_, fun hc => ?_, fun hc hl => ⟨?_, ?_⟩⟩
    · refine ⟨_, ?_, perform_encode (Codec.frame_of_payload hp hc hl), fun rest => ?_⟩
      · rw [Frame.encode_of_payload hp]
        exact Frame.enclose_fits hl o
      · exact Codec.decode_frame (Frame.rawFrame_sized hl o) hc rest
    · have hf := Codec.frame_of_oversized hp (.inl hc)
      rw [if_pos hc] at hf
      exact perform_encode_error hf
    · rw [Frame.encode_of_payload hp]
      exact if_neg (Nat.not_le.2 hl)
    · have hf := Codec.frame_of_oversized hp (.inr hl)
      rw [if_neg (Nat.not_lt.2 hc)] at hf
      exact perform_encode_error hf
  · subst hm
    exact Client.perform_refused hs (hk ▸ frame_of_perform_error he)
  · subst hm
    have hf : (s.codec c.codec).frame (.command k) = .ok w := hk ▸ frame_of_perform hw
    refine ⟨fun hc => ?_, Client.perform_sent hs hf, fun hc hwrites hflushes => ?_⟩
    · rw [Client.perform_framed hs hf, Client.writeFrame_released hc]
      rfl
    · have hw := Client.writeFrame_ready hc hwrites hflushes w
      rw [Client.perform_framed hs hf]
      generalize c.writeFrame w = r at hw ⊢
      obtain ⟨r, c'⟩ := r
      cases hw
      rfl

end Buffered

end CameraChannel
