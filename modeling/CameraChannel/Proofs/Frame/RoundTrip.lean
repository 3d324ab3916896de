import CameraChannel.Frame.Basic
import CameraChannel.Proofs.Command.RoundTrip
import CameraChannel.Proofs.Frame.Decoding

/-!
Frames read back from the bytes they are sent as. Main statement: whatever follows it, a frame gives
back its header, its command and what follows, unless the command is nested too deep to be read.
-/
namespace CameraChannel

open Json (Integral)

theorem Style.blanks (s : Style) : s.layout.Blanks := by
  cases s with
  | compact => exact Json.Layout.compact_blanks
  | spaced => exact Json.Layout.spaced_blanks

/-- The payload of a command that can be sent. -/
def Command.payload (c : Command) (s : Style) : Bytes :=
  Utf8.ofChars ((Json.object c.members).render s.layout 0)

namespace Frame

theorem encodePayload_command {c : Command} (h : c.Unreserved) (s : Style) :
    encodePayload (.command c) s = .ok (c.payload s) := by
  have hd : Content.document (.command c) = .ok (.object c.members) := h.document
  rw [encodePayload, hd]
  rfl

/-- A payload behind the header that its options ask for. -/
def rawFrame (payload : Bytes) (o : FrameOptions) : RawFrame :=
  ⟨.forPayload (UInt32.ofNat payload.length) o, payload⟩

theorem rawFrame_sized {payload : Bytes} (h : payload.length ≤ lengthLimit) (o : FrameOptions) :
    (rawFrame payload o).Sized := by
  change (UInt32.ofNat payload.length).toNat = payload.length
  rw [lengthLimit] at h
  rw [UInt32.toNat_ofNat']
  omega

theorem enclose_fits {payload : Bytes} (h : payload.length ≤ lengthLimit) (o : FrameOptions) :
    enclose payload o = .ok (rawFrame payload o).toBytes :=
  if_pos h

end Frame

/-- The payload of a command is read as the command, behind any header. -/
theorem RawFrame.entry_taken {c : Command} (hu : c.Unreserved) (hi : Integral c.extra.toJson)
    (hn : (Json.object c.members).nesting ≤ Json.Reader.depthLimit) (h : Header) (s : Style) :
    RawFrame.entry ⟨h, c.payload s⟩ = .ok ⟨h, c⟩ := by
  rw [RawFrame.entry, Frame.parsePayload, Command.payload,
    Command.parse_taken s.blanks hu hi hn]
  rfl

theorem RawFrame.entry_refused {c : Command} (hu : c.Unreserved) (hi : Integral c.extra.toJson)
    (hn : Json.Reader.depthLimit < (Json.object c.members).nesting) (h : Header) (s : Style) :
    ∃ reason, reason.cause = .tooDeep ∧
      RawFrame.entry ⟨h, c.payload s⟩ = .error (.malformed reason h.frameLength) := by
  obtain ⟨reason, hr, hc⟩ := Command.parse_refused (d := 0) s.blanks hu hi hn
  refine ⟨reason, hc, ?_⟩
  rw [RawFrame.entry, Frame.parsePayload, Command.payload, hr]
  rfl

namespace Frame

/-- A frame is decoded to what was encoded, with the header its options ask for and whatever bytes
follow it, as long as no container of the command lies inside more than 126 others; a command nested
deeper is refused for that, at the cost of its own frame. -/
theorem decode_encode (m : Command) (o : FrameOptions) (rest : Bytes)
    (unreserved : ∀ r : Command.Reserved, m.extra.contains r.name = false)
    (integral : Integral m.extra.toJson)
    (short : ∀ p, encodePayload (.command m) o.style = .ok p → p.length < 0x100000000) :
    ∃ w, encode (.command m) o = .ok w ∧
      (∃ h p, Header.read? w = some (h, p) ∧ p.length = w.length - Header.size ∧
        h.length.toNat = w.length - Header.size) ∧
      ((Json.object m.members).nesting ≤ 127 →
        decode (w ++ rest) =
          .ok (⟨.forPayload (UInt32.ofNat (w.length - Header.size)) o, m⟩, rest)) ∧
      (127 < (Json.object m.members).nesting →
        ∃ reason, reason.cause = .tooDeep ∧
          decode (w ++ rest) = .error (.malformed reason w.length)) := by
  have hp := encodePayload_command unreserved o.style
  have hfit : (m.payload o.style).length ≤ lengthLimit := by
    have := short _ hp
    rw [lengthLimit]
    omega
  have hs := rawFrame_sized hfit o
  have hw := (rawFrame (m.payload o.style) o).length_toBytes
  have hlen : (m.payload o.style).length =
      (rawFrame (m.payload o.style) o).toBytes.length - Header.size := by
    rw [hw]
    exact (Nat.add_sub_cancel_left _ _).symm
  refine ⟨(rawFrame (m.payload o.style) o).toBytes, ?_, ?_, fun hn => ?_, fun hn => ?_⟩
  · rw [encode, hp]
    exact enclose_fits hfit o
  · exact ⟨_, _, Header.read?_toBytes _ _, hlen, hs.trans hlen⟩
  · rw [decode, split_frame hs, ← hlen]
    simp only [rawFrame, RawFrame.entry_taken unreserved integral hn]
    rfl
  · obtain ⟨reason, hc, hr⟩ := RawFrame.entry_refused unreserved integral hn
      (Header.forPayload (UInt32.ofNat (m.payload o.style).length) o) o.style
    refine ⟨reason, hc, ?_⟩
    rw [decode, split_frame hs, ← hs.frameLength]
    simp only [rawFrame, hr]
    rfl

/-- A command with a list and an escaped text among its further fields. -/
def annotated : Command :=
  ((Command.startStreaming "deadbeef").withField "seq" (.array [.ofNat 7, .null])).withField
    "note" (.string "a\"\n\u00e9")

theorem decode_encode_annotated :
    (∀ r : Command.Reserved, annotated.extra.contains r.name = false) ∧
    Integral annotated.extra.toJson ∧
    (∀ p, encodePayload (.command annotated) .spaced = .ok p → p.length < 0x100000000) ∧
    ∃ w, encode (.command annotated) { packageId := 7, style := .spaced } = .ok w ∧
      decode (w ++ [1, 2, 3]) =
        .ok (⟨.forPayload (UInt32.ofNat (w.length - Header.size))
          { packageId := 7, style := .spaced }, annotated⟩, [1, 2, 3]) := by
  have hu : ∀ r : Command.Reserved, annotated.extra.contains r.name = false := by
    intro r
    cases r <;> decide +kernel
  have hi : Integral annotated.extra.toJson := by
    change Integral (.object
      [("note", .string "a\"\n\u00e9"), ("seq", .array [.ofNat 7, .null])])
    refine .object fun m hm => ?_
    simp only [List.mem_cons, List.not_mem_nil, or_false] at hm
    obtain rfl | rfl := hm
    · exact .string _
    · refine .array fun v hv => ?_
      simp only [List.mem_cons, List.not_mem_nil, or_false] at hv
      obtain rfl | rfl := hv
      · exact .integer _
      · exact .null
  have hs : ∀ p, encodePayload (.command annotated) .spaced = .ok p → p.length < 0x100000000 := by
    intro p hp
    rw [encodePayload_command hu] at hp
    cases hp
    decide +kernel
  obtain ⟨w, hw, -, hd, -⟩ :=
    decode_encode annotated { packageId := 7, style := .spaced } [1, 2, 3] hu hi hs
  exact ⟨hu, hi, hs, w, hw, hd (by decide +kernel)⟩

end Frame

/-- What is encoded at all is a payload behind its header. -/
theorem Frame.rawFrame_of_encode {m : Command} {o : FrameOptions} {w : Bytes}
    (h : encode (.command m) o = .ok w) : m.Unreserved ∧ (rawFrame (m.payload o.style) o).Sized ∧
      w = (rawFrame (m.payload o.style) o).toBytes := by
  rw [encode] at h
  cases hp : encodePayload (.command m) o.style with
  | error e =>
    rw [hp] at h
    cases h
  | ok payload =>
    have hu : m.Unreserved := by
      rw [encodePayload] at hp
      cases hd : Content.document (.command m) with
      | error r =>
        rw [hd] at hp
        cases hp
      | ok v => exact Command.unreserved_of_document hd
    rw [encodePayload_command hu] at hp
    cases hp
    simp only [encodePayload_command hu] at h
    rw [enclose] at h
    split at h
    · next hfit =>
      cases h
      exact ⟨hu, rawFrame_sized hfit o, rfl⟩
    · cases h

/-- A codec encodes as it is done without, or refuses a payload above its ceiling. -/
theorem Codec.encode_of_frame {c : Codec} {m : Content} {w : Bytes} (h : c.frame m = .ok w) :
    Frame.encode m c.options = .ok w ∧ w.length ≤ Header.size + c.ceiling := by
  rw [Codec.frame] at h
  rw [Frame.encode]
  cases hp : Frame.encodePayload m c.options.style with
  | error e =>
    rw [hp] at h
    cases h
  | ok payload =>
    simp only [hp] at h
    split at h
    · cases h
    · next hc =>
      refine ⟨h, ?_⟩
      rw [Frame.enclose] at h
      split at h
      · cases h
        rw [List.length_append, Header.length_toBytes]
        omega
      · cases h

end CameraChannel
