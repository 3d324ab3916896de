import CameraChannel.Frame.Codec
import CameraChannel.Proofs.Frame.Header

/-!
What decoding does at the front of a byte string, said by the bytes themselves, and what becomes of
it when more bytes follow.
-/
namespace CameraChannel

namespace RawFrame

def toBytes (r : RawFrame) : Bytes := r.header.toBytes ++ r.payload

/-- The payload has the length that the header announces. -/
def Sized (r : RawFrame) : Prop := r.header.length.toNat = r.payload.length

@[simp] theorem length_toBytes (r : RawFrame) :
    r.toBytes.length = Header.size + r.payload.length := by
  simp [toBytes]

theorem Sized.frameLength {r : RawFrame} (h : r.Sized) :
    r.header.frameLength = r.toBytes.length := by
  rw [length_toBytes, Header.frameLength, show r.header.length.toNat = r.payload.length from h]

/-- No header announces more than it can. -/
theorem Sized.within_limit {r : RawFrame} (h : r.Sized) : r.payload.length ≤ Frame.lengthLimit := by
  have := r.header.length.toNat_lt
  rw [← show r.header.length.toNat = r.payload.length from h, Frame.lengthLimit]
  omega

/-- A frame that was read whole can only be refused for its payload. -/
theorem entry_eq_error {w : RawFrame} {e : FrameError} (h : w.entry = .error e) :
    ∃ reason, e = .malformed reason w.header.frameLength := by
  rw [entry, Frame.parsePayload] at h
  cases hp : Command.parse w.payload with
  | ok m =>
    rw [hp] at h
    cases h
  | error reason =>
    rw [hp] at h
    cases h
    exact ⟨reason, rfl⟩

end RawFrame

namespace Header

/-- A byte string of 18 bytes or more starts with a header. -/
theorem exists_read? {d : Bytes} (h : size ≤ d.length) : ∃ hd rest, read? d = some (hd, rest) := by
  have hlen : (d.take size).length = 18 := by
    rw [List.length_take, Nat.min_eq_left h]
    rfl
  have hd : d = d.take size ++ d.drop size := (List.take_append_drop size d).symm
  generalize d.take size = t at hlen hd
  match t, hlen with
  | [_, _, _, _, _, _, _, _, _, _, _, _, _, _, _, _, _, _], _ =>
    rw [hd]
    exact ⟨_, _, rfl⟩

/-- A byte string of 18 bytes is a header. -/
theorem read?_whole {d : Bytes} (h : d.length = size) :
    ∃ hd : Header, d = hd.toBytes ∧ read? d = some (hd, []) := by
  obtain ⟨hd, rest, hr⟩ := exists_read? (Nat.le_of_eq h.symm)
  have hb := toBytes_of_read? hr
  have hlen := congrArg List.length hb
  rw [List.length_append, length_toBytes, h] at hlen
  obtain rfl : rest = [] := List.eq_nil_of_length_eq_zero (by omega)
  rw [List.append_nil] at hb
  exact ⟨hd, hb, hr⟩

theorem read?_eq_none {d : Bytes} : read? d = none ↔ d.length < size := by
  constructor
  · intro h
    apply Nat.lt_of_not_le
    intro hlen
    obtain ⟨hd, rest, hr⟩ := exists_read? hlen
    rw [h] at hr
    cases hr
  · intro h
    cases hr : read? d with
    | none => rfl
    | some v =>
      have := congrArg List.length (toBytes_of_read? hr)
      simp only [List.length_append, length_toBytes] at this
      omega

end Header

namespace Frame

theorem split_frame {r : RawFrame} (hs : r.Sized) (rest : Bytes) :
    split (r.toBytes ++ rest) = .ok (r, rest) := by
  have hs' : r.header.length.toNat = r.payload.length := hs
  rw [split, readHeader, RawFrame.toBytes, List.append_assoc, Header.read?_toBytes]
  simp only [hs', List.length_append, Nat.le_add_right, if_true, List.take_left, List.drop_left]

theorem split_short {h : Header} {rest : Bytes} (hl : rest.length < h.length.toNat) :
    split (h.toBytes ++ rest) = .error (.incomplete (h.length.toNat - rest.length)) := by
  rw [split, readHeader, Header.read?_toBytes]
  exact if_neg (by omega)

theorem split_headless {d : Bytes} (h : d.length < Header.size) :
    split d = .error (.incomplete (Header.size - d.length)) := by
  rw [split, readHeader, Header.read?_eq_none.2 h]

end Frame

namespace Codec

variable {c : Codec} {d rest : Bytes} {e : Entry}

theorem decode_toBytes (h : Header) (rest : Bytes) :
    c.decode (h.toBytes ++ rest) =
      if c.ceiling < h.length.toNat then .error (.tooLarge h.length.toNat c.ceiling)
      else if rest.length < h.length.toNat then .ok none
      else .ok (some (RawFrame.entry ⟨h, rest.take h.length.toNat⟩, rest.drop h.length.toNat)) := by
  rw [decode, Header.read?_toBytes]

/-- A complete frame within the ceiling is taken off the front. -/
theorem decode_frame {r : RawFrame} (hs : r.Sized) (hc : r.payload.length ≤ c.ceiling)
    (rest : Bytes) : c.decode (r.toBytes ++ rest) = .ok (some (r.entry, rest)) := by
  have hs' : r.header.length.toNat = r.payload.length := hs
  rw [RawFrame.toBytes, List.append_assoc, decode_toBytes, if_neg (by omega),
    if_neg (by rw [List.length_append]; omega), hs', List.take_left, List.drop_left]

/-- Nothing but a complete frame within the ceiling is taken off. -/
theorem frame_of_decode (h : c.decode d = .ok (some (e, rest))) :
    ∃ r : RawFrame, r.Sized ∧ r.payload.length ≤ c.ceiling ∧ d = r.toBytes ++ rest ∧
      e = r.entry := by
  cases hr : Header.read? d with
  | none => rw [decode, hr] at h; cases h
  | some v =>
    obtain ⟨hd, tail⟩ := v
    have hb := Header.toBytes_of_read? hr
    rw [hb, decode_toBytes] at h
    split at h
    · cases h
    · split at h
      · cases h
      · next hc hl =>
        cases h
        have hlen : (tail.take hd.length.toNat).length = hd.length.toNat := by
          rw [List.length_take, Nat.min_eq_left (by omega)]
        refine ⟨⟨hd, tail.take hd.length.toNat⟩, hlen.symm, ?_, ?_, rfl⟩
        · change (tail.take hd.length.toNat).length ≤ c.ceiling
          omega
        · rw [hb, RawFrame.toBytes, List.append_assoc, List.take_append_drop]

/-- Decoding stops for good at a header that announces more than the ceiling. -/
theorem decode_eq_error {e : FrameError} : c.decode d = .error e ↔
    ∃ (h : Header) (rest : Bytes), d = h.toBytes ++ rest ∧ c.ceiling < h.length.toNat ∧
      e = .tooLarge h.length.toNat c.ceiling := by
  constructor
  · intro h
    cases hr : Header.read? d with
    | none => rw [decode, hr] at h; cases h
    | some v =>
      obtain ⟨hd, tail⟩ := v
      have hb := Header.toBytes_of_read? hr
      rw [hb, decode_toBytes] at h
      split at h
      · next hc =>
        cases h
        exact ⟨hd, tail, hb, hc, rfl⟩
      · split at h <;> cases h
  · rintro ⟨h, rest, rfl, hc, rfl⟩
    rw [decode_toBytes, if_pos hc]

/-- Decoding waits for more at less than a header, or at less than the frame that it announces. -/
theorem decode_eq_none : c.decode d = .ok none ↔ d.length < Header.size ∨
    ∃ (h : Header) (rest : Bytes), d = h.toBytes ++ rest ∧ h.length.toNat ≤ c.ceiling ∧
      rest.length < h.length.toNat := by
  constructor
  · intro h
    cases hr : Header.read? d with
    | none => exact .inl (Header.read?_eq_none.1 hr)
    | some v =>
      obtain ⟨hd, tail⟩ := v
      have hb := Header.toBytes_of_read? hr
      rw [hb, decode_toBytes] at h
      split at h
      · cases h
      · split at h
        · next hc hl => exact .inr ⟨hd, tail, hb, by omega, hl⟩
        · cases h
  · rintro (h | ⟨h, rest, rfl, hc, hl⟩)
    · rw [decode, Header.read?_eq_none.2 h]
    · rw [decode_toBytes, if_neg (by omega), if_pos hl]

theorem decode_append (h : c.decode d = .ok (some (e, rest))) (more : Bytes) :
    c.decode (d ++ more) = .ok (some (e, rest ++ more)) := by
  obtain ⟨r, hs, hc, rfl, rfl⟩ := frame_of_decode h
  rw [List.append_assoc]
  exact decode_frame hs hc _

theorem decode_append_error {e : FrameError} (h : c.decode d = .error e) (more : Bytes) :
    c.decode (d ++ more) = .error e := by
  obtain ⟨hd, rest, rfl, hc, rfl⟩ := decode_eq_error.1 h
  rw [List.append_assoc]
  exact decode_eq_error.2 ⟨hd, rest ++ more, rfl, hc, rfl⟩

/-- A part of a frame is waited on. -/
theorem decode_part {r : RawFrame} (hs : r.Sized) (hc : r.payload.length ≤ c.ceiling)
    (hp : d <+: r.toBytes) (hne : d ≠ r.toBytes) : c.decode d = .ok none := by
  obtain ⟨more, hmore⟩ := hp
  have hwhole := decode_frame hs hc []
  rw [List.append_nil, ← hmore] at hwhole
  cases hd : c.decode d with
  | error e => cases (decode_append_error hd more).symm.trans hwhole
  | ok found =>
    cases found with
    | none => rfl
    | some v =>
      obtain ⟨e, rest⟩ := v
      have hfirst := (decode_append hd more).symm.trans hwhole
      simp only [Except.ok.injEq, Option.some.injEq, Prod.mk.injEq,
        List.append_eq_nil_iff] at hfirst
      rw [hfirst.2.2, List.append_nil] at hmore
      exact absurd hmore hne

/-- The entries decoded one after another until decoding stops, and the bytes it stops at. -/
def run (c : Codec) (d : Bytes) : List Entry × Bytes :=
  match _h : c.decode d with
  | .error _ => ([], d)
  | .ok none => ([], d)
  | .ok (some (e, rest)) =>
    let later := run c rest
    (e :: later.1, later.2)
termination_by d.length
decreasing_by exact decode_shorter _h

theorem run_some (h : c.decode d = .ok (some (e, rest))) :
    c.run d = (e :: (c.run rest).1, (c.run rest).2) := by
  rw [run]
  split
  · next h' => cases h.symm.trans h'
  · next h' => cases h.symm.trans h'
  · next h' => cases h.symm.trans h'; rfl

theorem run_none (h : c.decode d = .ok none) : c.run d = ([], d) := by
  rw [run]
  split
  · next h' => cases h.symm.trans h'
  · rfl
  · next h' => cases h.symm.trans h'

theorem run_error {e : FrameError} (h : c.decode d = .error e) : c.run d = ([], d) := by
  rw [run]
  split
  · rfl
  · next h' => cases h.symm.trans h'
  · next h' => cases h.symm.trans h'

end Codec

end CameraChannel
