import CameraChannel.Proofs.Frame.Decoding

/-!
One-shot decoding as bytes arrive. Main statement: an unfinished frame tells exactly how many bytes
it lacks, and what is decoded or refused stays so whatever follows it.
-/
namespace CameraChannel

namespace Frame

/-- What stands at the front of a byte string: a part of a header, a header with a part of its
payload, or a whole frame. -/
inductive Front : Bytes → Prop where
  | headless {d : Bytes} (lacks : d.length < Header.size) : Front d
  | short (h : Header) {tail : Bytes} (lacks : tail.length < h.length.toNat) :
      Front (h.toBytes ++ tail)
  | whole {r : RawFrame} (sized : r.Sized) (rest : Bytes) : Front (r.toBytes ++ rest)

theorem front (d : Bytes) : Front d := by
  cases hr : Header.read? d with
  | none => exact .headless (Header.read?_eq_none.1 hr)
  | some v =>
    obtain ⟨h, tail⟩ := v
    rw [Header.toBytes_of_read? hr]
    by_cases hl : tail.length < h.length.toNat
    · exact .short h hl
    · have hlen : (tail.take h.length.toNat).length = h.length.toNat := by
        rw [List.length_take, Nat.min_eq_left (by omega)]
      have hw := Front.whole (r := ⟨h, tail.take h.length.toNat⟩) hlen.symm
        (tail.drop h.length.toNat)
      rwa [RawFrame.toBytes, List.append_assoc, List.take_append_drop] at hw

variable {d rest : Bytes} {needed : Nat}

/-- Only a frame that is whole is split off. -/
theorem frame_of_split {r : RawFrame} (h : split d = .ok (r, rest)) :
    r.Sized ∧ d = r.toBytes ++ rest := by
  cases front d with
  | headless lacks => rw [split_headless lacks] at h; cases h
  | short hd lacks => rw [split_short lacks] at h; cases h
  | whole sized rest => rw [split_frame sized] at h; cases h; exact ⟨sized, rfl⟩

/-- Splitting fails for want of bytes only. -/
theorem split_eq_error {e : FrameError} (h : split d = .error e) : ∃ n, e = .incomplete n := by
  cases front d with
  | headless lacks => rw [split_headless lacks] at h; cases h; exact ⟨_, rfl⟩
  | short hd lacks => rw [split_short lacks] at h; cases h; exact ⟨_, rfl⟩
  | whole sized rest => rw [split_frame sized] at h; cases h

theorem decode_frame {r : RawFrame} (sized : r.Sized) (rest : Bytes) :
    decode (r.toBytes ++ rest) = r.entry.map (·, rest) := by
  rw [decode, split_frame sized]

theorem decode_of_error {e : FrameError} (h : split d = .error e) : decode d = .error e := by
  rw [decode, h]

/-- Decoding lacks the bytes that splitting lacks. -/
theorem split_incomplete_iff :
    split d = .error (.incomplete needed) ↔ decode d = .error (.incomplete needed) := by
  refine ⟨decode_of_error, fun h => ?_⟩
  cases hs : split d with
  | error e =>
    rw [decode_of_error hs] at h
    cases h
    rfl
  | ok v =>
    obtain ⟨r, rest⟩ := v
    obtain ⟨sized, rfl⟩ := frame_of_split hs
    rw [decode_frame sized] at h
    cases he : r.entry with
    | ok f => rw [he] at h; cases h
    | error e =>
      obtain ⟨reason, rfl⟩ := RawFrame.entry_eq_error he
      rw [he] at h
      cases h

/-- How many bytes are lacking: those up to the end of the header, or up to the end of the frame. -/
theorem split_incomplete (h : split d = .error (.incomplete needed)) :
    (d.length < Header.size ∧ needed = Header.size - d.length) ∨
      ∃ (hd : Header) (tail : Bytes), d = hd.toBytes ++ tail ∧ tail.length < hd.length.toNat ∧
        needed = hd.length.toNat - tail.length := by
  cases front d with
  | headless lacks => rw [split_headless lacks] at h; cases h; exact .inl ⟨lacks, rfl⟩
  | short hd lacks => rw [split_short lacks] at h; cases h; exact .inr ⟨hd, _, rfl, lacks, rfl⟩
  | whole sized rest => rw [split_frame sized] at h; cases h

theorem needed_pos (h : split d = .error (.incomplete needed)) : 0 < needed := by
  obtain ⟨hl, rfl⟩ | ⟨hd, tail, -, hl, rfl⟩ := split_incomplete h
  · omega
  · omega

/-- Fewer bytes than are lacking leave the rest lacking. -/
theorem split_fewer (h : split d = .error (.incomplete needed)) {x : Bytes}
    (hx : x.length < needed) : split (d ++ x) = .error (.incomplete (needed - x.length)) := by
  obtain ⟨hl, rfl⟩ | ⟨hd, tail, rfl, hl, rfl⟩ := split_incomplete h
  · have hlen : (d ++ x).length = d.length + x.length := List.length_append
    rw [split_headless (by omega), hlen, Nat.sub_sub]
  · have hlen : (tail ++ x).length = tail.length + x.length := List.length_append
    rw [List.append_assoc, split_short (by omega), hlen, Nat.sub_sub]

/-- The bytes that a frame lacks make it whole. -/
theorem split_rest (h : split d = .error (.incomplete needed)) (hh : Header.size ≤ d.length)
    {x : Bytes} (hx : x.length = needed) : ∃ r, split (d ++ x) = .ok (r, []) := by
  obtain ⟨hl, rfl⟩ | ⟨hd, tail, rfl, hl, rfl⟩ := split_incomplete h
  · omega
  · have hlen : (tail ++ x).length = tail.length + x.length := List.length_append
    have sized : RawFrame.Sized ⟨hd, tail ++ x⟩ :=
      show hd.length.toNat = (tail ++ x).length by omega
    refine ⟨⟨hd, tail ++ x⟩, ?_⟩
    have hs := split_frame sized []
    rwa [RawFrame.toBytes, List.append_nil, ← List.append_assoc] at hs

/-- A header alone lacks the payload that it announces, unless that is empty. -/
theorem split_header (hd : Header) :
    split hd.toBytes = .error (.incomplete needed) ↔
      0 < hd.length.toNat ∧ needed = hd.length.toNat := by
  by_cases hz : 0 < hd.length.toNat
  · have hs : split (hd.toBytes ++ []) = .error (.incomplete (hd.length.toNat - 0)) :=
      split_short hz
    rw [List.append_nil, Nat.sub_zero] at hs
    rw [hs]
    simp [hz, eq_comm]
  · have sized : RawFrame.Sized ⟨hd, []⟩ := show hd.length.toNat = 0 by omega
    have hs := split_frame sized []
    rw [RawFrame.toBytes, List.append_nil, List.append_nil] at hs
    rw [hs]
    simp [hz]

/-- Less than a whole frame lacks bytes. -/
theorem split_prefix {r : RawFrame} (sized : r.Sized) {p : Bytes} (hp : p <+: r.toBytes)
    (hne : p ≠ r.toBytes) : ∃ n, split p = .error (.incomplete n) := by
  cases hs : split p with
  | error e =>
    obtain ⟨n, rfl⟩ := split_eq_error hs
    exact ⟨n, rfl⟩
  | ok v =>
    obtain ⟨r', rest⟩ := v
    obtain ⟨sized', rfl⟩ := frame_of_split hs
    obtain ⟨more, hmore⟩ := hp
    -- the frame split off the part is the frame itself, so that the part is all of it
    have hwhole := split_frame sized []
    rw [List.append_nil, ← hmore, List.append_assoc, split_frame sized'] at hwhole
    obtain ⟨rfl, hrest⟩ := Prod.mk.inj (Except.ok.inj hwhole)
    rw [(List.append_eq_nil_iff.1 hrest).1, List.append_nil] at hne
    exact absurd rfl hne

theorem header_of_entry {r : RawFrame} {f : Frame} (h : r.entry = .ok f) : f.header = r.header := by
  rw [RawFrame.entry] at h
  cases hp : parsePayload r.payload r.header.frameLength with
  | error e => rw [hp] at h; cases h
  | ok c => rw [hp] at h; cases h; rfl

/-- A decoding that fails for want of bytes tells how many: fewer leave it waiting for the others,
and so many complete the header, which may ask for its payload, or else the frame. A decoding that
gives a command, or refuses a payload, does the same whatever follows, and every part of the frame
that it takes lacks bytes. -/
theorem incomplete_exact (d : Bytes) :
    (∀ (b : Bytes) (n : Nat),
      split b = .error (.incomplete n) ↔ decode b = .error (.incomplete n)) ∧
    (∀ needed, decode d = .error (.incomplete needed) →
      0 < needed ∧
      (∀ x : Bytes, x.length < needed →
        decode (d ++ x) = .error (.incomplete (needed - x.length))) ∧
      ∀ x : Bytes, x.length = needed →
        (18 ≤ d.length → ∀ n, decode (d ++ x) ≠ .error (.incomplete n)) ∧
        (d.length < 18 → ∃ h : Header, Header.read? (d ++ x) = some (h, []) ∧
          ∀ n, decode (d ++ x) = .error (.incomplete n) ↔
            0 < h.length.toNat ∧ n = h.length.toNat)) ∧
    (∀ f rest, decode d = .ok (f, rest) →
      (∀ x, decode (d ++ x) = .ok (f, rest ++ x)) ∧
      ∃ w, d = w ++ rest ∧ w.length = f.header.frameLength ∧
        ∀ p, p <+: w → p ≠ w → ∃ n, decode p = .error (.incomplete n)) ∧
    ∀ reason length, decode d = .error (.malformed reason length) →
      (∀ x, decode (d ++ x) = .error (.malformed reason length)) ∧
      ∃ w rest, d = w ++ rest ∧ w.length = length ∧
        ∀ p, p <+: w → p ≠ w → ∃ n, decode p = .error (.incomplete n) := by
  have parts : ∀ {r : RawFrame}, r.Sized → ∀ p, p <+: r.toBytes → p ≠ r.toBytes →
      ∃ n, decode p = .error (.incomplete n) := by
    intro r sized p hp hne
    obtain ⟨n, hn⟩ := split_prefix sized hp hne
    exact ⟨n, decode_of_error hn⟩
  refine ⟨fun b n => split_incomplete_iff, fun needed h => ?_, fun f rest h => ?_,
    fun reason length h => ?_⟩
  · have hs := split_incomplete_iff.2 h
    refine ⟨needed_pos hs, fun x hx => decode_of_error (split_fewer hs hx), fun x hx => ⟨?_, ?_⟩⟩
    · intro hd n hn
      obtain ⟨r, hr⟩ := split_rest hs hd hx
      rw [split_incomplete_iff.2 hn] at hr
      cases hr
    · intro hd
      obtain ⟨-, rfl⟩ | ⟨hdr, tail, rfl, -⟩ := split_incomplete hs
      · obtain ⟨hdr, hb, hr⟩ := Header.read?_whole (d := d ++ x)
          (by rw [List.length_append, hx, Header.size]; omega)
        refine ⟨hdr, hr, fun n => ?_⟩
        rw [← split_incomplete_iff, hb]
        exact split_header hdr
      · rw [List.length_append, Header.length_toBytes, Header.size] at hd
        omega
  · cases front d with
    | headless lacks => rw [decode_of_error (split_headless lacks)] at h; cases h
    | short hd lacks => rw [decode_of_error (split_short lacks)] at h; cases h
    | @whole r sized rest =>
      rw [decode_frame sized] at h
      cases he : r.entry with
      | error e => rw [he] at h; cases h
      | ok frame =>
        rw [he] at h
        cases h
        refine ⟨fun x => ?_, r.toBytes, rfl, ?_, parts sized⟩
        · rw [List.append_assoc, decode_frame sized, he]
          rfl
        · rw [header_of_entry he, sized.frameLength]
  · cases front d with
    | headless lacks => rw [decode_of_error (split_headless lacks)] at h; cases h
    | short hd lacks => rw [decode_of_error (split_short lacks)] at h; cases h
    | @whole r sized rest =>
      rw [decode_frame sized] at h
      cases he : r.entry with
      | ok frame => rw [he] at h; cases h
      | error e =>
        obtain ⟨reason', rfl⟩ := RawFrame.entry_eq_error he
        rw [he] at h
        cases h
        refine ⟨fun x => ?_, r.toBytes, rest, rfl, sized.frameLength.symm, parts sized⟩
        rw [List.append_assoc, decode_frame sized, he]
        rfl

end Frame

end CameraChannel
