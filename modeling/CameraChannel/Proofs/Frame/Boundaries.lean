import Mathlib.Algebra.Order.BigOperators.Group.List
import Mathlib.Algebra.Order.Ring.Nat
import CameraChannel.Proofs.Frame.Batches
import CameraChannel.Proofs.Frame.Extension

/-!
Where frames begin and end. Main statement: a byte string is made up of whole frames and less than
one more in one way only, and decoding it gives one entry for each of these frames, whatever their
payloads are.
-/
namespace CameraChannel

/-- The bytes of the frame that an entry was made from. -/
def Entry.frameLength : Entry → Nat
  | .ok f => f.header.frameLength
  | .error (.malformed _ n) => n
  | .error _ => 0

namespace RawFrame

/-- The first bytes of a frame, but not all of them. -/
def Part (t : Bytes) : Prop :=
  ∃ w : RawFrame, w.Sized ∧ t <+: w.toBytes ∧ t ≠ w.toBytes

/-- A byte string cut into whole frames and a part of one more. -/
structure Cut (d : Bytes) (ws : List RawFrame) (t : Bytes) : Prop where
  sized : ∀ w ∈ ws, w.Sized
  part : Part t
  bytes : d = wire ws ++ t

variable {d t : Bytes} {ws : List RawFrame}

theorem Part.of_longer {w : RawFrame} (sized : w.Sized) (h : t <+: w.toBytes)
    (longer : t.length < w.toBytes.length) : Part t :=
  ⟨w, sized, h, fun e => Nat.ne_of_lt longer (congrArg List.length e)⟩

/-- What no frame is split off can be filled up to a frame. -/
theorem part_of_split {e : FrameError} (h : Frame.split t = .error e) : Part t := by
  cases Frame.front t with
  | headless lacks =>
    -- zeros make up the header, and then the payload that the header comes to announce
    obtain ⟨hd, hb, -⟩ := Header.read?_whole (d := t ++ List.replicate (Header.size - t.length) 0)
      (by rw [List.length_append, List.length_replicate]; omega)
    have sized : Sized ⟨hd, List.replicate hd.length.toNat 0⟩ := List.length_replicate.symm
    have hp : t <+: hd.toBytes := ⟨_, hb⟩
    refine .of_longer sized (hp.trans (List.prefix_append _ _)) ?_
    rw [length_toBytes]
    omega
  | @short hd tail lacks =>
    have hlen : (tail ++ List.replicate (hd.length.toNat - tail.length) 0).length =
        hd.length.toNat := by
      rw [List.length_append, List.length_replicate]
      omega
    have sized : Sized ⟨hd, tail ++ List.replicate (hd.length.toNat - tail.length) 0⟩ := hlen.symm
    refine .of_longer sized ((List.prefix_append_right_inj _).2 (List.prefix_append _ _)) ?_
    rw [length_toBytes, hlen, List.length_append, Header.length_toBytes]
    omega
  | whole sized rest =>
    rw [Frame.split_frame sized] at h
    cases h

theorem part_iff : Part t ↔ ∃ e, Frame.split t = .error e := by
  constructor
  · rintro ⟨w, sized, hp, hne⟩
    obtain ⟨n, hn⟩ := Frame.split_prefix sized hp hne
    exact ⟨_, hn⟩
  · rintro ⟨e, he⟩
    exact part_of_split he

theorem exists_cut (d : Bytes) : ∃ ws t, Cut d ws t := by
  induction hn : d.length using Nat.strongRecOn generalizing d with
  | _ n ih =>
    cases hs : Frame.split d with
    | error e => exact ⟨[], d, by simp, part_iff.2 ⟨e, hs⟩, rfl⟩
    | ok v =>
      obtain ⟨w, rest⟩ := v
      obtain ⟨sized, rfl⟩ := Frame.frame_of_split hs
      obtain ⟨ws, t, hws, ht, rfl⟩ := ih rest.length (hn ▸ Frame.split_shorter hs) rest rfl
      refine ⟨w :: ws, t, ?_, ht, by rw [wire_cons, List.append_assoc]⟩
      intro v hv
      obtain rfl | hv := List.mem_cons.1 hv
      · exact sized
      · exact hws v hv

/-- No byte string is cut in two ways: past the frames of one cut only a part is left, so no frame
more of the other. -/
theorem Cut.unique {ws' : List RawFrame} {t' : Bytes} (h : Cut d ws t) (h' : Cut d ws' t') :
    ws' = ws ∧ t' = t := by
  let c : Codec := { ceiling := Frame.lengthLimit }
  have fits : ∀ ws : List RawFrame, (∀ w ∈ ws, w.Sized) → ∀ w ∈ ws, w.Fits c.ceiling :=
    fun ws sized w hw => ⟨sized w hw, (sized w hw).within_limit⟩
  obtain ⟨w, sized, hp, hne⟩ := h'.part
  have hwait : c.decode t' = .ok none := Codec.decode_part sized sized.within_limit hp hne
  obtain ⟨vs, rfl, ht⟩ := wire_cancel (fits ws h.sized) (fits ws' h'.sized) hwait
    (h.bytes.symm.trans h'.bytes)
  cases vs with
  | nil => exact ⟨List.append_nil ws, ht.symm⟩
  | cons v vs =>
    obtain ⟨e, he⟩ := part_iff.1 h.part
    rw [ht, wire_cons, List.append_assoc, Frame.split_frame (h'.sized v (by simp))] at he
    cases he

/-- A whole frame gives the command of its payload, or is refused with its own length. -/
theorem Sized.entry_eq {w : RawFrame} (h : w.Sized) :
    w.entry = match Command.parse w.payload with
      | .ok c => .ok ⟨w.header, c⟩
      | .error reason => .error (.malformed reason (18 + w.payload.length)) := by
  rw [entry, Frame.parsePayload, h.frameLength, length_toBytes]
  cases Command.parse w.payload <;> rfl

theorem Sized.frameLength_entry {w : RawFrame} (h : w.Sized) :
    w.entry.frameLength = w.toBytes.length := by
  cases he : w.entry with
  | ok f =>
    rw [← h.frameLength, ← Frame.header_of_entry he]
    rfl
  | error e =>
    obtain ⟨reason, rfl⟩ := entry_eq_error he
    exact h.frameLength

theorem sum_frameLength (h : ∀ w ∈ ws, w.Sized) :
    ((ws.map entry).map Entry.frameLength).sum = (wire ws).length := by
  induction ws with
  | nil => rfl
  | cons w ws ih =>
    rw [List.map_cons, List.map_cons, List.sum_cons, (h w List.mem_cons_self).frameLength_entry,
      ih fun v hv => h v (List.mem_cons_of_mem _ hv), wire_cons, List.length_append]

theorem length_wire_le (ws : List RawFrame) : 18 * ws.length ≤ (wire ws).length := by
  induction ws with
  | nil => exact Nat.le_refl 0
  | cons w ws ih =>
    rw [wire_cons, List.length_append, length_toBytes, Header.size, List.length_cons]
    omega

end RawFrame

namespace Batch

open RawFrame (Part Cut wire)

theorem decode_cut {d t : Bytes} {ws : List RawFrame} (h : Cut d ws t) :
    decode d = ⟨ws.map RawFrame.entry, t.length⟩ := by
  obtain ⟨e, he⟩ := RawFrame.part_iff.1 h.part
  rw [h.bytes, decode_wire h.sized, decode_of_error he, List.append_nil]

/-- Of whole frames one behind another and a part of one more, every frame gives an entry at its
place, with its header and the command of its payload or with its own length and why it is refused,
and the part trails. Every byte string is cut so in one way, hence the frames of the entries and
what trails make up its length, and no more rounds are made than it has room for headers. -/
theorem boundaries_recovered :
    (∀ (ws : List RawFrame) (t : Bytes), (∀ w ∈ ws, w.header.length.toNat = w.payload.length) →
      Part t →
      decode (wire ws ++ t) = ⟨ws.map fun w => match Command.parse w.payload with
        | .ok c => .ok ⟨w.header, c⟩
        | .error reason => .error (.malformed reason (18 + w.payload.length)), t.length⟩) ∧
    ∀ d : Bytes,
      (∃ ws t, Cut d ws t ∧ ∀ ws' t', Cut d ws' t' → ws' = ws ∧ t' = t) ∧
      ((decode d).entries.map Entry.frameLength).sum + (decode d).trailing = d.length ∧
      18 * (decode d).entries.length + (decode d).trailing ≤ d.length := by
  refine ⟨fun ws t sized part => ?_, fun d => ?_⟩
  · rw [decode_cut ⟨sized, part, rfl⟩]
    congr 1
    exact List.map_congr_left fun w hw => RawFrame.Sized.entry_eq (sized w hw)
  · obtain ⟨ws, t, h⟩ := RawFrame.exists_cut d
    have hlen : d.length = (wire ws).length + t.length := by rw [h.bytes, List.length_append]
    refine ⟨⟨ws, t, h, fun ws' t' h' => h.unique h'⟩, ?_, ?_⟩
    · rw [decode_cut h, RawFrame.sum_frameLength h.sized, hlen]
    · rw [decode_cut h, List.length_map, hlen]
      exact Nat.add_le_add_right (RawFrame.length_wire_le ws) t.length

end Batch

end CameraChannel
