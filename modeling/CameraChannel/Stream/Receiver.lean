import CameraChannel.Frame.Codec
import CameraChannel.Stream.Script

/-!
Receiving frames: bytes are read into a buffer until its front is a complete frame. Frames with a
refused payload are counted and passed over.
-/
namespace CameraChannel

structure Receiver where
  codec : Codec := {}
  reads : List ReadEvent
  buffer : Bytes := []
  malformed : Nat := 0

namespace Receiver

/-- What a call gives. It waits for ever on a stream that never becomes ready. -/
inductive Item where
  | frame (f : Frame)
  | finished
  | failed (e : StreamError)
  | waiting

/-- Why decoding stopped: a frame, an announcement above the ceiling, or too few bytes. -/
inductive Stop where
  | frame (f : Frame)
  | oversized (e : FrameError)
  | wanting

structure Drained where
  stop : Stop
  skipped : Nat
  rest : Bytes

/-- Decodes up to the first good frame. -/
def drain (c : Codec) (buffer : Bytes) : Drained :=
  match _h : c.decode buffer with
  | .error e => ⟨.oversized e, 0, buffer⟩
  | .ok none => ⟨.wanting, 0, buffer⟩
  | .ok (some (.ok f, rest)) => ⟨.frame f, 0, rest⟩
  | .ok (some (.error _, rest)) =>
    let d := drain c rest
    { d with skipped := d.skipped + 1 }
termination_by buffer.length
decreasing_by exact Codec.decode_shorter _h

/-- The bytes and events still to come. -/
def weight : List ReadEvent → Nat
  | [] => 0
  | .data bs :: es => bs.length + 1 + weight es
  | _ :: es => 1 + weight es

theorem weight_leftover (bs : Bytes) (es : List ReadEvent) :
    weight (leftover bs es) ≤ bs.length + 1 + weight es := by
  unfold leftover
  split
  · omega
  · simp [weight]

theorem readSome_lighter {a a' : Allowance} {es rest : List ReadEvent} {bs : Bytes}
    (h : readSome a es = (.done bs a', rest)) (hne : bs.isEmpty = false) :
    bs.length + weight rest ≤ weight es ∧ weight rest < weight es := by
  fun_induction readSome a es with
  | case1 => cases h; simp at hne
  | case2 a ds es =>
    cases h
    have := weight_leftover (ds.drop readChunk) es
    have hpos : 0 < (ds.take readChunk).length := List.length_pos_iff.2 (by simpa using hne)
    have hsum : (ds.take readChunk).length + (ds.drop readChunk).length = ds.length := by
      rw [← List.length_append, List.take_append_drop]
    simp only [weight]
    omega
  | case3 => cases h; simp at hne
  | case4 => cases h
  | case5 a es ms a' hs ih =>
    have := ih h
    simp only [weight]
    omega
  | case6 => cases h
  | case7 => cases h

theorem readSome_le {a a' : Allowance} {es rest : List ReadEvent} {bs : Bytes}
    (h : readSome a es = (.done bs a', rest)) : weight rest ≤ weight es := by
  fun_induction readSome a es with
  | case1 => cases h; exact Nat.le_refl _
  | case2 a ds es =>
    cases h
    have := weight_leftover (ds.drop readChunk) es
    simp only [weight, List.length_drop] at this ⊢
    omega
  | case3 => cases h; simp [weight]
  | case4 => cases h
  | case5 a es ms a' hs ih =>
    have := ih h
    simp only [weight]
    omega
  | case6 => cases h
  | case7 => cases h

/-- At the end of the stream a frame still in the buffer is given out. -/
def atEnd (r : Receiver) : Item × Receiver :=
  match r.codec.decodeEnd r.buffer with
  | .error e => (.failed e, r)
  | .ok none => (.finished, r)
  | .ok (some (.ok f, rest)) => (.frame f, { r with buffer := rest })
  | .ok (some (.error _, rest)) =>
    (.finished, { r with buffer := rest, malformed := r.malformed + 1 })

/-- The next good frame. -/
def next (r : Receiver) : Item × Receiver :=
  let d := drain r.codec r.buffer
  let r' := { r with buffer := d.rest, malformed := r.malformed + d.skipped }
  match d.stop with
  | .frame f => (.frame f, r')
  | .oversized e => (.failed (.protocol e), r')
  | .wanting =>
    match _h : readSome none r.reads with
    | (.failed f, reads) => (.failed (.io f.reason), { r' with reads })
    | (.unfinished, reads) => (.waiting, { r' with reads })
    | (.done bs _, reads) =>
      if _hne : bs.isEmpty then atEnd { r' with reads }
      else next { r' with reads, buffer := d.rest ++ bs }
termination_by weight r.reads
decreasing_by exact (readSome_lighter _h (by simpa using _hne)).2

end Receiver

end CameraChannel
