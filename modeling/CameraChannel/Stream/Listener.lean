import CameraChannel.Stream.Receiver

/-!
Serving peers one after another: every connection is read to its end by a receiver of its own before
the next is taken. A connection that fails is dropped; only cancellation or a failing accept ends
the service.
-/
namespace CameraChannel

namespace Receiver

/-- What a receiver can still take in. -/
def size (r : Receiver) : Nat := r.buffer.length + weight r.reads

theorem drain_le (c : Codec) (buffer : Bytes) : (drain c buffer).rest.length ≤ buffer.length := by
  fun_induction drain c buffer with
  | case1 => simp
  | case2 => simp
  | case3 _ f rest h => exact Nat.le_of_lt (Codec.decode_shorter h)
  | case4 _ e rest h d ih =>
    have := Codec.decode_shorter h
    simp only [d]
    omega

theorem drain_lt {c : Codec} {buffer : Bytes} {f : Frame}
    (h : (drain c buffer).stop = .frame f) : (drain c buffer).rest.length < buffer.length := by
  fun_induction drain c buffer with
  | case1 => cases h
  | case2 => cases h
  | case3 _ g rest e => exact Codec.decode_shorter e
  | case4 _ e rest hd d ih =>
    have := Codec.decode_shorter hd
    have := ih h
    simp only [d]
    omega

theorem atEnd_lt {r r' : Receiver} {f : Frame} (h : r.atEnd = (.frame f, r')) :
    r'.size < r.size := by
  unfold atEnd at h
  split at h <;> cases h
  next rest e =>
    have hd : r.codec.decode r.buffer = .ok (some (.ok f, rest)) := by
      unfold Codec.decodeEnd at e
      split at e
      · cases e
      · next hr => cases e; exact hr
      · split at e <;> cases e
    have := Codec.decode_shorter hd
    simp only [size]
    omega

theorem next_lt {r r' : Receiver} {f : Frame} (h : r.next = (.frame f, r')) :
    r'.size < r.size := by
  fun_induction next r with
  | case1 r d r₁ g hs =>
    have e : r₁ = r' := congrArg Prod.snd h
    have := drain_lt hs
    simp only [size, ← e, r₁, d]
    omega
  | case2 => cases congrArg Prod.fst h
  | case3 => cases congrArg Prod.fst h
  | case4 => cases congrArg Prod.fst h
  | case5 r d r₁ hs bs a reads hr hne =>
    have hlt := atEnd_lt h
    have hd := drain_le r.codec r.buffer
    have hw := readSome_le hr
    simp only [size, r₁, d] at hlt ⊢
    omega
  | case6 r d r₁ hs bs a reads hr hne ih =>
    have hlt := ih h
    have hd := drain_le r.codec r.buffer
    have hw := (readSome_lighter hr (by simpa using hne)).1
    have hb : ∀ m,
        size ⟨r₁.codec, reads, d.rest ++ bs, m⟩ = d.rest.length + bs.length + weight reads :=
      fun m => by simp [size]
    rw [hb] at hlt
    simp only [size, d] at hlt ⊢
    omega

/-- The frames up to the end of the stream or its first failure, and whether the stream is still
silent then. -/
def frames (r : Receiver) : List Frame × Bool :=
  match _h : r.next with
  | (.frame f, r) =>
    let (fs, silent) := frames r
    (f :: fs, silent)
  | (.waiting, _) => ([], true)
  | (.finished, _) => ([], false)
  | (.failed _, _) => ([], false)
termination_by r.size
decreasing_by exact next_lt _h

/-- The frames until the stream is silent, and the receiver to go on with; none when the stream is
over. -/
def takeFrames (r : Receiver) : List Frame × Option Receiver :=
  match _h : r.next with
  | (.frame f, r) =>
    let (fs, rest) := takeFrames r
    (f :: fs, rest)
  | (.waiting, r) => ([], some r)
  | (.finished, _) => ([], none)
  | (.failed _, _) => ([], none)
termination_by r.size
decreasing_by exact next_lt _h

end Receiver

/-- What a listener meets next. -/
inductive Arrival where
  | connection (peer : String) (reads : List ReadEvent)
  | acceptFailed (reason : String)
  | cancelled

structure Listener where
  codec : Codec := {}

namespace Listener

/-- The frames of each connection in order, and the reason of a failing accept. Without one the
service goes on until it is cancelled, also in the middle of a silent connection. -/
def run (l : Listener) : List Arrival → List (String × List Frame) × Option String
  | [] => ([], none)
  | .cancelled :: _ => ([], none)
  | .acceptFailed reason :: _ => ([], some reason)
  | .connection peer reads :: rest =>
    match Receiver.frames { codec := l.codec, reads } with
    | (fs, true) => ([(peer, fs)], none)
    | (fs, false) =>
      let (served, ending) := run l rest
      ((peer, fs) :: served, ending)

end Listener

end CameraChannel
