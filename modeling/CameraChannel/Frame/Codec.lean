import CameraChannel.Frame.Basic

/-!
Frames over a growing buffer, under a ceiling for payloads. A refused payload costs its frame only;
a header that announces more than the ceiling stays in front and stops all decoding.
-/
namespace CameraChannel

/-- What ends a stream of frames. -/
inductive StreamError where
  | io (reason : String)
  | protocol (e : FrameError)
  | truncated (held : Nat)

def StreamError.message : StreamError → String
  | .io reason => "I/O error: " ++ reason
  | .protocol e => "protocol error: " ++ e.message
  | .truncated n => "stream closed with " ++ Digits.text n ++ " bytes of an unfinished frame"

structure Codec where
  options : FrameOptions := {}
  ceiling : Nat := 16 * 1024 * 1024
  deriving DecidableEq, Repr

namespace Codec

/-- The next entry and the bytes behind it, or none while the front frame is unfinished. -/
def decode (c : Codec) (buffer : Bytes) : Except FrameError (Option (Entry × Bytes)) :=
  match Header.read? buffer with
  | none => .ok none
  | some (h, rest) =>
    if c.ceiling < h.length.toNat then .error (.tooLarge h.length.toNat c.ceiling)
    else if rest.length < h.length.toNat then .ok none
    else
      .ok (some (RawFrame.entry ⟨h, rest.take h.length.toNat⟩, rest.drop h.length.toNat))

/-- As `decode`, at the end of the stream, where an unfinished frame is an error. -/
def decodeEnd (c : Codec) (buffer : Bytes) : Except StreamError (Option (Entry × Bytes)) :=
  match c.decode buffer with
  | .error e => .error (.protocol e)
  | .ok (some r) => .ok (some r)
  | .ok none => if buffer.isEmpty then .ok none else .error (.truncated buffer.length)

/-- The frame that carries `m`, if its payload stays within the ceiling. -/
def frame (c : Codec) (m : Content) : Except FrameError Bytes :=
  match Frame.encodePayload m c.options.style with
  | .error e => .error e
  | .ok payload =>
    if c.ceiling < payload.length then .error (.tooLarge payload.length c.ceiling)
    else Frame.enclose payload c.options

/-- The buffer with a frame appended. -/
def encode (c : Codec) (m : Content) (buffer : Bytes) : Except FrameError Bytes :=
  (c.frame m).map (buffer ++ ·)

theorem decode_shorter {c : Codec} {buffer rest : Bytes} {e : Entry}
    (h : c.decode buffer = .ok (some (e, rest))) : rest.length < buffer.length := by
  unfold decode at h
  split at h
  · cases h
  · next hd tail hr =>
    have : tail.length + Header.size = buffer.length :=
      Frame.readHeader_shorter (h := hd) (by simp [Frame.readHeader, hr])
    simp only [Header.size] at this
    split at h
    · cases h
    · split at h
      · cases h
      · cases h
        simp only [List.length_drop]
        omega

end Codec

end CameraChannel
