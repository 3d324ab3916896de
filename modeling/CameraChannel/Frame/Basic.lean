import CameraChannel.Command.Reader
import CameraChannel.Frame.Header

/-!
Frames: a header and a JSON payload of the length it announces. Encoding puts a command or a value
behind a header; decoding takes the first frame off a byte string and hands back the rest.
-/
namespace CameraChannel

inductive FrameError where
  | unencodable (reason : Command.Reserved)
  | incomplete (needed : Nat)
  | malformed (reason : Json.ReadError) (frameLength : Nat)
  | tooLarge (length limit : Nat)

namespace FrameError

def message : FrameError → String
  | .unencodable r => "failed to encode message: " ++ r.message
  | .incomplete n => "incomplete frame: " ++ Digits.text n ++ " more bytes required"
  | .malformed e n => "malformed payload in " ++ Digits.text n ++ "-byte frame: " ++ e.message
  | .tooLarge n limit =>
    "payload of " ++ Digits.text n ++ " bytes exceeds limit of " ++ Digits.text limit ++ " bytes"

/-- Whether more bytes would help. -/
def isIncomplete : FrameError → Bool
  | .incomplete _ => true
  | _ => false

end FrameError

/-- How a payload is laid out. -/
inductive Style where
  | compact
  | spaced
  deriving DecidableEq, Repr

def Style.layout : Style → Json.Layout
  | .compact => .compact
  | .spaced => .spaced

/-- What a sender chooses: the header's fields besides the length, and the payload's style. -/
structure FrameOptions where
  messageFlag : UInt8 := 0
  packageId : UInt32 := 0
  dealFlag : UInt8 := 0
  forwardId : ForwardId := .zero
  style : Style := .compact
  deriving DecidableEq, Repr

def Header.forPayload (length : UInt32) (o : FrameOptions) : Header where
  length := length
  messageFlag := o.messageFlag
  packageId := o.packageId
  dealFlag := o.dealFlag
  forwardId := o.forwardId

/-- What a frame can carry. -/
inductive Content where
  | command (c : Command)
  | value (v : Json)

def Content.document : Content → Except Command.Reserved Json
  | .command c => c.document
  | .value v => .ok v

structure Frame where
  header : Header
  message : Command

/-- A frame taken off a byte string, its payload not yet read. -/
structure RawFrame where
  header : Header
  payload : Bytes

/-- A complete frame whose payload was read or refused. -/
abbrev Entry := Except FrameError Frame

namespace Frame

/-- The greatest length a header can announce. -/
def lengthLimit : Nat := 0xffffffff

def encodePayload (m : Content) (s : Style) : Except FrameError Bytes :=
  match m.document with
  | .ok v => .ok (Utf8.ofChars (v.render s.layout 0))
  | .error r => .error (.unencodable r)

/-- A payload behind its header. -/
def enclose (payload : Bytes) (o : FrameOptions) : Except FrameError Bytes :=
  if payload.length ≤ lengthLimit then
    .ok ((Header.forPayload (UInt32.ofNat payload.length) o).toBytes ++ payload)
  else .error (.tooLarge payload.length lengthLimit)

def encode (m : Content) (o : FrameOptions) : Except FrameError Bytes :=
  match encodePayload m o.style with
  | .ok payload => enclose payload o
  | .error e => .error e

/-- The header at the front; without one, how many bytes it lacks. -/
def readHeader (d : Bytes) : Except FrameError (Header × Bytes) :=
  match Header.read? d with
  | some r => .ok r
  | none => .error (.incomplete (Header.size - d.length))

/-- The first frame and the bytes behind it; without one, how many bytes it lacks. -/
def split (d : Bytes) : Except FrameError (RawFrame × Bytes) :=
  match readHeader d with
  | .error e => .error e
  | .ok (h, rest) =>
    if h.length.toNat ≤ rest.length then
      .ok (⟨h, rest.take h.length.toNat⟩, rest.drop h.length.toNat)
    else .error (.incomplete (h.length.toNat - rest.length))

/-- The command of a payload; a refusal tells the length of the whole frame. -/
def parsePayload (payload : Bytes) (frameLength : Nat) : Except FrameError Command :=
  (Command.parse payload).mapError (.malformed · frameLength)

/-- The value of a payload. -/
def parseValue (payload : Bytes) (frameLength : Nat) : Except FrameError Json :=
  ((Json.read payload).mapError (.malformed · frameLength)).map Json.canonical

end Frame

/-- A complete frame with its payload read, or refused. -/
def RawFrame.entry (r : RawFrame) : Entry :=
  (Frame.parsePayload r.payload r.header.frameLength).map (⟨r.header, ·⟩)

namespace Frame

/-- The first frame with its command, and the bytes behind it. -/
def decode (d : Bytes) : Except FrameError (Frame × Bytes) :=
  match split d with
  | .error e => .error e
  | .ok (r, rest) => r.entry.map (·, rest)

theorem readHeader_shorter {d rest : Bytes} {h : Header} (e : readHeader d = .ok (h, rest)) :
    rest.length + Header.size = d.length := by
  unfold readHeader at e
  split at e
  · next r hr =>
    cases e
    unfold Header.read? at hr
    split at hr
    · cases hr; rfl
    · cases hr
  · cases e

theorem split_shorter {d rest : Bytes} {r : RawFrame} (e : split d = .ok (r, rest)) :
    rest.length < d.length := by
  unfold split at e
  split at e
  · cases e
  · next h tail hh =>
    have := readHeader_shorter hh
    simp only [Header.size] at this
    split at e
    · cases e
      simp only [List.length_drop]
      omega
    · cases e

end Frame

end CameraChannel
