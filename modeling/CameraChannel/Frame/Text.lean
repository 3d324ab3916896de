import CameraChannel.Frame.Basic
import CameraChannel.Text.Hex

/-!
Frames shown to a reader, as a line of text or as a JSON object. Both tell every header field and
the message.
-/
namespace CameraChannel.Frame

def line (f : Frame) : String :=
  "len=" ++ Digits.text f.header.length.toNat ++
    " flag=" ++ Digits.text f.header.messageFlag.toNat ++
    " package=" ++ Digits.text f.header.packageId.toNat ++
    " deal=" ++ Digits.text f.header.dealFlag.toNat ++
    " forward=" ++ Hex.text f.header.forwardId.toList ++
    " " ++ f.message.text

/-- A command as a canonical value; one that cannot be sent is null. -/
def messageValue (c : Command) : Json :=
  match c.document with
  | .ok v => v.canonical
  | .error _ => .null

def toJson (f : Frame) : Json :=
  Json.canonical (.object [
    ("length", .ofUInt32 f.header.length),
    ("message_flag", .ofUInt8 f.header.messageFlag),
    ("package_id", .ofUInt32 f.header.packageId),
    ("deal_flag", .ofUInt8 f.header.dealFlag),
    ("forward_id", .string (Hex.text f.header.forwardId.toList)),
    ("message", messageValue f.message)])

end CameraChannel.Frame
