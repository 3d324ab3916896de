import CameraChannel.Frame.Codec

/-!
A codec with one buffer for both directions: bytes and encoded frames are appended at its back, and
entries are taken off its front. The codec may be set anew in between.
-/
namespace CameraChannel

structure Buffered where
  codec : Codec := {}
  buffer : Bytes := []

namespace Buffered

inductive Step where
  | feed (bs : Bytes)
  | encode (m : Content)
  | decode
  | decodeEnd
  | setCeiling (n : Nat)
  | setOptions (o : FrameOptions)

inductive Reply where
  | done
  | item (e : Option Entry)
  | failed (e : StreamError)

/-- What was decoded leaves the buffer; a failure leaves all in place. -/
def takeOff (b : Buffered) : Except StreamError (Option (Entry × Bytes)) → Reply × Buffered
  | .error e => (.failed e, b)
  | .ok none => (.item none, b)
  | .ok (some (e, rest)) => (.item (some e), { b with buffer := rest })

def perform (b : Buffered) : Step → Reply × Buffered
  | .feed bs => (.done, { b with buffer := b.buffer ++ bs })
  | .encode m =>
    match b.codec.encode m b.buffer with
    | .ok buffer => (.done, { b with buffer })
    | .error e => (.failed (.protocol e), b)
  | .decode => b.takeOff ((b.codec.decode b.buffer).mapError .protocol)
  | .decodeEnd => b.takeOff (b.codec.decodeEnd b.buffer)
  | .setCeiling n => (.done, { b with codec := { b.codec with ceiling := n } })
  | .setOptions o => (.done, { b with codec := { b.codec with options := o } })

end Buffered

end CameraChannel
