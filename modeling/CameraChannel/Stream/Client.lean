import CameraChannel.Frame.Codec
import CameraChannel.Stream.Script

/-!
The client's end of a connection. It holds one stream at most, bounds every operation in time, and
lets the stream go as soon as it may no longer be aligned with frames.
-/
namespace CameraChannel

/-- Limits in milliseconds. -/
structure Timeouts where
  connect : Nat := 5000
  write : Nat := 5000
  read : Nat := 30000
  keepalive : Bool := true
  deriving DecidableEq, Repr

inductive Operation where
  | connect
  | write
  | read
  | close
  deriving DecidableEq, Repr

def Operation.name : Operation → String
  | .connect => "connect"
  | .write => "write"
  | .read => "read"
  | .close => "close"

inductive ClientError where
  | notConnected
  | connectionFailed (target reason : String)
  | timeout (op : Operation)
  | io (reason : String)
  | protocol (e : FrameError)
  | closed

def ClientError.message : ClientError → String
  | .notConnected => "not connected"
  | .connectionFailed target reason => "connection to " ++ target ++ " failed: " ++ reason
  | .timeout op => op.name ++ " timed out"
  | .io reason => "I/O error: " ++ reason
  | .protocol e => "protocol error: " ++ e.message
  | .closed => "connection closed by peer"

/-- What is set on a socket before it is used. -/
inductive SocketOption where
  | noDelay
  | keepalive
  deriving DecidableEq, Repr

/-- Keepalive is set only where it is asked for. -/
def SocketOption.wanted (t : Timeouts) : SocketOption → Bool
  | .noDelay => true
  | .keepalive => t.keepalive

/-- What an attempt to reach a target comes to. A connection may open and not let an option be
set. -/
inductive Dial where
  | opened (s : Stream)
  | refused (reason : String)
  | late
  | unset (s : Stream) (o : SocketOption) (reason : String)

/-- `stream` stays readable after it was let go, when `connected` is false. -/
structure Client where
  target : Option String := none
  timeouts : Timeouts := {}
  codec : Codec := {}
  stream : Stream := {}
  connected : Bool

namespace Client

/-- A client for a host and port, not yet connected. -/
def ofAddress (host : String) (port : UInt16) : Client where
  target := some (host ++ ":" ++ Digits.text port.toNat)
  connected := false

/-- A client on a stream that is open already. -/
def ofStream (s : Stream) : Client where
  stream := s
  connected := true

def release (c : Client) : Client := { c with connected := false }

def connect (c : Client) (dial : Dial) : Except ClientError Unit × Client :=
  match c.target with
  | none => (.error (.connectionFailed "<stream>" "no address configured"), c)
  | some target =>
    match dial with
    | .opened s => (.ok (), { c with stream := s, connected := true })
    | .refused reason => (.error (.connectionFailed target reason), c)
    | .late => (.error (.timeout .connect), c)
    | .unset s o reason =>
      if o.wanted c.timeouts then (.error (.io reason), c)
      else (.ok (), { c with stream := s, connected := true })

/-- Flushes and shuts the stream down, and lets it go in any case. -/
def close (c : Client) : Except ClientError Unit × Client :=
  if !c.connected then (.ok (), c)
  else
    let (r, s) :=
      Stream.andThen (c.stream.flush (some c.timeouts.write)) fun _ a s => s.shutdown a
    let result :=
      match r with
      | .done _ _ => .ok ()
      | .failed f => .error (.io f.reason)
      | .unfinished => .error (.timeout .close)
    (result, { c with stream := s }.release)

/-- Writes a frame and flushes, both within the time for writing. -/
def writeFrame (c : Client) (frame : Bytes) : Except ClientError Nat × Client :=
  if !c.connected then (.error .notConnected, c)
  else
    let (r, s) :=
      Stream.andThen (c.stream.write frame (some c.timeouts.write)) fun _ a s => s.flush a
    let c := { c with stream := s }
    match r with
    | .done _ _ => (.ok frame.length, c)
    | .failed f => (.error (.io f.reason), c.release)
    | .unfinished => (.error (.timeout .write), c.release)

/-- Sends a command and tells the bytes written. Encoding comes before all else. -/
def sendBy (c : Client) (codec : Codec) (m : Command) : Except ClientError Nat × Client :=
  match codec.frame (.command m) with
  | .error e => (.error (.protocol e), c)
  | .ok frame => c.writeFrame frame

def send (c : Client) (m : Command) : Except ClientError Nat × Client := c.sendBy c.codec m

/-- Sends with other options, under the same ceiling. -/
def sendWith (c : Client) (m : Command) (o : FrameOptions) : Except ClientError Nat × Client :=
  c.sendBy { c.codec with options := o } m

def startStreaming (c : Client) (device : String) : Except ClientError Nat × Client :=
  c.send (.startStreaming device)

/-- A frame read off a stream, or its header when that announces too much. -/
def readFrame (s : Stream) (ceiling : Nat) (a : Allowance) :
    Ending (Except FrameError RawFrame) × Stream :=
  Stream.andThen (s.read Header.size a) fun bs a s =>
    match Frame.readHeader bs with
    | .error e => (.done (.error e) a, s)
    | .ok (h, _) =>
      if ceiling < h.length.toNat then (.done (.error (.tooLarge h.length.toNat ceiling)) a, s)
      else
        Stream.andThen (s.read h.length.toNat a) fun payload a s => (.done (.ok ⟨h, payload⟩) a, s)

/-- Receives a frame within the time for reading. A payload that is refused was read to its end, so
the stream stays. -/
def recv (c : Client) : Except ClientError Frame × Client :=
  if !c.connected then (.error .notConnected, c)
  else
    let (r, s) := readFrame c.stream c.codec.ceiling (some c.timeouts.read)
    let c := { c with stream := s }
    match r with
    | .done (.ok raw) _ => (raw.entry.mapError .protocol, c)
    | .done (.error e) _ => (.error (.protocol e), c.release)
    | .failed f => (.error (if f.kind = .unexpectedEnd then .closed else .io f.reason), c.release)
    | .unfinished => (.error (.timeout .read), c.release)

inductive Step where
  | connect (dial : Dial)
  | close
  | disconnect
  | send (m : Command)
  | sendWith (m : Command) (o : FrameOptions)
  | startStreaming (device : String)
  | recv

inductive Reply where
  | ok
  | sent (n : Nat)
  | received (f : Frame)
  | failed (e : ClientError)

def Reply.of {α : Type} (f : α → Reply) : Except ClientError α × Client → Reply × Client
  | (.ok a, c) => (f a, c)
  | (.error e, c) => (.failed e, c)

def perform (c : Client) : Step → Reply × Client
  | .connect dial => Reply.of (fun _ => .ok) (c.connect dial)
  | .close => Reply.of (fun _ => .ok) c.close
  | .disconnect => (.ok, c.release)
  | .send m => Reply.of .sent (c.send m)
  | .sendWith m o => Reply.of .sent (c.sendWith m o)
  | .startStreaming device => Reply.of .sent (c.startStreaming device)
  | .recv => Reply.of .received c.recv

/-- Connects, sends one command and closes. The result is that of sending, however the close
goes. -/
def sendOnce (c : Client) (dial : Dial) (m : Command) (o : FrameOptions) :
    Except ClientError Nat × Client :=
  match c.connect dial with
  | (.error e, c) => (.error e, c)
  | (.ok _, c) =>
    let (sent, c) := c.sendWith m o
    (sent, c.close.2)

end Client

end CameraChannel
