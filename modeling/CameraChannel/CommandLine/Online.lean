import CameraChannel.CommandLine.Transcript
import CameraChannel.Settings.Basic
import CameraChannel.Stream.Address
import CameraChannel.Stream.Listener

/-!
Sending a command over a connection, and listening for frames.
-/
namespace CameraChannel.CommandLine

namespace Online

def targetText (s : Settings) : String := s.host ++ ":" ++ Digits.text s.port.toNat

def client (s : Settings) : Client := { Client.ofAddress s.host s.port with timeouts := s.timeouts }

/-- Sends over a client that is connected, and takes the first reply. The client is closed whatever
comes of it. -/
def exchange (c : Client) (m : Command) (o : FrameOptions) :
    Except ClientError (Nat × Frame) × Client :=
  match c.sendWith m o with
  | (.error e, c) => (.error e, c.close.2)
  | (.ok sent, c) =>
    match c.recv with
    | (.error e, c) => (.error e, c.close.2)
    | (.ok reply, c) => (.ok (sent, reply), c.close.2)

/-- The bytes sent, and the reply when one is waited for. -/
def deliver (s : Settings) (dial : Dial) (m : Command) (o : FrameOptions) (waitReply : Bool) :
    Except ClientError (Nat × Option Frame) :=
  if waitReply then
    match (client s).connect dial with
    | (.error e, _) => .error e
    | (.ok _, c) => ((exchange c m o).1).map fun (sent, reply) => (sent, some reply)
  else ((client s).sendOnce dial m o).1.map (·, none)

/-- The bytes that go out when the peer takes all. -/
def outgoing (s : Settings) (m : Command) (o : FrameOptions) : Bytes :=
  (((client s).connect (.opened {})).2.sendWith m o).2.stream.taken

def replyValue : Option Frame → Json
  | some f => f.toJson
  | none => .null

def send (g : Globals) (s : Settings) (dial : Dial) (m : Command) (o : FrameOptions)
    (waitReply : Bool) : Transcript :=
  match deliver s dial m o waitReply with
  | .error e => .failing [] (.ofClient e)
  | .ok (sent, reply) =>
    match g.format with
    | .json =>
      { prints := [.document (Json.canonical (.object [
          ("success", .bool true),
          ("target", .string (targetText s)),
          ("bytes", .ofUInt64 (UInt64.ofNat sent)),
          ("message", Frame.messageValue m),
          ("reply", replyValue reply)]))] }
    | .text =>
      let note :=
        if g.quiet then []
        else
          [.errLine ("Sent " ++ Digits.text sent ++ " bytes to " ++ targetText s ++ ": " ++ m.text)]
      { prints := note ++ (reply.map fun f => Print.outLine f.line).toList }

/-- A received frame with the peer that sent it. -/
def framePrint (f : Format) (peer : String) (frame : Frame) : Print :=
  match f with
  | .text => .outLine (peer ++ " " ++ frame.line)
  | .json =>
    match frame.toJson with
    | .object ms => .document (Json.canonical (.object (ms ++ [("peer", .string peer)])))
    | v => .document v

def servedPrints (f : Format) (served : List (String × List Frame)) : List Print :=
  served.flatMap fun (peer, frames) => frames.map (framePrint f peer)

/-- What is told when listening starts. -/
def listenNote (g : Globals) (bound : String) : List Print :=
  if g.quiet then [] else [.errLine ("Listening on " ++ bound ++ " (Ctrl-C to stop)")]

/-- Listens at an address; `bind` gives the address that is bound, or why none is. -/
def listen (g : Globals) (address : String) (bind : Address → Except String String)
    (arrivals : List Arrival) : Transcript :=
  match ((Address.read address).mapError AddressError.message).bind bind with
  | .error reason =>
    .failing [] (.connection ("Failed to bind " ++ address ++ ": " ++ reason))
  | .ok bound =>
    let (served, failed) := Listener.run {} arrivals
    let prints := listenNote g bound ++ servedPrints g.format served
    match failed with
    | some reason => .failing prints (.connection reason)
    | none => { prints }

end Online

end CameraChannel.CommandLine
