import CameraChannel.CommandLine.Run
import Std.Async.DNS
import Std.Async.Signal
import Std.Async.TCP
import Std.Async.Timer
import Std.Time

/-!
The program: it reads the machine that a command line meets, runs the command line on it, prints,
and leaves behind what has changed. Connections are made here; what goes over them is decided
elsewhere. No other program can be started.
-/
namespace CameraChannel.CommandLine.Outer

open Std.Async
open Std.Async.TCP

/-! ### Files -/

def pathOf (place : Place) : String := "/" ++ "/".intercalate place

def nodeAt? (place : Place) : IO (Option Node) := do
  let path := (← IO.currentDir) / pathOf place
  if ← path.isDir then return some .directory
  try
    return some (.file (← IO.FS.readBinFile path).toList)
  catch _ => return none

/-- Takes in what stands at a path and on the way to it. -/
def load (fs : Files) (path : String) : IO Files := do
  let mut fs := fs
  let mut here := fs.start path
  for name in Path.names path do
    here := if name = "." then here else if name = ".." then here.dropLast else here ++ [name]
    if let some node ← nodeAt? here then fs := fs.put here node
  return fs

/-- Makes on disk what one state of the files has and another has not. -/
def store (before after : Files) : IO Unit := do
  for (place, node) in after.nodes.reverse do
    if before.nodes.lookup place != some node then
      match node with
      | .directory => IO.FS.createDirAll (pathOf place)
      | .file contents => IO.FS.writeBinFile (pathOf place) contents.toByteArray

/-! ### The machine -/

def variableNames : List String :=
  [Home.homeVariable, "HOME"] ++ Program.shared.filterMap (·.fallback?)

def environment : IO Environment :=
  variableNames.filterMapM fun name => return (← IO.getEnv name).map (name, ·)

partial def readAll (input : IO.FS.Stream) (held : ByteArray) : IO ByteArray := do
  let bs ← input.read 4096
  if bs.isEmpty then return held else readAll input (held ++ bs)

def now : IO Capture.Moment := do
  let t ← Std.Time.PlainDateTime.now
  return ⟨t.year, t.month.toNat, t.day.toNat, t.hour.toNat, t.minute.toNat, t.second.toNat⟩

/-- The paths that a verb looks at, apart from the settings. -/
def pathsOf : Verb → List String
  | .analyze file => [file]
  | _ => []

def machine (env : Environment) (verb : Verb) : IO Machine := do
  let input ←
    match verb with
    | .decode none => readAll (← IO.getStdin) .empty
    | _ => pure .empty
  let working := Path.names (← IO.currentDir).toString
  let paths :=
    [pathOf working, Home.settingsPath env, Path.join (Home.logDirectory env) Machine.logName]
  let files ← (paths ++ pathsOf verb).foldlM load { working }
  return {
    environment := env
    input := input.toList
    workshop := { now := ← now, files }
    dial := fun _ _ => .refused "no connection was tried"
    bind := fun _ => .error "no address was tried" }

/-! ### Connections -/

def milliseconds (n : Nat) : Std.Time.Millisecond.Offset := .ofNat n

/-- Runs an action, or gives up when the time is over. -/
def within {α : Type} (ms : Nat) (action : Async α) : Async (Option α) :=
  Async.race (do return some (← action)) (do sleep (milliseconds ms); return none)

def socketAddress (port : UInt16) : Std.Net.IPAddr → Std.Net.SocketAddress
  | .v4 addr => .v4 ⟨addr, port⟩
  | .v6 addr => .v6 ⟨addr, port⟩

def resolve (host : String) (port : UInt16) : Async Std.Net.SocketAddress := do
  let found : Array Std.Net.IPAddr ← DNS.getAddrInfo host (toString port.toNat)
  match found.toList with
  | ip :: _ => return socketAddress port ip
  | [] => throw (IO.userError "no address found")

/-- Takes data off a connection until a reply is complete, and tells how it arrived. -/
partial def readReply (peer : Socket.Client) (codec : Codec) (held : Bytes) :
    Async (List ReadEvent) := do
  match codec.decode held with
  | .ok none =>
    match ← peer.recv? 4096 with
    | some bs =>
      if bs.isEmpty then return [.data held] else readReply peer codec (held ++ bs.toList)
    | none => return [.data held]
  | _ => return [.data held]

/-- Sets the options of a socket, up to the first that is refused. -/
def refusedOption? (peer : Socket.Client) (t : Timeouts) :
    Async (Option (SocketOption × String)) := do
  try peer.noDelay
  catch e => return some (.noDelay, toString e)
  if SocketOption.keepalive.wanted t then
    try peer.keepAlive true 7200
    catch e => return some (.keepalive, toString e)
  return none

/-- Connects, lets out the bytes of a command, and gives the connection as the command finds it. -/
def converse (s : Settings) (c : Command) (o : FrameOptions) (waitReply : Bool) : Async Dial := do
  let t := s.timeouts
  let connected ← within t.connect do
    let peer ← Socket.Client.mk
    peer.connect (← resolve s.host s.port)
    return peer
  match connected with
  | none => return .late
  | some peer =>
    if let some (o, reason) ← refusedOption? peer t then return .unset {} o reason
    let bytes := Online.outgoing s c o
    let sent ← within t.write (if bytes.isEmpty then pure () else peer.send bytes.toByteArray)
    let reads ←
      if waitReply && sent.isSome && !bytes.isEmpty then
        pure ((← within t.read (readReply peer {} [])).getD [.never])
      else pure []
    let _ ← within t.write peer.shutdown
    return .opened { reads, writes := if sent.isSome then [] else [.never] }

def dial (s : Settings) (c : Command) (o : FrameOptions) (waitReply : Bool) : IO Dial := do
  try (converse s c o waitReply).block
  catch e => return .refused (toString e)

def printAll (prints : List Print) : IO Unit :=
  prints.forM fun
    | .out text => IO.print text
    | .err text => IO.eprint text

/-- Serves a peer to its end. False when listening is to stop. -/
partial def serve (f : Format) (stop : Selector Unit) (peer : Socket.Client) (name : String)
    (r : Receiver) : Async Bool := do
  let arrived : Option (List ReadEvent) ← Selectable.one #[
    .case (peer.recvSelector 4096) fun bs =>
      return some (match bs with
        | some bs => if bs.isEmpty then [.finish] else [.data bs.toList, .never]
        | none => [.finish]),
    .case stop fun _ => return none]
  match arrived with
  | none => return false
  | some reads =>
    let (frames, r) := Receiver.takeFrames { r with reads }
    printAll (frames.map (Online.framePrint f name))
    match r with
    | some r => serve f stop peer name r
    | none => return true

partial def acceptAll (f : Format) (stop : Selector Unit) (server : Socket.Server) :
    Async Unit := do
  let accepted : Option Socket.Client ← Selectable.one #[
    .case server.acceptSelector fun peer => return some peer,
    .case stop fun _ => return none]
  match accepted with
  | none => return
  | some peer =>
    let name := toString (← peer.getPeerName)
    let goesOn ←
      try serve f stop peer name { reads := [] }
      catch _ => pure true
    if goesOn then acceptAll f stop server

/-- Listens until interrupted. -/
def listen (g : Globals) (address : String) : IO Transcript := do
  let failing (reason : String) : Transcript := Online.listen g address (fun _ => .error reason) []
  match Address.read address with
  | .error _ => return failing ""
  | .ok a =>
    let bound : Except String (Socket.Server × String) ←
      try
        let server ← Socket.Server.mk
        server.bind (← (resolve a.host a.port).block)
        server.listen 128
        pure (.ok (server, toString (← server.getSockName)))
      catch e => pure (.error (toString e))
    match bound with
    | .error reason => return failing reason
    | .ok (server, name) =>
      printAll (Online.listenNote g name)
      let stop ← Signal.Waiter.mk .sigint true
      try
        (acceptAll g.format stop.selector server).block
        return {}
      catch e => return .failing [] (.connection (toString e))

/-! ### Running -/

def finish (t : Transcript) : IO UInt32 := do
  printAll t.prints
  return UInt32.ofNat t.exitCode

/-- Runs a verb on the machine, over a connection where it needs one. -/
def invoke (m : Machine) (i : Invocation) : IO (Transcript × Machine) := do
  let s := (m.settings i.globals).1
  match i.verb with
  | .startStream device o =>
    let d ← dial s (.startStreaming (device.getD s.device)) o false
    return { m with dial := fun _ _ => d }.invoke i
  | .send c o waitReply =>
    let d ← dial s c o waitReply
    return { m with dial := fun _ _ => d }.invoke i
  | .listen address logsToFile =>
    let opened := if logsToFile then m.openLog else m
    store m.files opened.files
    return (← listen i.globals address, opened)
  | _ => return m.invoke i

def run (words : List String) : IO UInt32 := do
  let env ← environment
  match Invocation.read env words with
  | .error stop => finish (stop.transcript env)
  | .ok i =>
    let before ← machine env i.verb
    let (t, after) ← invoke before i
    store before.files after.files
    finish t

end CameraChannel.CommandLine.Outer

def main (words : List String) : IO UInt32 := CameraChannel.CommandLine.Outer.run words
