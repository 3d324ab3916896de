import CameraChannel.CommandLine.Offline
import CameraChannel.CommandLine.Online
import CameraChannel.CommandLine.Recording
import CameraChannel.Settings.Home

/-!
Running the program on a machine: what it meets there, and what it shows and leaves behind.
-/
namespace CameraChannel.CommandLine

structure Machine where
  environment : Environment := []
  /-- All of standard input. -/
  input : Bytes := []
  /-- The files, and the programs that can be started. -/
  workshop : Capture.Workshop
  /-- What tells the user's number, if anything does. -/
  user : Option String := none
  dial : String → UInt16 → Dial
  bind : Address → Except String String
  arrivals : List Arrival := []
  /-- When a capture is interrupted. -/
  interrupted : Capture.Cancellation := .never

namespace Machine

def files (m : Machine) : Files := m.workshop.files

def withFiles (m : Machine) (files : Files) : Machine :=
  { m with workshop := { m.workshop with files } }

def withWorkshop (m : Machine) : Transcript × Capture.Workshop → Transcript × Machine
  | (t, workshop) => (t, { m with workshop })

def logName : String := "camwire-listen.log"

/-- Opens the log file, which stays as it is if it is there. -/
def openLog (m : Machine) : Machine :=
  let files := Home.makeLogs m.environment m.files
  let path := Path.join (Home.logDirectory m.environment) logName
  if files.isFile path then m.withFiles files
  else m.withFiles ((files.write path []).toOption.getD files)

/-- Writes the default settings unless there are settings to keep. -/
def initSettings (m : Machine) (g : Globals) (force : Bool) : Transcript × Machine :=
  let path := Home.settingsPath m.environment
  if m.files.exists? path && !force then
    (.failing [] (.action (path ++ " already exists (use --force to overwrite)")), m)
  else
    match Home.save {} m.environment m.files with
    | .error e => (.failing [] (.action ("Failed to write config: " ++ e.message)), m)
    | .ok (path, files) =>
      ({ prints := if g.quiet then [] else [.errLine ("Wrote " ++ path)] }, m.withFiles files)

/-- The settings in force, as the command line changes them. -/
def settings (m : Machine) (g : Globals) : Settings × Machine :=
  let (s, files) := Home.load m.environment m.files
  ({ s with host := g.host.getD s.host, port := g.port.getD s.port }, m.withFiles files)

def send (m : Machine) (g : Globals) (s : Settings) (c : Command) (o : FrameOptions)
    (waitReply : Bool) : Transcript :=
  Online.send g s (m.dial s.host s.port) c o waitReply

def perform (m : Machine) (g : Globals) (s : Settings) : Verb → Transcript × Machine
  | .startStream device o => (m.send g s (.startStreaming (device.getD s.device)) o false, m)
  | .send c o waitReply => (m.send g s c o waitReply, m)
  | .encode c o => (Offline.encode g c o, m)
  | .decode hex => (Offline.decodeGiven g.format hex m.input, m)
  | .listen address _ => (Online.listen g address m.bind m.arrivals, m)
  | .capture changes analyze =>
    m.withWorkshop (Recording.capture g m.user (changes.apply s.capture.request) m.interrupted
      analyze m.workshop)
  | .analyze file => m.withWorkshop (Recording.analyze g file m.workshop)
  | .showSettings => ({ prints := [.outLine s.render] }, m)
  | .settingsPath => ({ prints := [.outLine (Home.settingsPath m.environment)] }, m)
  | .initSettings force => m.initSettings g force

/-- A log file is opened before the settings are read. -/
def invoke (m : Machine) (i : Invocation) : Transcript × Machine :=
  let m :=
    match i.verb with
    | .listen _ true => m.openLog
    | _ => m
  let (s, m) := m.settings i.globals
  m.perform i.globals s i.verb

/-- Runs a command line, or tells why there is nothing to run. -/
def run (m : Machine) (words : List String) : Except Stop (Transcript × Machine) :=
  (Invocation.read m.environment words).map m.invoke

end Machine

end CameraChannel.CommandLine
