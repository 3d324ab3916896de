import CameraChannel.CommandLine.Usage
import CameraChannel.CommandLine.Values

/-!
The program's own command line: what can be given, and what was given as typed values.
-/
namespace CameraChannel.CommandLine

def programName : String := "camwire"

def version : String := "0.1.0"

inductive Format where
  | text
  | json
  deriving DecidableEq, Repr

/-- What every verb takes. -/
structure Globals where
  host : Option String := none
  port : Option UInt16 := none
  format : Format := .text
  quiet : Bool := false

/-- What a capture may change in the settings. -/
structure CaptureChanges where
  seconds : Option UInt64 := none
  interface : Option String := none
  host : Option String := none
  ports : List UInt16 := []
  directory : Option String := none
  withoutSudo : Bool := false

inductive Verb where
  | startStream (device : Option String) (options : FrameOptions)
  | send (command : Command) (options : FrameOptions) (waitReply : Bool)
  | encode (command : Command) (options : FrameOptions)
  | decode (hex : Option String)
  | listen (address : String) (logsToFile : Bool)
  | capture (changes : CaptureChanges) (analyze : Bool)
  | analyze (file : String)
  | showSettings
  | settingsPath
  | initSettings (force : Bool)

structure Invocation where
  globals : Globals := {}
  verb : Verb

namespace Program

def isNumber (low high : Int) (s : String) : Bool := (number? low high s).isSome

def isByte : String → Bool := isNumber 0 0xff

def isPort : String → Bool := isNumber 0 0xffff

def isWord : String → Bool := isNumber 0 0xffffffff

/-- A count takes no minus sign, not even before a zero. -/
def isSeconds (s : String) : Bool := (Digits.readUnsigned? s.toList).any (· < 0x10000000000000000)

def isCode : String → Bool := isNumber (-0x8000000000000000) 0x7fffffffffffffff

def isForwardId (s : String) : Bool := (forwardId s).toOption.isSome

def isField (s : String) : Bool := (field s).toOption.isSome

def isPath (s : String) : Bool := !s.isEmpty

def formats : List String := ["text", "json"]

def shared : List Switch := [
  { long := "host"
    action := .value
    valueName := "HOST"
    help := "Relay server or camera host (defaults to the config file)"
    fallback? := some "CAMWIRE_HOST" },
  { long := "port"
    action := .value
    valueName := "PORT"
    accepts := isPort
    help := "Relay server or camera port (defaults to the config file)"
    fallback? := some "CAMWIRE_PORT" },
  { long := "format"
    short := some 'f'
    action := .value
    valueName := "FORMAT"
    accepts := (formats.contains ·)
    help := "Output format: text or json"
    default := some "text"
    choices := formats },
  { long := "quiet"
    short := some 'q'
    help := "Suppress non-essential output" },
  { long := "verbose"
    short := some 'v'
    action := .count
    help := "Increase log verbosity (-v info, -vv debug, -vvv trace)" }]

def device (help : String) : Switch where
  long := "dev-target"
  short := some 'd'
  action := .value
  valueName := "DEV_TARGET"
  help := help

def header : List Switch := [
  { long := "package-id"
    action := .value
    valueName := "PACKAGE_ID"
    accepts := isWord
    help := "Correlation id placed in the header"
    default := some "0" },
  { long := "message-flag"
    action := .value
    valueName := "MESSAGE_FLAG"
    accepts := isByte
    help := "Message flag byte"
    default := some "0" },
  { long := "deal-flag"
    action := .value
    valueName := "DEAL_FLAG"
    accepts := isByte
    help := "Deal flag byte"
    default := some "0" },
  { long := "forward-id"
    action := .value
    valueName := "FORWARD_ID"
    accepts := isForwardId
    help := "Forwarding token as 16 hex digits" },
  { long := "spaced"
    help := "Use `\", \"` / `\": \"` separators in the JSON payload" }]

def message : List Switch := [
  { long := "code"
    short := some 'c'
    action := .value
    valueName := "CODE"
    accepts := isCode
    help := "Command code"
    isRequired := true },
  device "Target device id",
  { long := "field"
    action := .values
    valueName := "FIELDS"
    accepts := isField
    help := "Extra field as KEY=VALUE, VALUE parsed as JSON when possible (repeatable)" }]

def startStream : Level :=
  .mk "start-stream" "Ask the camera to start streaming"
    (device "Target device id (defaults to the config file)" :: header) none []

def send : Level :=
  .mk "send" "Send one command"
    (message ++ header ++ [
      { long := "wait-reply"
        short := some 'w'
        help := "Keep the connection open and print the first reply" }]) none []

def encode : Level :=
  .mk "encode" "Print the frame a command encodes to, without sending it" (message ++ header)
    none []

def decode : Level :=
  .mk "decode" "Decode hex-encoded frames (argument or stdin)" []
    (some { name := "HEX", help := "Hex bytes; read from stdin when omitted", isRequired := false })
    []

def listen : Level :=
  .mk "listen" "Accept connections and print every frame received" [
    { long := "bind"
      short := some 'b'
      action := .value
      valueName := "BIND"
      help := "Address to listen on"
      default := some "0.0.0.0:6123" },
    { long := "log-file"
      help := "Write logs to ~/.camwire/logs/camwire-listen.log instead of stderr" }] none []

def capture : Level :=
  .mk "capture" "Capture camera traffic with tcpdump, then summarize it" [
    { long := "duration"
      short := some 'd'
      action := .value
      valueName := "DURATION"
      accepts := isSeconds
      help := "Capture window in seconds" },
    { long := "interface"
      short := some 'i'
      action := .value
      valueName := "INTERFACE"
      help := "Network interface" },
    { long := "camera-host"
      action := .value
      valueName := "CAMERA_HOST"
      help := "Camera LAN address to filter on" },
    { long := "filter-port"
      action := .values
      valueName := "PORTS"
      accepts := isPort
      help := "Ports to filter on (repeatable)" },
    { long := "output-dir"
      short := some 'o'
      action := .value
      valueName := "OUTPUT_DIR"
      accepts := isPath
      help := "Directory for the capture file" },
    { long := "no-sudo"
      help := "Run tcpdump directly instead of via sudo" },
    { long := "no-analyze"
      help := "Skip the summary after capturing" }] none []

def analyze : Level :=
  .mk "analyze" "Summarize an existing capture file" []
    (some {
      name := "FILE"
      accepts := isPath
      help := "Path to the .pcap file"
      isRequired := true }) []

def settings : Level :=
  .mk "config" "Show or create the configuration file" [] none [
    .mk "show" "Print the effective configuration" [] none [],
    .mk "path" "Print the configuration file path" [] none [],
    .mk "init" "Write a configuration file with default values"
      [{ long := "force", help := "Overwrite an existing file" }] none []]

def grammar : Grammar where
  root := .mk programName "Send, decode and capture V720 camera control frames" [] none
    [startStream, send, encode, decode, listen, capture, analyze, settings]
  shared := shared
  version := version

end Program

/-- The command that a code, a device and fields in order build. -/
def commandOf (code : Int64) (target : Option String) (fields : List (String × Json)) : Command :=
  fields.foldl (fun c f => c.withField f.1 f.2) { code, target }

namespace Given

/-- The number given to a switch; the grammar has checked its range. -/
def number (g : Given) (long : String) : Option Int :=
  (g.value? long).bind (Digits.readSigned? ·.toList)

def bits (g : Given) (long : String) : Nat := ((g.number long).getD 0).toNat

def options (g : Given) : FrameOptions where
  messageFlag := UInt8.ofNat (g.bits "message-flag")
  packageId := UInt32.ofNat (g.bits "package-id")
  dealFlag := UInt8.ofNat (g.bits "deal-flag")
  forwardId := ((g.value? "forward-id").bind (forwardId · |>.toOption)).getD .zero
  style := if g.has "spaced" then .spaced else .compact

def command (g : Given) : Command :=
  commandOf (Int64.ofInt ((g.number "code").getD 0)) (g.value? "dev-target")
    ((g.values "field").filterMap (field · |>.toOption))

def captureChanges (g : Given) : CaptureChanges where
  seconds := (g.number "duration").map fun n => UInt64.ofNat n.toNat
  interface := g.value? "interface"
  host := g.value? "camera-host"
  ports := ((g.values "filter-port").filterMap (Digits.readSigned? ·.toList)).map fun n =>
    UInt16.ofNat n.toNat
  directory := g.value? "output-dir"
  withoutSudo := g.has "no-sudo"

end Given

/-- What the levels were given of the shared switches. -/
def Globals.ofLevels (env : List (String × String)) (levels : List (String × Given)) : Globals where
  host := Program.grammar.shared? env levels "host"
  port :=
    ((Program.grammar.shared? env levels "port").bind (Digits.readSigned? ·.toList)).map fun n =>
      UInt16.ofNat n.toNat
  format := if Program.grammar.shared? env levels "format" = some "json" then .json else .text
  quiet := (Program.grammar.shared? env levels "quiet").isSome

namespace Invocation

/-- The verb that the levels below the root name. -/
def verb? : List (String × Given) → Option Verb
  | [("start-stream", g)] => some (.startStream (g.value? "dev-target") g.options)
  | [("send", g)] => some (.send g.command g.options (g.has "wait-reply"))
  | [("encode", g)] => some (.encode g.command g.options)
  | [("decode", g)] => some (.decode g.argument)
  | [("listen", g)] => some (.listen ((g.value? "bind").getD "0.0.0.0:6123") (g.has "log-file"))
  | [("capture", g)] => some (.capture g.captureChanges (!g.has "no-analyze"))
  | [("analyze", g)] => g.argument.map .analyze
  | [("config", _), ("show", _)] => some .showSettings
  | [("config", _), ("path", _)] => some .settingsPath
  | [("config", _), ("init", g)] => some (.initSettings (g.has "force"))
  | _ => none

/-- What a command line asks for, without the program's name. -/
def read (env : List (String × String)) (words : List String) : Except Stop Invocation := do
  let levels ← Program.grammar.read env words
  match verb? levels.tail with
  | some verb => .ok { globals := .ofLevels env levels, verb }
  | none => .error .usage

end Invocation

end CameraChannel.CommandLine
