import CameraChannel.Capture.Request
import CameraChannel.Json.Printer
import CameraChannel.Stream.Client

/-!
Settings with their defaults, what follows from them for clients and captures, and their JSON form.
-/
namespace CameraChannel

structure CaptureSettings where
  interface : String := "any"
  cameraHost : String := "192.168.1.104"
  ports : List UInt16 := [6123, 80]
  seconds : UInt64 := 30
  directory : String := "."
  useSudo : Bool := true
  deriving DecidableEq, Repr

structure Settings where
  host : String := "192.168.1.200"
  port : UInt16 := 6123
  device : String := "deadbeef"
  connectTimeout : UInt64 := 5000
  writeTimeout : UInt64 := 5000
  readTimeout : UInt64 := 30000
  keepalive : Bool := true
  capture : CaptureSettings := {}
  deriving DecidableEq, Repr

namespace CaptureSettings

def request (c : CaptureSettings) : Capture.Request where
  interface := c.interface
  duration := 1000 * c.seconds.toNat
  filter := ⟨c.cameraHost, c.ports⟩
  directory := c.directory
  useSudo := c.useSudo

def toJson (c : CaptureSettings) : Json := .object [
  ("interface", .string c.interface),
  ("camera_host", .string c.cameraHost),
  ("ports", .array (c.ports.map .ofUInt16)),
  ("duration_secs", .ofUInt64 c.seconds),
  ("output_dir", .string c.directory),
  ("use_sudo", .bool c.useSudo)]

end CaptureSettings

namespace Settings

def timeouts (s : Settings) : Timeouts where
  connect := s.connectTimeout.toNat
  write := s.writeTimeout.toNat
  read := s.readTimeout.toNat
  keepalive := s.keepalive

/-- The members in the order in which they are written. -/
def toJson (s : Settings) : Json := .object [
  ("server_host", .string s.host),
  ("server_port", .ofUInt16 s.port),
  ("dev_target", .string s.device),
  ("connect_timeout_ms", .ofUInt64 s.connectTimeout),
  ("write_timeout_ms", .ofUInt64 s.writeTimeout),
  ("read_timeout_ms", .ofUInt64 s.readTimeout),
  ("keepalive", .bool s.keepalive),
  ("capture", s.capture.toJson)]

end Settings

end CameraChannel
