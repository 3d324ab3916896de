import CameraChannel.Json.Record
import CameraChannel.Settings.Basic

/-!
Reading settings from JSON. What a text does not give has its default.
-/
namespace CameraChannel

open Json (Read)

namespace CaptureSettings

def expected : String := "struct CaptureSettings"

def slots : List (Json.Record.Slot CaptureSettings) := [
  ⟨"interface", fun c bs =>
    (Json.Typed.string "a string" bs).map fun (v, rest) => ({ c with interface := v }, rest)⟩,
  ⟨"camera_host", fun c bs =>
    (Json.Typed.string "a string" bs).map fun (v, rest) => ({ c with cameraHost := v }, rest)⟩,
  ⟨"ports", fun c bs =>
    (Json.Typed.array Json.Typed.uint16 bs).map fun (v, rest) => ({ c with ports := v }, rest)⟩,
  ⟨"duration_secs", fun c bs =>
    (Json.Typed.uint64 bs).map fun (v, rest) => ({ c with seconds := v }, rest)⟩,
  ⟨"output_dir", fun c bs =>
    (Json.Typed.string "path string" bs).map fun (v, rest) => ({ c with directory := v }, rest)⟩,
  ⟨"use_sudo", fun c bs =>
    (Json.Typed.bool bs).map fun (v, rest) => ({ c with useSudo := v }, rest)⟩]

def read (bs : Bytes) : Read CaptureSettings := Json.Record.read expected slots {} bs

end CaptureSettings

namespace Settings

def expected : String := "struct CamwireConfig"

def slots : List (Json.Record.Slot Settings) := [
  ⟨"server_host", fun s bs =>
    (Json.Typed.string "a string" bs).map fun (v, rest) => ({ s with host := v }, rest)⟩,
  ⟨"server_port", fun s bs =>
    (Json.Typed.uint16 bs).map fun (v, rest) => ({ s with port := v }, rest)⟩,
  ⟨"dev_target", fun s bs =>
    (Json.Typed.string "a string" bs).map fun (v, rest) => ({ s with device := v }, rest)⟩,
  ⟨"connect_timeout_ms", fun s bs =>
    (Json.Typed.uint64 bs).map fun (v, rest) => ({ s with connectTimeout := v }, rest)⟩,
  ⟨"write_timeout_ms", fun s bs =>
    (Json.Typed.uint64 bs).map fun (v, rest) => ({ s with writeTimeout := v }, rest)⟩,
  ⟨"read_timeout_ms", fun s bs =>
    (Json.Typed.uint64 bs).map fun (v, rest) => ({ s with readTimeout := v }, rest)⟩,
  ⟨"keepalive", fun s bs =>
    (Json.Typed.bool bs).map fun (v, rest) => ({ s with keepalive := v }, rest)⟩,
  ⟨"capture", fun s bs =>
    (CaptureSettings.read bs).map fun (v, rest) => ({ s with capture := v }, rest)⟩]

def read (bs : Bytes) : Read Settings := Json.Record.read expected slots {} bs

/-- The settings of a whole text. -/
def parse (text : Bytes) : Except Json.ReadError Settings := Json.Scan.whole read text

/-- The text that is saved. -/
def render (s : Settings) : String := s.toJson.text .pretty

end Settings

end CameraChannel
