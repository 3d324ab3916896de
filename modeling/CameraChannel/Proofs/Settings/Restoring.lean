import CameraChannel.Proofs.Files.Walking
import CameraChannel.Proofs.Json.Records
import CameraChannel.Proofs.Text.Utf8
import CameraChannel.Settings.Home

/-!
Settings read back from a file. Main statement: what was saved is read again, and from any of its
members in any order the same settings are read but for the missing ones, which have their defaults.
-/
namespace CameraChannel

open Json.Record (Fits Part names)
open Utf8 (ofChars)

variable {l : Json.Layout} {d : Nat}

namespace CaptureSettings

/-- The members in the order in which they are written. -/
def members (c : CaptureSettings) : List (String × Json) := [
  ("interface", .string c.interface),
  ("camera_host", .string c.cameraHost),
  ("ports", .array (c.ports.map .ofUInt16)),
  ("duration_secs", .ofUInt64 c.seconds),
  ("output_dir", .string c.directory),
  ("use_sudo", .bool c.useSudo)]

/-- The given settings, and the defaults of the others. -/
def only (given : List String) (c : CaptureSettings) : CaptureSettings :=
  let initial : CaptureSettings := {}
  { interface := if "interface" ∈ given then c.interface else initial.interface
    cameraHost := if "camera_host" ∈ given then c.cameraHost else initial.cameraHost
    ports := if "ports" ∈ given then c.ports else initial.ports
    seconds := if "duration_secs" ∈ given then c.seconds else initial.seconds
    directory := if "output_dir" ∈ given then c.directory else initial.directory
    useSudo := if "use_sudo" ∈ given then c.useSudo else initial.useSudo }

theorem only_nil (c : CaptureSettings) : c.only [] = {} := by simp [only]

theorem only_congr (c : CaptureSettings) {given given' : List String}
    (h : ∀ n, n ∈ given ↔ n ∈ given') : c.only given = c.only given' := by
  simp only [only, h]

theorem only_all (c : CaptureSettings) : c.only (names c.members) = c := by
  simp [only, members, Json.Record.names_cons]

/-- Every member is taken in by its field. -/
theorem fits (hl : l.Blanks) (c : CaptureSettings) :
    ∀ m ∈ c.members, Fits l d slots (fun given => c.only given) m := by
  have hnames : (slots.map (·.name)).Nodup := by decide
  have ports_taken : ∀ p ∈ c.ports, Json.Scan.Takes l (d + 1) Json.Typed.uint16 .ofUInt16 p :=
    fun p _ rest hs => Json.Typed.uint16_taken Json.blank_nil p hs
  have hports : ∀ p ∈ c.ports, Json.Integral (.ofUInt16 p) := fun _ _ => .integer _
  intro m hm
  simp only [members, List.mem_cons, List.not_mem_nil, or_false] at hm
  obtain rfl | rfl | rfl | rfl | rfl | rfl := hm
  · exact .of_value hnames 0 (fun c v => { c with interface := v }) rfl
      (fun rest _ => Json.Typed.string_taken hl.afterColon _ _ rest)
      fun met => by simp [only]
  · exact .of_value hnames 1 (fun c v => { c with cameraHost := v }) rfl
      (fun rest _ => Json.Typed.string_taken hl.afterColon _ _ rest)
      fun met => by simp [only]
  · exact .of_value hnames 2 (fun c v => { c with ports := v }) rfl
      (fun rest _ => Json.Typed.array_taken hl hports ports_taken hl.afterColon rest)
      fun met => by simp [only]
  · exact .of_value hnames 3 (fun c v => { c with seconds := v }) rfl
      (fun rest hs => Json.Typed.uint64_taken hl.afterColon _ hs)
      fun met => by simp [only]
  · exact .of_value hnames 4 (fun c v => { c with directory := v }) rfl
      (fun rest _ => Json.Typed.string_taken hl.afterColon _ _ rest)
      fun met => by simp [only]
  · exact .of_value hnames 5 (fun c v => { c with useSudo := v }) rfl
      (fun rest _ => Json.Typed.bool_taken hl.afterColon _ rest)
      fun met => by simp [only]

/-- Capture settings are read from any of their members, in any order. -/
theorem read_part (hl : l.Blanks) (c : CaptureSettings) {ms : List (String × Json)}
    (h : Part ms c.members) {cs : List Char} (hcs : Json.Blank cs) (rest : Bytes) :
    read (ofChars cs ++ (ofChars (Json.render l d (.object ms)) ++ rest)) =
      .ok (c.only (names ms), rest) := by
  have hdistinct : (names c.members).Nodup := by
    change (["interface", "camera_host", "ports", "duration_secs", "output_dir", "use_sudo"]).Nodup
    decide
  have hr := Json.Record.read_taken (d := d) expected hl (h.nodup hdistinct)
    (fun m hm => c.fits hl m (h.subset m hm)) hcs rest
  rw [c.only_nil, c.only_congr fun n => List.mem_reverse] at hr
  exact hr

end CaptureSettings

namespace Settings

/-- The members in the order in which they are written, with these of the capture. -/
def members (s : Settings) (capture : List (String × Json)) : List (String × Json) := [
  ("server_host", .string s.host),
  ("server_port", .ofUInt16 s.port),
  ("dev_target", .string s.device),
  ("connect_timeout_ms", .ofUInt64 s.connectTimeout),
  ("write_timeout_ms", .ofUInt64 s.writeTimeout),
  ("read_timeout_ms", .ofUInt64 s.readTimeout),
  ("keepalive", .bool s.keepalive),
  ("capture", .object capture)]

/-- The given settings, and the defaults of the others; likewise those of the capture. -/
def only (given capture : List String) (s : Settings) : Settings :=
  let initial : Settings := {}
  { host := if "server_host" ∈ given then s.host else initial.host
    port := if "server_port" ∈ given then s.port else initial.port
    device := if "dev_target" ∈ given then s.device else initial.device
    connectTimeout :=
      if "connect_timeout_ms" ∈ given then s.connectTimeout else initial.connectTimeout
    writeTimeout := if "write_timeout_ms" ∈ given then s.writeTimeout else initial.writeTimeout
    readTimeout := if "read_timeout_ms" ∈ given then s.readTimeout else initial.readTimeout
    keepalive := if "keepalive" ∈ given then s.keepalive else initial.keepalive
    capture := if "capture" ∈ given then s.capture.only capture else initial.capture }

variable {capture : List (String × Json)}

theorem only_nil (s : Settings) (capture : List String) : s.only [] capture = {} := by simp [only]

theorem only_congr (s : Settings) (capture : List String) {given given' : List String}
    (h : ∀ n, n ∈ given ↔ n ∈ given') : s.only given capture = s.only given' capture := by
  simp only [only, h]

theorem only_all (s : Settings) :
    s.only (names (s.members s.capture.members)) (names s.capture.members) = s := by
  have hc := s.capture.only_all
  simp [only, members, Json.Record.names_cons, hc]

theorem fits (hl : l.Blanks) (s : Settings) (h : Part capture s.capture.members) :
    ∀ m ∈ s.members capture, Fits l d slots (fun given => s.only given (names capture)) m := by
  have hnames : (slots.map (·.name)).Nodup := by decide
  intro m hm
  simp only [members, List.mem_cons, List.not_mem_nil, or_false] at hm
  obtain rfl | rfl | rfl | rfl | rfl | rfl | rfl | rfl := hm
  · exact .of_value hnames 0 (fun s v => { s with host := v }) rfl
      (fun rest _ => Json.Typed.string_taken hl.afterColon _ _ rest) fun met => by simp [only]
  · exact .of_value hnames 1 (fun s v => { s with port := v }) rfl
      (fun rest hs => Json.Typed.uint16_taken hl.afterColon _ hs) fun met => by simp [only]
  · exact .of_value hnames 2 (fun s v => { s with device := v }) rfl
      (fun rest _ => Json.Typed.string_taken hl.afterColon _ _ rest) fun met => by simp [only]
  · exact .of_value hnames 3 (fun s v => { s with connectTimeout := v }) rfl
      (fun rest hs => Json.Typed.uint64_taken hl.afterColon _ hs) fun met => by simp [only]
  · exact .of_value hnames 4 (fun s v => { s with writeTimeout := v }) rfl
      (fun rest hs => Json.Typed.uint64_taken hl.afterColon _ hs) fun met => by simp [only]
  · exact .of_value hnames 5 (fun s v => { s with readTimeout := v }) rfl
      (fun rest hs => Json.Typed.uint64_taken hl.afterColon _ hs) fun met => by simp [only]
  · exact .of_value hnames 6 (fun s v => { s with keepalive := v }) rfl
      (fun rest _ => Json.Typed.bool_taken hl.afterColon _ rest) fun met => by simp [only]
  · exact .of_value hnames 7 (fun s v => { s with capture := v }) rfl
      (fun rest _ => CaptureSettings.read_part hl s.capture h hl.afterColon rest)
      fun met => by simp [only]

/-- Settings are read from any of their members, in any order. -/
theorem parse_part (hl : l.Blanks) (s : Settings) (hc : Part capture s.capture.members)
    {ms : List (String × Json)} (h : Part ms (s.members capture)) :
    parse (Utf8.ofString ((Json.object ms).text l)) = .ok (s.only (names ms) (names capture)) := by
  have hdistinct : (names (s.members capture)).Nodup := by
    change (["server_host", "server_port", "dev_target", "connect_timeout_ms", "write_timeout_ms",
      "read_timeout_ms", "keepalive", "capture"]).Nodup
    decide
  have hr := Json.Record.read_taken (d := 0) expected hl (h.nodup hdistinct)
    (fun m hm => s.fits hl hc m (h.subset m hm)) Json.blank_nil []
  rw [s.only_nil, s.only_congr _ fun n => List.mem_reverse, Utf8.ofChars_nil, List.nil_append,
    List.append_nil] at hr
  have hread : read (Utf8.ofString ((Json.object ms).text l)) =
      .ok (s.only (names ms) (names capture), []) := by
    rw [Json.text, Utf8.ofString, String.toList_ofList]
    exact hr
  rw [parse, Json.Scan.whole, hread]
  rfl

theorem loadFrom_part {fs : Files} {path : String} (hl : l.Blanks) (s : Settings)
    (hc : Part capture s.capture.members) {ms : List (String × Json)}
    (h : Part ms (s.members capture))
    (hfile : fs.read path = .ok (Utf8.ofString ((Json.object ms).text l))) :
    loadFrom fs path = .ok (s.only (names ms) (names capture)) := by
  have htext : (Utf8.decode? (Utf8.ofString ((Json.object ms).text l))).isNone = false := by
    rw [Utf8.ofString, Utf8.decode?_ofChars]
    rfl
  rw [loadFrom, hfile]
  simp only [htext, Bool.false_eq_true, if_false, s.parse_part hl hc h]
  rfl

/-- Saving writes all members. -/
theorem saveTo_eq (s : Settings) (fs : Files) (path : String) :
    s.saveTo fs path = (fs.write path
      (Utf8.ofString ((Json.object (s.members s.capture.members)).text .pretty))).mapError .os :=
  rfl

theorem loadFrom_write {s : Settings} {fs fs' : Files} {path : String}
    (h : fs.write path (Utf8.ofString ((Json.object (s.members s.capture.members)).text .pretty)) =
      .ok fs') : loadFrom fs' path = .ok s := by
  rw [s.loadFrom_part Json.Layout.pretty_blanks (.refl _) (.refl _) (Files.read_write h), only_all]

/-- Settings are saved by writing all their members, and fail to be only where that fails. What was
saved is read again; from any of its members, in any order, what they do not give has its
default. -/
theorem restored (s : Settings) :
    let saved := Utf8.ofString ((Json.object (s.members s.capture.members)).text .pretty)
    (∀ (fs : Files) (path : String), s.saveTo fs path = (fs.write path saved).mapError .os) ∧
    (∀ (fs fs' : Files) (path : String), fs.write path saved = .ok fs' →
      s.saveTo fs path = .ok fs' ∧ fs'.read path = .ok saved ∧ loadFrom fs' path = .ok s) ∧
    (∀ (fs fs' : Files) (path : String), s.saveTo fs path = .ok fs' → loadFrom fs' path = .ok s) ∧
    ∀ (capture ms : List (String × Json)) (l : Json.Layout) (fs : Files) (path : String),
      Part capture s.capture.members → Part ms (s.members capture) → l.Blanks →
      fs.read path = .ok (Utf8.ofString ((Json.object ms).text l)) →
      loadFrom fs path = .ok (s.only (names ms) (names capture)) := by
  intro saved
  refine ⟨s.saveTo_eq, fun fs fs' path h => ⟨?_, Files.read_write h, loadFrom_write h⟩,
    fun fs fs' path h => ?_, fun capture ms l fs path hc h hl => s.loadFrom_part hl hc h⟩
  · rw [saveTo_eq, h]
    rfl
  · rw [saveTo_eq] at h
    cases hw : fs.write path saved with
    | error e =>
      rw [hw] at h
      cases h
    | ok written =>
      rw [hw] at h
      cases h
      exact loadFrom_write hw

/-- Settings for a journey, with a quoted name and an empty list of ports. -/
def travelling : Settings where
  host := "the \"relay\""
  port := 65535
  readTimeout := 0
  capture := { ports := [], directory := "/mnt/ü" }

def emptyHome : Files := { nodes := [(["home"], .directory)] }

theorem write_emptyHome (contents : Bytes) : emptyHome.write "/home/camera.json" contents =
    .ok (emptyHome.put ["home", "camera.json"] (.file contents)) := by
  have hnames : Path.names "/home/camera.json" = ["home", "camera.json"] := by decide +kernel
  have hwalk : emptyHome.walk (emptyHome.start "/home/camera.json")
      (Path.names "/home/camera.json") = .ok ["home", "camera.json"] := by
    have hstart : emptyHome.start "/home/camera.json" = [] := by decide +kernel
    have home : Files.IsEntry "home" := ⟨by decide, by decide, by decide⟩
    have file : Files.IsEntry "camera.json" := ⟨by decide, by decide, by decide⟩
    rw [hnames, hstart, Files.walk_entry rfl home, Files.walk_entry rfl file]
    rfl
  exact Files.write_of_walk (by decide +kernel) (by decide +kernel) hwalk (by decide +kernel)

theorem restored_travelling :
    (∃ fs, travelling.saveTo emptyHome "/home/camera.json" = .ok fs ∧
      loadFrom fs "/home/camera.json" = .ok travelling) ∧
    ∃ fs : Files, fs.read "/home/camera.json" = .ok (Utf8.ofString ((Json.object [
      ("capture", .object [("output_dir", .string "/mnt/ü")]),
      ("server_port", .ofUInt16 65535)]).text .compact)) ∧
      loadFrom fs "/home/camera.json" =
        .ok { port := 65535, capture := { directory := "/mnt/ü" } } := by
  obtain ⟨-, hsaved, -, hpart⟩ := restored travelling
  obtain ⟨hsave, -, hload⟩ := hsaved emptyHome _ "/home/camera.json" (write_emptyHome _)
  have hread := Files.read_write (write_emptyHome (Utf8.ofString ((Json.object [
    ("capture", .object [("output_dir", .string "/mnt/ü")]),
    ("server_port", .ofUInt16 65535)]).text .compact)))
  have hcapture : Part [("output_dir", .string "/mnt/ü")] travelling.capture.members := by
    refine ⟨_, ?_, .refl _⟩
    exact .cons _ (.cons _ (.cons _ (.cons _ (.cons_cons _ (List.nil_sublist _)))))
  have hms : Part [("capture", .object [("output_dir", .string "/mnt/ü")]),
      ("server_port", .ofUInt16 65535)]
      (travelling.members [("output_dir", .string "/mnt/ü")]) := by
    refine ⟨_, ?_, .swap _ _ []⟩
    refine .cons _ (.cons_cons _ ?_)
    exact .cons _ (.cons _ (.cons _ (.cons _ (.cons _ (.cons_cons _ (List.nil_sublist _))))))
  refine ⟨⟨_, hsave, hload⟩, _, hread, ?_⟩
  rw [hpart _ _ _ _ _ hcapture hms Json.Layout.compact_blanks hread]
  exact congrArg Except.ok (by decide)

end Settings

end CameraChannel
