import CameraChannel.Capture.Facility

/-!
A facility without a network: it writes the same recording for one filter and remembers what it was
asked for.
-/
namespace CameraChannel.Capture

/-- The recording of no packets at all. -/
def emptyRecording : Bytes :=
  [0xd4, 0xc3, 0xb2, 0xa1, 0x02, 0x00, 0x04, 0x00, 0x00, 0x00, 0x00, 0x00,
    0x00, 0x00, 0x00, 0x00, 0xff, 0xff, 0x00, 0x00, 0x01, 0x00, 0x00, 0x00]

structure Canned where
  filter : Filter
  contents : Bytes := emptyRecording

namespace Canned

/-- The present time, the files, and the requests so far. -/
structure World where
  now : Moment
  files : Files
  requests : List Request := []

/-- Another filter is refused before a cancellation counts. Writing the recording takes no time, so
that none comes later. -/
def capture (c : Canned) (r : Request) (cancelled : Cancellation) (w : World) :
    Except Error Outcome × World :=
  let w := { w with requests := w.requests ++ [r] }
  if r.filter ≠ c.filter then (.error (.filterMismatch c.filter r.filter), w)
  else if cancelled = .before then (.ok .interrupted, w)
  else
    match w.files.makeDirectories r.directory with
    | (.error e, files) => (.error (.os e), { w with files })
    | (.ok (), files) =>
      let path := Artifact.path r.directory w.now
      match files.write path c.contents with
      | .error e => (.error (.os e), { w with files })
      | .ok files => (.ok (.completed path), { w with files })

def analyze (c : Canned) (path : String) (w : World) : Except Error String × World :=
  match w.files.read path with
  | .error e => (.error (.os e), w)
  | .ok bs =>
    (.ok (path ++ ": " ++ Digits.text bs.length ++ " bytes for `" ++ c.filter.expression ++ "`"), w)

def facility (c : Canned) : Facility World where
  files := World.files
  capture := c.capture
  analyze := c.analyze

end Canned

end CameraChannel.Capture
