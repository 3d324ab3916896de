import CameraChannel.Capture.Tcpdump
import CameraChannel.CommandLine.Transcript

/-!
Capturing and summing up from the command line.
-/
namespace CameraChannel.CommandLine

namespace CaptureChanges

/-- A request with the changes made. -/
def apply (c : CaptureChanges) (r : Capture.Request) : Capture.Request where
  interface := c.interface.getD r.interface
  duration :=
    match c.seconds with
    | some n => 1000 * n.toNat
    | none => r.duration
  filter := ⟨c.host.getD r.filter.host, if c.ports.isEmpty then r.filter.ports else c.ports⟩
  directory := c.directory.getD r.directory
  useSudo := r.useSudo && !c.withoutSudo

end CaptureChanges

namespace Recording

open Capture (Request Workshop Tcpdump Outcome)

def summaryPrints (g : Globals) (artifact summary : String) : List Print :=
  match g.format with
  | .json =>
    [.document (Json.canonical (.object [
      ("artifact", .string artifact), ("summary", .string summary)]))]
  | .text =>
    (if g.quiet then [] else [.errLine ("Packet summary for " ++ artifact ++ ":")]) ++
      [.out summary]

def artifactPrint (g : Globals) (artifact : String) : Print :=
  match g.format with
  | .json => .document (.object [("artifact", .string artifact)])
  | .text => .outLine artifact

/-- `user` is what tells the user's number. -/
def isRoot (user : Option String) : Bool := (user.map Blank.trim) == some "0"

def notes (g : Globals) (user : Option String) (r : Request) : List Print :=
  if g.quiet then []
  else
    (if isRoot user then []
    else [.errLine "Warning: live capture usually needs root privileges"]) ++
      [.errLine ("Capturing `" ++ r.filter.expression ++ "` on " ++ r.interface ++ " for " ++
        Digits.text (r.duration / 1000) ++ "s")]

def capture (g : Globals) (user : Option String) (r : Request) (interrupted : Capture.Cancellation)
    (analyze : Bool) (w : Workshop) : Transcript × Workshop :=
  let notes := notes g user r
  match Capture.captureThenAnalyze ({} : Tcpdump).facility r interrupted analyze w with
  | (.error e, w) => (.failing notes (.ofCapture e), w)
  | (.ok ⟨.interrupted, _⟩, w) => (.failing notes (.action "capture interrupted"), w)
  | (.ok ⟨.completed artifact, summary⟩, w) =>
    match summary with
    | some text => ({ prints := notes ++ summaryPrints g artifact text }, w)
    | none => ({ prints := notes ++ [artifactPrint g artifact] }, w)

def analyze (g : Globals) (file : String) (w : Workshop) : Transcript × Workshop :=
  if !w.files.isFile file then (.failing [] (.action ("no such capture file: " ++ file)), w)
  else
    match ({} : Tcpdump).analyze file w with
    | (.error e, w) => (.failing [] (.ofCapture e), w)
    | (.ok summary, w) => ({ prints := summaryPrints g file summary }, w)

end Recording

end CameraChannel.CommandLine
