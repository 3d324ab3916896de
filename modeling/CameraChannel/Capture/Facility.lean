import CameraChannel.Capture.Artifact
import CameraChannel.Capture.Request

/-!
Capturing and then summing up. A facility can record traffic and describe a recording; `σ` is the
world it works in.
-/
namespace CameraChannel.Capture

/-- When a capture is called off: not at all, before it starts, or some milliseconds later. -/
inductive Cancellation where
  | never
  | before
  | after (time : Nat)
  deriving DecidableEq, Repr

structure Facility (σ : Type) where
  files : σ → Files
  /-- Records until the request's time is over or the capture is called off. -/
  capture : Request → Cancellation → σ → Except Error Outcome × σ
  analyze : String → σ → Except Error String × σ

structure Report where
  outcome : Outcome
  summary : Option String
  deriving DecidableEq, Repr

/-- Captures, and sums up the newest capture in the request's directory if asked to. An interrupted
capture is never summed up. -/
def captureThenAnalyze {σ : Type} (f : Facility σ) (r : Request) (cancelled : Cancellation)
    (analyze : Bool) (s : σ) : Except Error Report × σ :=
  match f.capture r cancelled s with
  | (.error e, s) => (.error e, s)
  | (.ok .interrupted, s) => (.ok ⟨.interrupted, none⟩, s)
  | (.ok (.completed path), s) =>
    if analyze then
      let target := (Artifact.latest (f.files s) r.directory).getD path
      match f.analyze target s with
      | (.error e, s) => (.error e, s)
      | (.ok summary, s) => (.ok ⟨.completed path, some summary⟩, s)
    else (.ok ⟨.completed path, none⟩, s)

end CameraChannel.Capture
