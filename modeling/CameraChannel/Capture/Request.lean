import CameraChannel.Files
import CameraChannel.Text.Blank
import CameraChannel.Decimal.Digits

/-!
What to capture: a filter for the camera's host and ports, and where, how long and as whom to run.
-/
namespace CameraChannel.Capture

structure Filter where
  host : String
  ports : List UInt16
  deriving DecidableEq, Repr

namespace Filter

def portTerm (p : UInt16) : String := "port " ++ Digits.text p.toNat

/-- The filter as an expression for the capture tool. -/
def expression (f : Filter) : String :=
  if f.ports.isEmpty then "host " ++ f.host
  else "host " ++ f.host ++ " and (" ++ " or ".intercalate (f.ports.map portTerm) ++ ")"

/-- The words of the expression. -/
def arguments (f : Filter) : List String := Blank.words f.expression

end Filter

/-- The duration is in milliseconds. The directory's path is a text; one that is none would be
written to as it is, but searched under the nearest text. -/
structure Request where
  interface : String
  duration : Nat
  filter : Filter
  directory : String
  useSudo : Bool
  deriving DecidableEq, Repr

inductive Error where
  | os (e : OsError)
  | toolFailed (reason : String)
  | artifactMissing (path : String)
  | filterMismatch (expected actual : Filter)
  deriving DecidableEq, Repr

def Error.message : Error → String
  | .os e => "IO error: " ++ e.message
  | .toolFailed reason => "capture tool failed: " ++ reason
  | .artifactMissing path => "capture artifact not found: " ++ path
  | .filterMismatch expected actual =>
    "no capture recorded for filter `" ++ actual.expression ++ "` (expected `" ++
      expected.expression ++ "`)"

/-- How a capture ends. -/
inductive Outcome where
  | completed (path : String)
  | interrupted
  deriving DecidableEq, Repr

end CameraChannel.Capture
