import CameraChannel.Frame.Text

/-!
Values given on the command line: forwarding tokens, fields of a command, and numbers in a range.
-/
namespace CameraChannel.CommandLine

inductive ForwardIdError where
  | hex (e : Hex.Error)
  | wrongLength (n : Nat)

def ForwardIdError.message : ForwardIdError → String
  | .hex e => e.message
  | .wrongLength n => "expected 8 bytes (16 hex digits), got " ++ Digits.text n

def forwardId (s : String) : Except ForwardIdError ForwardId :=
  match Hex.read s with
  | .error e => .error (.hex e)
  | .ok bs => if h : bs.length = 8 then .ok ⟨bs.toArray, h⟩ else .error (.wrongLength bs.length)

inductive FieldError where
  | noEquals (input : String)
  | emptyName
  deriving DecidableEq, Repr

def FieldError.message : FieldError → String
  | .noEquals input => "expected KEY=VALUE, got `" ++ input ++ "`"
  | .emptyName => "field name must not be empty"

/-- The value that a text spells in JSON, or else the text itself. -/
def fieldValue (raw : String) : Json :=
  match Json.read (Utf8.ofString raw) with
  | .ok v => v.canonical
  | .error _ => .string raw

/-- A name and a value, parted by the first equals sign. -/
def field (s : String) : Except FieldError (String × Json) :=
  let name := s.toList.takeWhile (· != '=')
  match s.toList.dropWhile (· != '=') with
  | [] => .error (.noEquals s)
  | _ :: raw =>
    if name.isEmpty then .error .emptyName
    else .ok (String.ofList name, fieldValue (String.ofList raw))

/-- A number from `low` to `high`. -/
def number? (low high : Int) (s : String) : Option Int := do
  let n ← Digits.readSigned? s.toList
  if low ≤ n ∧ n ≤ high then some n else none

end CameraChannel.CommandLine
