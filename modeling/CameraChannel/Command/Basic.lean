import CameraChannel.Json.Canonical
import CameraChannel.Json.Printer

/-!
Commands of the control channel: a code, the device meant, and further fields.
-/
namespace CameraChannel

structure Command where
  code : Int64
  target : Option String := none
  extra : Fields := .empty

namespace Command

def startCode : Int64 := 3

/-- The names that only the code and the target may have. -/
inductive Reserved where
  | code
  | target
  deriving DecidableEq, Repr

def Reserved.name : Reserved → String
  | .code => "code"
  | .target => "devTarget"

def Reserved.message (r : Reserved) : String :=
  "extra fields must not repeat reserved key `" ++ r.name ++ "`"

/-- Asks a device to start streaming. -/
def startStreaming (target : String) : Command := { code := startCode, target := some target }

def isStartStreaming (c : Command) : Bool := c.code == startCode

def withTarget (c : Command) (target : String) : Command := { c with target := some target }

/-- Sets a further field, in place of an earlier one of the same name. -/
def withField (c : Command) (name : String) (v : Json) : Command :=
  { c with extra := c.extra.insert name v }

/-- A field by its name on the wire; the reserved names mean the code and the target only. -/
def get? (c : Command) (name : String) : Option Json :=
  if name = Reserved.code.name then some (.ofInt64 c.code)
  else if name = Reserved.target.name then c.target.map .string
  else c.extra.get? name

/-- The reserved name that the further fields repeat, the code's first. -/
def clash (c : Command) : Option Reserved :=
  if c.extra.contains Reserved.code.name then some .code
  else if c.extra.contains Reserved.target.name then some .target
  else none

/-- The members in the order they are sent: code, target if any, then the further fields. -/
def members (c : Command) : List (String × Json) :=
  (Reserved.code.name, .ofInt64 c.code) ::
    ((c.target.map fun t => (Reserved.target.name, Json.string t)).toList ++ c.extra.entries)

/-- The object that is sent. -/
def document (c : Command) : Except Reserved Json :=
  match c.clash with
  | some r => .error r
  | none => .ok (.object c.members)

/-- The compact text, or another form for a command that has none. -/
def text (c : Command) : String :=
  match c.document with
  | .ok v => v.text .compact
  | .error _ =>
    "code=" ++ String.ofList (Digits.signed c.code.toInt) ++
      (match c.target with
        | some t => " devTarget=" ++ t
        | none => "") ++
      " extra=" ++ c.extra.toJson.text .compact

/-- Equality, with the further fields compared as values. -/
def same (a b : Command) : Bool :=
  a.code == b.code && a.target == b.target && Json.same a.extra.toJson b.extra.toJson

end Command

end CameraChannel
