import CameraChannel.Json.Number

/-!
Reading JSON values. The first argument is how many more containers may be open at once.
-/
namespace CameraChannel.Json.Reader

/-- A value, given how arrays and objects are read from their opening brackets on. -/
def node (array object : Bytes → Read Json) (bs : Bytes) : Read Json :=
  match Scan.skipSpace bs with
  | [] => .error (faultAt .endInValue [])
  | b :: rest =>
    if b = ascii 'n' then (Scan.word ['u', 'l', 'l'] rest).map (Json.null, ·)
    else if b = ascii 't' then (Scan.word ['r', 'u', 'e'] rest).map (Json.bool true, ·)
    else if b = ascii 'f' then (Scan.word ['a', 'l', 's', 'e'] rest).map (Json.bool false, ·)
    else if Number.starts b then Number.read (b :: rest)
    else if b = ascii '\x22' then (Scan.string rest).map fun (s, rest) => (Json.string s, rest)
    else if b = ascii '[' then array (b :: rest)
    else if b = ascii '\x7b' then object (b :: rest)
    else .error (faultAt .expectedValue (b :: rest))

def tooDeep (bs : Bytes) : Read Json := .error (faultAt .tooDeep bs)

/-- A member whose value is read by `one`; the members so far stand last first. -/
def member (one : Bytes → Read Json) (name : String) (sofar : List (String × Json)) (bs : Bytes) :
    Except Fault (List (String × Json) × Bytes) := do
  let bs ← Scan.colon bs
  let (v, rest) ← one bs
  .ok ((name, v) :: sofar, rest)

def arrayOf (one : Bytes → Read Json) (bs : Bytes) : Read Json :=
  (Scan.items one bs.length true bs.tail).map fun (vs, rest) => (.array vs, rest)

def objectOf (one : Bytes → Read Json) (bs : Bytes) : Read Json :=
  (Scan.members (member one) bs.length true [] bs.tail).map fun (ms, rest) =>
    (.object ms.reverse, rest)

def value : Nat → Bytes → Read Json
  | 0 => node tooDeep tooDeep
  | depth + 1 => node (arrayOf (value depth)) (objectOf (value depth))

/-- The greatest number of containers open at once. -/
def depthLimit : Nat := 127

end Reader

/-- The value of a whole text, with the members of its objects as they are written. -/
def read (input : Bytes) : Except ReadError Json :=
  Scan.whole (Reader.value Reader.depthLimit) input

end CameraChannel.Json
