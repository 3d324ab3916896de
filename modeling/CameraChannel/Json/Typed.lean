import CameraChannel.Json.Reader

/-!
Reading values of a given type. A value of another type is read to its end first, unless it is an
array or object, and is then reported with the type that was expected.
-/
namespace CameraChannel.Json.Typed

/-- A bracket is not read when it is what was met. -/
def bracket (found : Found) (expected : String) {α : Type} (bs : Bytes) : Read α :=
  .error (fault (.wrongType found expected) bs)

/-- The fault of a value that is not of the type expected. -/
def mismatch {α : Type} (expected : String) (bs : Bytes) : Except Fault (α × Bytes) := do
  let (v, rest) ← Reader.node (bracket .array expected) (bracket .object expected) bs
  .error (fault (.wrongType (.ofJson v) expected) rest)

/-- An integer between `low` and `high`. -/
def integer (low high : Int) (expected : String) (bs : Bytes) : Except Fault (Int × Bytes) := do
  match Scan.skipSpace bs with
  | [] => .error (faultAt .endInValue [])
  | b :: rest =>
    if Number.starts b then
      match ← Number.read (b :: rest) with
      | (.integer n, rest) =>
        if low ≤ n.val ∧ n.val ≤ high then .ok (n.val, rest)
        else .error (fault (.wrongValue n.val expected) rest)
      | (v, rest) => .error (fault (.wrongType (.ofJson v) expected) rest)
    else mismatch expected (b :: rest)

def int64 (bs : Bytes) : Read Int64 :=
  (integer (-0x8000000000000000) 0x7fffffffffffffff "i64" bs).map fun (n, rest) =>
    (Int64.ofInt n, rest)

def uint64 (bs : Bytes) : Read UInt64 :=
  (integer 0 0xffffffffffffffff "u64" bs).map fun (n, rest) => (UInt64.ofNat n.toNat, rest)

def uint16 (bs : Bytes) : Read UInt16 :=
  (integer 0 0xffff "u16" bs).map fun (n, rest) => (UInt16.ofNat n.toNat, rest)

def string (expected : String) (bs : Bytes) : Read String :=
  match Scan.skipSpace bs with
  | [] => .error (faultAt .endInValue [])
  | b :: rest =>
    if b = ascii '\x22' then Scan.string rest else mismatch expected (b :: rest)

def bool (bs : Bytes) : Except Fault (Bool × Bytes) :=
  match Scan.skipSpace bs with
  | [] => .error (faultAt .endInValue [])
  | b :: rest =>
    if b = ascii 't' then (Scan.word ['r', 'u', 'e'] rest).map (true, ·)
    else if b = ascii 'f' then (Scan.word ['a', 'l', 's', 'e'] rest).map (false, ·)
    else mismatch "a boolean" (b :: rest)

/-- `null` stands for no value. -/
def optional {α : Type} (one : Bytes → Read α) (bs : Bytes) : Read (Option α) :=
  match Scan.skipSpace bs with
  | [] => .error (faultAt .endInValue [])
  | b :: rest =>
    if b = ascii 'n' then (Scan.word ['u', 'l', 'l'] rest).map (none, ·)
    else (one (b :: rest)).map fun (v, rest) => (some v, rest)

def array {α : Type} (one : Bytes → Read α) (bs : Bytes) : Read (List α) :=
  match Scan.skipSpace bs with
  | [] => .error (faultAt .endInValue [])
  | b :: rest =>
    if b = ascii '[' then Scan.items one (rest.length + 1) true rest
    else mismatch "a sequence" (b :: rest)

/-- The text past blanks and a closing bracket, up to which a fault among an object's members is
reported. -/
def pastClose (bs : Bytes) : Bytes :=
  match Scan.skipSpace bs with
  | [] => []
  | b :: rest => if b = ascii '\x7d' then rest else b :: rest

/-- A name that was read a second time. -/
def repeated {α : Type} (name : String) (bs : Bytes) : Read α :=
  .error (fault (.repeatedField name) (pastClose bs))

end CameraChannel.Json.Typed
