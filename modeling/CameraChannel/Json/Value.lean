/-!
JSON values. An object is the list of its members as they stand in a text, so names may repeat and
come in any order; `Json.Canonical` marks the values whose objects have each name once, in ascending
order of the names' bytes.
-/
namespace CameraChannel

/-- The integers a JSON number can stand for: those of 64 bits, signed or unsigned. -/
structure Json.Integer where
  val : Int
  lower : -0x8000000000000000 ≤ val
  upper : val < 0x10000000000000000
  deriving DecidableEq

inductive Json where
  | null
  | bool (b : Bool)
  | integer (n : Json.Integer)
  | float (x : Float)
  | string (s : String)
  | array (items : List Json)
  | object (members : List (String × Json))

namespace Json

instance : Inhabited Json := ⟨.null⟩

def ofNat (n : Nat) (h : n < 0x10000000000000000 := by decide) : Json :=
  .integer ⟨n, by omega, by omega⟩

def ofInt64 (n : Int64) : Json :=
  .integer ⟨n.toInt, Int64.le_toInt n, Int.lt_trans (Int64.toInt_lt n) (by decide)⟩

def ofUInt64 (n : UInt64) : Json :=
  .integer ⟨n.toNat, by omega, by have := n.toNat_lt; omega⟩

def ofUInt32 (n : UInt32) : Json := ofUInt64 n.toUInt64

def ofUInt16 (n : UInt16) : Json := ofUInt64 n.toUInt64

def ofUInt8 (n : UInt8) : Json := ofUInt64 n.toUInt64

mutual

/-- Equality of values, in which the two zeros are one number and an integer is no float. -/
def same : Json → Json → Bool
  | .null, .null => true
  | .bool a, .bool b => a == b
  | .integer m, .integer n => m = n
  | .float x, .float y => x == y
  | .string s, .string t => s == t
  | .array xs, .array ys => sameItems xs ys
  | .object ms, .object ns => sameMembers ms ns
  | _, _ => false

def sameItems : List Json → List Json → Bool
  | [], [] => true
  | x :: xs, y :: ys => same x y && sameItems xs ys
  | _, _ => false

def sameMembers : List (String × Json) → List (String × Json) → Bool
  | [], [] => true
  | (k, x) :: ms, (l, y) :: ns => k == l && same x y && sameMembers ms ns
  | _, _ => false

end

end Json

end CameraChannel
