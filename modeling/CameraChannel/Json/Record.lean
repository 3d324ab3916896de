import CameraChannel.Json.Skip
import CameraChannel.Json.Typed

/-!
Records in JSON: an object whose known members are taken in by name, in any order, or an array that
lists their values. What is not given keeps the value it starts with.
-/
namespace CameraChannel.Json.Record

/-- A field, and how its value is read into a record. -/
structure Slot (σ : Type) where
  name : String
  read : σ → Bytes → Read σ

/-- The record so far and the names met. -/
structure Progress (σ : Type) where
  record : σ
  met : List String := []

/-- Takes in a member, from its colon on. Unknown ones are passed over. -/
def member {σ : Type} (slots : List (Slot σ)) (name : String) (p : Progress σ) (bs : Bytes) :
    Except Fault (Progress σ × Bytes) :=
  match slots.find? (·.name = name) with
  | none => do
    let rest ← Skip.value (← Scan.colon bs)
    .ok (p, rest)
  | some slot =>
    if p.met.contains name then Typed.repeated name bs
    else do
      let (record, rest) ← slot.read p.record (← Scan.colon bs)
      .ok (⟨record, name :: p.met⟩, rest)

/-- The closing bracket after the last field of an array. -/
def closeArray (bs : Bytes) : Except Fault Bytes :=
  match Scan.skipSpace bs with
  | [] => .error (faultAt .endInArray [])
  | b :: rest =>
    if b = ascii ']' then .ok rest
    else if b = ascii ',' then
      match Scan.skipSpace rest with
      | [] => .error (faultAt .trailingCharacters [])
      | c :: rest =>
        .error (faultAt (if c = ascii ']' then .trailingComma else .trailingCharacters) (c :: rest))
    else .error (faultAt .trailingCharacters (b :: rest))

/-- The values of an array for the fields in order. A shorter array leaves out the last ones. -/
def inOrder {σ : Type} : List (Slot σ) → Bool → σ → Bytes → Except Fault (σ × Bytes)
  | [], _, s, bs => (closeArray bs).map (s, ·)
  | slot :: slots, first, s, bs => do
    match ← Scan.nextItem first bs with
    | .close rest => .ok (s, rest)
    | .item bs =>
      let (s, rest) ← slot.read s bs
      inOrder slots false s rest

def read {σ : Type} (expected : String) (slots : List (Slot σ)) (start : σ) (bs : Bytes) :
    Except Fault (σ × Bytes) :=
  match Scan.skipSpace bs with
  | [] => .error (faultAt .endInValue [])
  | b :: rest =>
    if b = ascii '[' then inOrder slots true start rest
    else if b = ascii '\x7b' then do
      let (p, rest) ← Scan.members (member slots) (rest.length + 1) true ⟨start, []⟩ rest
      .ok (p.record, rest)
    else Typed.mismatch expected (b :: rest)

end CameraChannel.Json.Record
