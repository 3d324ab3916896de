import CameraChannel.Bytes

/-!
UTF-8: the bytes of a text, the text of a byte string, how far a byte string is valid, and its
repair. All three readers run one machine, a byte at a time: between characters, or inside one with
continuation bytes still owed.
-/
namespace CameraChannel.Utf8

def ofChars (cs : List Char) : Bytes := cs.flatMap String.utf8EncodeChar

@[simp] theorem ofChars_nil : ofChars [] = [] := rfl

@[simp] theorem ofChars_cons (c : Char) (cs : List Char) :
    ofChars (c :: cs) = String.utf8EncodeChar c ++ ofChars cs := rfl

@[simp] theorem ofChars_append (a b : List Char) : ofChars (a ++ b) = ofChars a ++ ofChars b := by
  simp [ofChars]

def ofString (s : String) : Bytes := ofChars s.toList

theorem length_ofString (s : String) : (ofString s).length = s.utf8ByteSize := by
  rw [← String.size_toByteArray, ← String.ofList_toList (s := s), String.toByteArray_ofList,
    List.utf8Encode, List.size_toByteArray, ofString, ofChars, String.toList_ofList]

/-- A character begun: how many bytes it is still owed, the range of the next one, and the bits
read. -/
structure Pending where
  owed : Nat
  low : Nat
  high : Nat
  bits : Nat

/-- What a byte does between characters. -/
inductive Opening where
  | char (c : Char)
  | lead (p : Pending)
  | invalid

/-- The second byte is bounded more narrowly after E0, ED, F0 and F4, which shuts out overlong
forms, surrogates and values above U+10FFFF. -/
def opening (b : UInt8) : Opening :=
  let n := b.toNat
  if n < 0x80 then .char (Char.ofNat n)
  else if n < 0xC2 then .invalid
  else if n < 0xE0 then .lead ⟨0, 0x80, 0xBF, n - 0xC0⟩
  else if n = 0xE0 then .lead ⟨1, 0xA0, 0xBF, 0⟩
  else if n = 0xED then .lead ⟨1, 0x80, 0x9F, 0xD⟩
  else if n < 0xF0 then .lead ⟨1, 0x80, 0xBF, n - 0xE0⟩
  else if n = 0xF0 then .lead ⟨2, 0x90, 0xBF, 0⟩
  else if n < 0xF4 then .lead ⟨2, 0x80, 0xBF, n - 0xF0⟩
  else if n = 0xF4 then .lead ⟨2, 0x80, 0x8F, 4⟩
  else .invalid

/-- What a byte does inside a character: it ends it, carries it on, or does not belong to it. -/
inductive Continued where
  | char (c : Char)
  | more (p : Pending)
  | broken

/-- `owed` counts the bytes owed after the next one. -/
def Pending.next (p : Pending) (b : UInt8) : Continued :=
  let n := b.toNat
  if n < p.low ∨ p.high < n then .broken
  else
    let bits := p.bits * 64 + (n - 0x80)
    match p.owed with
    | 0 => .char (Char.ofNat bits)
    | k + 1 => .more ⟨k, 0x80, 0xBF, bits⟩

def decodeFrom : Option Pending → Bytes → Option (List Char)
  | none, [] => some []
  | some _, [] => none
  | none, b :: bs =>
    match opening b with
    | .char c => (decodeFrom none bs).map (c :: ·)
    | .lead p => decodeFrom (some p) bs
    | .invalid => none
  | some p, b :: bs =>
    match p.next b with
    | .char c => (decodeFrom none bs).map (c :: ·)
    | .more q => decodeFrom (some q) bs
    | .broken => none

/-- The characters of a byte string, if it is valid as a whole. -/
def decode? (bs : Bytes) : Option (List Char) := decodeFrom none bs

def toString? (bs : Bytes) : Option String := (decode? bs).map String.ofList

/-- `good` counts the bytes of whole characters so far, `begun` those of the character begun. -/
def validFrom : Option Pending → Nat → Nat → Bytes → Nat
  | _, good, _, [] => good
  | none, good, _, b :: bs =>
    match opening b with
    | .char _ => validFrom none (good + 1) 0 bs
    | .lead p => validFrom (some p) good 1 bs
    | .invalid => good
  | some p, good, begun, b :: bs =>
    match p.next b with
    | .char _ => validFrom none (good + begun + 1) 0 bs
    | .more q => validFrom (some q) good (begun + 1) bs
    | .broken => good

/-- The length of the longest prefix that is whole, valid characters. -/
def validLength (bs : Bytes) : Nat := validFrom none 0 0 bs

/-- One replacement character stands for each maximal part that begins a character and is not
one. -/
def replacement : Char := '\uFFFD'

def repairFrom : Option Pending → Bytes → List Char
  | none, [] => []
  | some _, [] => [replacement]
  | none, b :: bs =>
    match opening b with
    | .char c => c :: repairFrom none bs
    | .lead p => repairFrom (some p) bs
    | .invalid => replacement :: repairFrom none bs
  | some p, b :: bs =>
    match p.next b with
    | .char c => c :: repairFrom none bs
    | .more q => repairFrom (some q) bs
    | .broken =>
      match opening b with
      | .char c => replacement :: c :: repairFrom none bs
      | .lead q => replacement :: repairFrom (some q) bs
      | .invalid => replacement :: replacement :: repairFrom none bs

/-- The text of a byte string with every invalid part replaced. -/
def repair (bs : Bytes) : String := String.ofList (repairFrom none bs)

end CameraChannel.Utf8
