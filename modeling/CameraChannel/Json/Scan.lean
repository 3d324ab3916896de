import CameraChannel.Json.Fault
import CameraChannel.Text.Utf8

/-!
The pieces of JSON text: blanks, fixed words, strings, and the separators of arrays and objects.
-/
namespace CameraChannel.Json.Scan

def isSpace (b : UInt8) : Bool := b == 0x20 || b == 0x0A || b == 0x09 || b == 0x0D

def skipSpace (bs : Bytes) : Bytes := bs.dropWhile isSpace

def isDigit (b : UInt8) : Bool := ascii '0' ≤ b && b ≤ ascii '9'

/-- The rest of a fixed word whose first letter was taken. -/
def word : List Char → Bytes → Except Fault Bytes
  | [], bs => .ok bs
  | _ :: _, [] => .error (fault .endInValue [])
  | c :: cs, b :: bs => if b = ascii c then word cs bs else .error (fault .expectedIdent bs)

/-- The byte that a one-letter escape stands for. -/
def shortEscape (b : UInt8) : Option UInt8 :=
  if b = ascii '\x22' then some 0x22
  else if b = ascii '\\' then some 0x5C
  else if b = ascii '/' then some 0x2F
  else if b = ascii 'b' then some 0x08
  else if b = ascii 'f' then some 0x0C
  else if b = ascii 'n' then some 0x0A
  else if b = ascii 'r' then some 0x0D
  else if b = ascii 't' then some 0x09
  else none

def hexDigit? (b : UInt8) : Option Nat :=
  let n := b.toNat
  if 48 ≤ n ∧ n ≤ 57 then some (n - 48)
  else if 97 ≤ n ∧ n ≤ 102 then some (n - 87)
  else if 65 ≤ n ∧ n ≤ 70 then some (n - 55)
  else none

/-- The code unit that four hex digits spell. -/
def unit? (a b c d : UInt8) : Option Nat := do
  let a ← hexDigit? a
  let b ← hexDigit? b
  let c ← hexDigit? c
  let d ← hexDigit? d
  return a * 4096 + b * 256 + c * 16 + d

def isHighSurrogate (u : Nat) : Bool := 0xD800 ≤ u && u ≤ 0xDBFF

def isLowSurrogate (u : Nat) : Bool := 0xDC00 ≤ u && u ≤ 0xDFFF

/-- The character of a pair of surrogates. -/
def pair (high low : Nat) : Char :=
  Char.ofNat (0x10000 + (high - 0xD800) * 1024 + (low - 0xDC00))

def before (out : Bytes) (r : Read Bytes) : Read Bytes :=
  r.map fun (bs, rest) => (out ++ bs, rest)

/-- The bytes that a string stands for, read after its opening quote. -/
def stringBytes : Bytes → Read Bytes
  | [] => .error (fault .endInString [])
  | b :: bs =>
    if b = ascii '\x22' then .ok ([], bs)
    else if b = ascii '\\' then
      match bs with
      | [] => .error (fault .endInString [])
      | e :: bs =>
        match shortEscape e with
        | some c => before [c] (stringBytes bs)
        | none =>
          if e = ascii 'u' then
            match bs with
            | h₁ :: h₂ :: h₃ :: h₄ :: bs =>
              match unit? h₁ h₂ h₃ h₄ with
              | none => .error (fault .invalidEscape bs)
              | some u =>
                if isLowSurrogate u then .error (fault .loneSurrogate bs)
                else if isHighSurrogate u then
                  match bs with
                  | [] => .error (fault .endInString [])
                  | b :: bs =>
                    if b = ascii '\\' then
                      match bs with
                      | [] => .error (fault .endInString [])
                      | e :: bs =>
                        if e = ascii 'u' then
                          match bs with
                          | l₁ :: l₂ :: l₃ :: l₄ :: bs =>
                            match unit? l₁ l₂ l₃ l₄ with
                            | none => .error (fault .invalidEscape bs)
                            | some v =>
                              if isLowSurrogate v then
                                before (String.utf8EncodeChar (pair u v)) (stringBytes bs)
                              else .error (fault .loneSurrogate bs)
                          | _ => .error (fault .endInString [])
                        else .error (fault .unpairedSurrogate bs)
                    else .error (fault .unpairedSurrogate bs)
                else before (String.utf8EncodeChar (Char.ofNat u)) (stringBytes bs)
            | _ => .error (fault .endInString [])
          else .error (fault .invalidEscape bs)
    else if b < 0x20 then .error (fault .controlCharacter bs)
    else before [b] (stringBytes bs)

/-- A string read after its opening quote. Its bytes must be UTF-8 as a whole. -/
def string (bs : Bytes) : Except Fault (String × Bytes) := do
  let (content, rest) ← stringBytes bs
  match Utf8.toString? content with
  | some s => .ok (s, rest)
  | none => .error ⟨.invalidUnicode, rest.length, content.length - Utf8.validLength content⟩

/-- What follows inside a bracket: the text from the next item, or the text after the bracket that
closes. -/
inductive Next where
  | item (bs : Bytes)
  | close (rest : Bytes)

def nextItem (first : Bool) (bs : Bytes) : Except Fault Next :=
  match skipSpace bs with
  | [] => .error (faultAt .endInArray [])
  | b :: rest =>
    if b = ascii ']' then .ok (.close rest)
    else if first then .ok (.item (b :: rest))
    else if b = ascii ',' then
      match skipSpace rest with
      | [] => .error (faultAt .endInValue [])
      | c :: rest =>
        if c = ascii ']' then .error (faultAt .trailingComma (c :: rest))
        else .ok (.item (c :: rest))
    else .error (faultAt .expectedArrayEnd (b :: rest))

/-- The text after the opening quote of a name. -/
def nameAt (b : UInt8) (rest : Bytes) : Except Fault Next :=
  if b = ascii '\x22' then .ok (.item rest) else .error (faultAt .nameNotString (b :: rest))

/-- An item of an object starts after the opening quote of its name. -/
def nextMember (first : Bool) (bs : Bytes) : Except Fault Next :=
  match skipSpace bs with
  | [] => .error (faultAt .endInObject [])
  | b :: rest =>
    if b = ascii '\x7d' then .ok (.close rest)
    else if first then nameAt b rest
    else if b = ascii ',' then
      match skipSpace rest with
      | [] => .error (faultAt .endInValue [])
      | c :: rest =>
        if c = ascii '\x7d' then .error (faultAt .trailingComma (c :: rest)) else nameAt c rest
    else .error (faultAt .expectedObjectEnd (b :: rest))

def colon (bs : Bytes) : Except Fault Bytes :=
  match skipSpace bs with
  | [] => .error (faultAt .endInObject [])
  | b :: rest =>
    if b = ascii ':' then .ok rest else .error (faultAt .expectedColon (b :: rest))

/-- The items up to the closing bracket. Every item takes a byte, so that the length of the text is
fuel enough. -/
def items {α : Type} (one : Bytes → Read α) :
    Nat → Bool → Bytes → Except Fault (List α × Bytes)
  | 0, _, bs => .error (fault .endInArray bs)
  | fuel + 1, first, bs => do
    match ← nextItem first bs with
    | .close rest => .ok ([], rest)
    | .item bs =>
      let (v, rest) ← one bs
      let (vs, rest) ← items one fuel false rest
      .ok (v :: vs, rest)

/-- The members up to the closing bracket, each taken in by `one` from its colon on. -/
def members {σ : Type} (one : String → σ → Bytes → Read σ) :
    Nat → Bool → σ → Bytes → Except Fault (σ × Bytes)
  | 0, _, _, bs => .error (fault .endInObject bs)
  | fuel + 1, first, s, bs => do
    match ← nextMember first bs with
    | .close rest => .ok (s, rest)
    | .item bs =>
      let (name, rest) ← string bs
      let (s, rest) ← one name s rest
      members one fuel false s rest

/-- Nothing but blanks may follow a text's value. -/
def finish {α : Type} (r : Read α) : Except Fault α := do
  let (v, rest) ← r
  match skipSpace rest with
  | [] => .ok v
  | b :: bs => .error (faultAt .trailingCharacters (b :: bs))

/-- Reads a whole text. -/
def whole {α : Type} (read : Bytes → Read α) (input : Bytes) : Except ReadError α :=
  (finish (read input)).mapError (Fault.locate input)

end CameraChannel.Json.Scan
