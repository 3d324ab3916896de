import CameraChannel.Text.Blank
import CameraChannel.Text.Quoted
import CameraChannel.Text.Utf8

/-!
Byte strings as pairs of hex digits. Reading a typed text first drops blanks, then one `0x`.
-/
namespace CameraChannel.Hex

inductive Error where
  | oddLength
  | badDigit (byte : UInt8) (position : Nat)
  deriving DecidableEq, Repr

/-- A byte that is no digit is named by the character with its number. -/
def Error.message : Error → String
  | .oddLength => "Odd number of digits"
  | .badDigit b i =>
    "Invalid character " ++ Quoted.char (Char.ofNat b.toNat) ++ " at position " ++ Digits.text i

def encode (bs : Bytes) : List Char :=
  bs.flatMap fun b => [Digits.digitChar (b.toNat / 16), Digits.digitChar (b.toNat % 16)]

def text (bs : Bytes) : String := String.ofList (encode bs)

/-- The value of a digit of either case. -/
def digit? (b : UInt8) : Option Nat :=
  let n := b.toNat
  if 48 ≤ n ∧ n ≤ 57 then some (n - 48)
  else if 97 ≤ n ∧ n ≤ 102 then some (n - 87)
  else if 65 ≤ n ∧ n ≤ 70 then some (n - 55)
  else none

/-- Reads digit pairs, the first at the given position. -/
def decodeAt (position : Nat) : Bytes → Except Error Bytes
  | [] => .ok []
  | [_] => .error .oddLength
  | a :: b :: rest =>
    match digit? a, digit? b with
    | none, _ => .error (.badDigit a position)
    | _, none => .error (.badDigit b (position + 1))
    | some x, some y => (decodeAt (position + 2) rest).map (UInt8.ofNat (16 * x + y) :: ·)

/-- An odd length is reported before any bad digit. -/
def decode (digits : Bytes) : Except Error Bytes :=
  if digits.length % 2 = 1 then .error .oddLength else decodeAt 0 digits

def withoutMark : List Char → List Char
  | '0' :: 'x' :: cs => cs
  | '0' :: 'X' :: cs => cs
  | cs => cs

def read (s : String) : Except Error Bytes :=
  decode (Utf8.ofChars (withoutMark (Blank.remove s.toList)))

end CameraChannel.Hex
