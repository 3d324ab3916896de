import CameraChannel.Text.Printable
import CameraChannel.Decimal.Digits

/-!
Quoted text in messages: a string between double quotes or a character between single ones, with the
characters that would not show written as escapes.
-/
namespace CameraChannel.Quoted

/-- A character inside quotes made of `mark`; the other kind of quote stays as it is. -/
def escape (mark c : Char) : List Char :=
  if c = '\x00' then ['\\', '0']
  else if c = '\t' then ['\\', 't']
  else if c = '\n' then ['\\', 'n']
  else if c = '\r' then ['\\', 'r']
  else if c = '\\' || c = mark then ['\\', c]
  else if Printable.isHidden c then
    ['\\', 'u', '\x7b'] ++ Digits.hexadecimal c.toNat ++ ['\x7d']
  else [c]

def string (s : String) : String :=
  String.ofList ('\x22' :: s.toList.flatMap (escape '\x22') ++ ['\x22'])

def char (c : Char) : String := String.ofList ('\x27' :: escape '\x27' c ++ ['\x27'])

end CameraChannel.Quoted
