import CameraChannel.Decimal.Binary64
import CameraChannel.Json.Value

/-!
JSON text. One printer serves every layout; a layout says which blanks stand around the separators.
-/
namespace CameraChannel.Json

/-- The blanks of a layout, where they hang on the depth of the items concerned: before the first
item, after a comma, after a colon, and before the closing bracket. Empty brackets hold none. -/
structure Layout where
  opening : Nat → List Char
  afterComma : Nat → List Char
  afterColon : List Char
  closing : Nat → List Char

namespace Layout

def compact : Layout where
  opening _ := []
  afterComma _ := []
  afterColon := []
  closing _ := []

/-- One space after every comma and colon. -/
def spaced : Layout where
  opening _ := []
  afterComma _ := [' ']
  afterColon := [' ']
  closing _ := []

def newLine (depth : Nat) : List Char := '\n' :: List.replicate (2 * depth) ' '

/-- A line for each item, indented by two spaces a level. -/
def pretty : Layout where
  opening := newLine
  afterComma := newLine
  afterColon := [' ']
  closing := newLine

end Layout

def escape (c : Char) : List Char :=
  if c = '\x22' then ['\\', '\x22']
  else if c = '\\' then ['\\', '\\']
  else if c = '\x08' then ['\\', 'b']
  else if c = '\x0c' then ['\\', 'f']
  else if c = '\n' then ['\\', 'n']
  else if c = '\r' then ['\\', 'r']
  else if c = '\t' then ['\\', 't']
  else if c.toNat < 0x20 then
    ['\\', 'u', '0', '0', Digits.digitChar (c.toNat / 16), Digits.digitChar (c.toNat % 16)]
  else [c]

def quote (s : String) : List Char := '\x22' :: (s.toList.flatMap escape ++ ['\x22'])

mutual

/-- The text of a value whose own depth is `depth`. -/
def render (l : Layout) (depth : Nat) : Json → List Char
  | .null => ['n', 'u', 'l', 'l']
  | .bool true => ['t', 'r', 'u', 'e']
  | .bool false => ['f', 'a', 'l', 's', 'e']
  | .integer n => Digits.signed n.val
  | .float x => Binary64.text x
  | .string s => quote s
  | .array [] => ['[', ']']
  | .array (v :: vs) =>
    '[' :: (l.opening (depth + 1) ++ render l (depth + 1) v ++ renderItems l (depth + 1) vs ++
      l.closing depth ++ [']'])
  | .object [] => ['\x7b', '\x7d']
  | .object ((name, v) :: ms) =>
    '\x7b' :: (l.opening (depth + 1) ++ quote name ++ ':' :: l.afterColon ++
      render l (depth + 1) v ++ renderMembers l (depth + 1) ms ++ l.closing depth ++ ['\x7d'])

def renderItems (l : Layout) (depth : Nat) : List Json → List Char
  | [] => []
  | v :: vs => ',' :: (l.afterComma depth ++ render l depth v ++ renderItems l depth vs)

def renderMembers (l : Layout) (depth : Nat) : List (String × Json) → List Char
  | [] => []
  | (name, v) :: ms =>
    ',' :: (l.afterComma depth ++ quote name ++ ':' :: l.afterColon ++ render l depth v ++
      renderMembers l depth ms)

end

def text (l : Layout) (v : Json) : String := String.ofList (render l 0 v)

end CameraChannel.Json
