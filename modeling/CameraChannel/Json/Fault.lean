import CameraChannel.Bytes
import CameraChannel.Json.Value
import CameraChannel.Text.Quoted
import CameraChannel.Decimal.Binary64

/-!
Why a text is not read, and where. Readers report a `Fault`: a cause and how many bytes were still
unread; with the whole text at hand this becomes a `ReadError` with line and column.
-/
namespace CameraChannel.Json

/-- What was met where a value of another type was expected. -/
inductive Found where
  | null
  | bool (b : Bool)
  | integer (n : Int)
  | float (x : Float)
  | string (s : String)
  | array
  | object

def Found.text : Found → String
  | .null => "null"
  | .bool b => "boolean `" ++ (if b then "true" else "false") ++ "`"
  | .integer n => "integer `" ++ String.ofList (Digits.signed n) ++ "`"
  | .float x => "floating point `" ++ String.ofList (Binary64.text x) ++ "`"
  | .string s => "string " ++ Quoted.string s
  | .array => "sequence"
  | .object => "map"

def Found.ofJson : Json → Found
  | .null => .null
  | .bool b => .bool b
  | .integer n => .integer n.val
  | .float x => .float x
  | .string s => .string s
  | .array _ => .array
  | .object _ => .object

inductive Cause where
  | endInValue
  | endInString
  | endInArray
  | endInObject
  | expectedValue
  | expectedIdent
  | invalidNumber
  | outOfRange
  | invalidEscape
  | controlCharacter
  | loneSurrogate
  | unpairedSurrogate
  | invalidUnicode
  | expectedColon
  | expectedArrayEnd
  | expectedObjectEnd
  | nameNotString
  | trailingComma
  | trailingCharacters
  | tooDeep
  | wrongType (found : Found) (expected : String)
  | wrongValue (n : Int) (expected : String)
  | missingField (name : String)
  | repeatedField (name : String)

def Cause.message : Cause → String
  | .endInValue => "EOF while parsing a value"
  | .endInString => "EOF while parsing a string"
  | .endInArray => "EOF while parsing a list"
  | .endInObject => "EOF while parsing an object"
  | .expectedValue => "expected value"
  | .expectedIdent => "expected ident"
  | .invalidNumber => "invalid number"
  | .outOfRange => "number out of range"
  | .invalidEscape => "invalid escape"
  | .controlCharacter => "control character (\\u0000-\\u001F) found while parsing a string"
  | .loneSurrogate => "lone leading surrogate in hex escape"
  | .unpairedSurrogate => "unexpected end of hex escape"
  | .invalidUnicode => "invalid unicode code point"
  | .expectedColon => "expected `:`"
  | .expectedArrayEnd => "expected `,` or `]`"
  | .expectedObjectEnd => "expected `,` or `\x7d`"
  | .nameNotString => "key must be a string"
  | .trailingComma => "trailing comma"
  | .trailingCharacters => "trailing characters"
  | .tooDeep => "recursion limit exceeded"
  | .wrongType found expected => "invalid type: " ++ found.text ++ ", expected " ++ expected
  | .wrongValue n expected =>
    "invalid value: integer `" ++ String.ofList (Digits.signed n) ++ "`, expected " ++ expected
  | .missingField name => "missing field `" ++ name ++ "`"
  | .repeatedField name => "duplicate field `" ++ name ++ "`"

/-- `setback` is how many columns before the unread bytes the fault lies. -/
structure Fault where
  cause : Cause
  unread : Nat
  setback : Nat := 0

/-- A fault found after everything before `rest` was taken. -/
def fault (cause : Cause) (rest : Bytes) : Fault := ⟨cause, rest.length, 0⟩

/-- A fault of the first byte of `rest`, which counts as taken. -/
def faultAt (cause : Cause) (rest : Bytes) : Fault := ⟨cause, rest.length - 1, 0⟩

/-- A reader gives what it read and the rest of the text. -/
abbrev Read (α : Type) := Except Fault (α × Bytes)

structure ReadError where
  cause : Cause
  line : Nat
  column : Nat

def ReadError.message (e : ReadError) : String :=
  e.cause.message ++ " at line " ++ Digits.text e.line ++ " column " ++ Digits.text e.column

/-- Lines count from one; a column is the number of bytes since the last line feed. -/
def Fault.locate (input : Bytes) (f : Fault) : ReadError where
  cause := f.cause
  line := 1 + (input.take (input.length - f.unread)).count 10
  column :=
    ((input.take (input.length - f.unread)).reverse.takeWhile (· != 10)).length - f.setback

end CameraChannel.Json
