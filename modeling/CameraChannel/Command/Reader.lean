import CameraChannel.Command.Basic
import CameraChannel.Json.Typed

/-!
Reading commands, from JSON text or from a JSON value. In a text a reserved name may stand once
only; of any other name the last value counts.
-/
namespace CameraChannel.Command

open Json (Read Fault)

/-- What an object is reported to stand for. -/
def expected : String := "struct CommandMessage"

/-- The members read so far; the further ones stand last first. -/
structure Draft where
  code : Option Int64 := none
  target : Option (Option String) := none
  extra : List (String × Json) := []

/-- Containers open inside the command's own object. -/
def innerDepth : Nat := Json.Reader.depthLimit - 1

/-- Takes in a member, from its colon on. -/
def Draft.member (name : String) (d : Draft) (bs : Bytes) : Except Fault (Draft × Bytes) := do
  if name = Reserved.code.name then
    if d.code.isSome then Json.Typed.repeated name bs
    else
      let (code, rest) ← Json.Typed.int64 (← Json.Scan.colon bs)
      .ok ({ d with code := some code }, rest)
  else if name = Reserved.target.name then
    if d.target.isSome then Json.Typed.repeated name bs
    else
      let (target, rest) ←
        Json.Typed.optional (Json.Typed.string "a string") (← Json.Scan.colon bs)
      .ok ({ d with target := some target }, rest)
  else
    let (extra, rest) ← Json.Reader.member (Json.Reader.value innerDepth) name d.extra bs
    .ok ({ d with extra }, rest)

/-- A code is required, a target is not. -/
def Draft.command (d : Draft) : Except Reserved Command :=
  match d.code with
  | none => .error .code
  | some code =>
    .ok { code, target := d.target.join, extra := .ofMembers d.extra.reverse }

def read (bs : Bytes) : Except Fault (Command × Bytes) :=
  match Json.Scan.skipSpace bs with
  | [] => .error (Json.faultAt .endInValue [])
  | b :: rest =>
    if b = ascii '\x7b' then do
      let (d, rest) ← Json.Scan.members Draft.member (rest.length + 1) true {} rest
      match d.command with
      | .ok c => .ok (c, rest)
      | .error r => .error (Json.fault (.missingField r.name) rest)
    else Json.Typed.mismatch expected (b :: rest)

/-- The command that a whole text stands for. -/
def parse (text : Bytes) : Except Json.ReadError Command := Json.Scan.whole read text

/-- A code from a value. -/
def codeOf : Json → Except Json.Cause Int64
  | .integer n =>
    if n.val < 0x8000000000000000 then .ok (Int64.ofInt n.val) else .error (.wrongValue n.val "i64")
  | v => .error (.wrongType (.ofJson v) "i64")

def targetOf : Json → Except Json.Cause (Option String)
  | .null => .ok none
  | .string s => .ok (some s)
  | v => .error (.wrongType (.ofJson v) "a string")

/-- Takes in a member of a value, which has each name once. -/
def Draft.entry (d : Draft) (m : String × Json) : Except Json.Cause Draft := do
  if m.1 = Reserved.code.name then .ok { d with code := some (← codeOf m.2) }
  else if m.1 = Reserved.target.name then .ok { d with target := some (← targetOf m.2) }
  else .ok { d with extra := m :: d.extra }

/-- The command that a canonical value stands for. -/
def ofJson : Json → Except Json.Cause Command
  | .object ms => do
    match (← ms.foldlM Draft.entry {}).command with
    | .ok c => .ok c
    | .error r => .error (.missingField r.name)
  | v => .error (.wrongType (.ofJson v) expected)

end CameraChannel.Command
