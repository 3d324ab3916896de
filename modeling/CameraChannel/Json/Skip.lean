import CameraChannel.Json.Scan

/-!
Passing over a value without building it. This is laxer than reading: containers may be nested to
any depth, numbers have no range, and surrogates need no partner.
-/
namespace CameraChannel.Json.Skip

/-- The text after a string's closing quote. -/
def stringEnd : Bytes → Except Fault Bytes
  | [] => .error (fault .endInString [])
  | b :: bs =>
    if b = ascii '\x22' then .ok bs
    else if b = ascii '\\' then
      match bs with
      | [] => .error (fault .endInString [])
      | e :: bs =>
        if (Scan.shortEscape e).isSome then stringEnd bs
        else if e = ascii 'u' then
          match bs with
          | h₁ :: h₂ :: h₃ :: h₄ :: bs =>
            if (Scan.unit? h₁ h₂ h₃ h₄).isSome then stringEnd bs
            else .error (fault .invalidEscape bs)
          | _ => .error (fault .endInString [])
        else .error (fault .invalidEscape bs)
    else if b < 0x20 then .error (fault .controlCharacter (b :: bs))
    else stringEnd bs

/-- Digits after an exponent's letter. -/
def exponentEnd (bs : Bytes) : Except Fault Bytes :=
  let bs :=
    match bs with
    | [] => []
    | b :: rest => if b = ascii '+' ∨ b = ascii '-' then rest else b :: rest
  match bs with
  | [] => .error (fault .invalidNumber [])
  | b :: rest =>
    if Scan.isDigit b then .ok (rest.dropWhile Scan.isDigit) else .error (fault .invalidNumber rest)

def fractionEnd (bs : Bytes) : Except Fault Bytes :=
  let rest := bs.dropWhile Scan.isDigit
  if bs.length = rest.length then .error (faultAt .invalidNumber bs)
  else
    match rest with
    | [] => .ok []
    | b :: after => if b = ascii 'e' ∨ b = ascii 'E' then exponentEnd after else .ok (b :: after)

/-- What may follow the integer part. -/
def afterWhole : Bytes → Except Fault Bytes
  | [] => .ok []
  | b :: rest =>
    if b = ascii '.' then fractionEnd rest
    else if b = ascii 'e' ∨ b = ascii 'E' then exponentEnd rest
    else .ok (b :: rest)

/-- The text after a number, from after its sign. -/
def numberEnd : Bytes → Except Fault Bytes
  | [] => .error (fault .invalidNumber [])
  | b :: bs =>
    if b = ascii '0' then
      match bs with
      | [] => .ok []
      | c :: rest =>
        if Scan.isDigit c then .error (faultAt .invalidNumber (c :: rest))
        else afterWhole (c :: rest)
    else if Scan.isDigit b then afterWhole (bs.dropWhile Scan.isDigit)
    else .error (fault .invalidNumber bs)

inductive Container where
  | array
  | object

namespace Container

def closing : Container → UInt8
  | .array => ascii ']'
  | .object => ascii '\x7d'

def unfinished : Container → Cause
  | .array => .endInArray
  | .object => .endInObject

def expectedEnd : Container → Cause
  | .array => .expectedArrayEnd
  | .object => .expectedObjectEnd

end Container

/-- Where the pass stands: before a value, before an item of the innermost container, right after
its opening bracket, or after a value. -/
inductive Place where
  | value
  | item
  | opened
  | after

/-- The text after a scalar, or the container that opens. -/
def head (bs : Bytes) : Except Fault (Option Container × Bytes) :=
  match Scan.skipSpace bs with
  | [] => .error (faultAt .endInValue [])
  | b :: rest =>
    if b = ascii 'n' then (Scan.word ['u', 'l', 'l'] rest).map (none, ·)
    else if b = ascii 't' then (Scan.word ['r', 'u', 'e'] rest).map (none, ·)
    else if b = ascii 'f' then (Scan.word ['a', 'l', 's', 'e'] rest).map (none, ·)
    else if b = ascii '-' then (numberEnd rest).map (none, ·)
    else if Scan.isDigit b then (numberEnd (b :: rest)).map (none, ·)
    else if b = ascii '\x22' then (stringEnd rest).map (none, ·)
    else if b = ascii '[' then .ok (some .array, rest)
    else if b = ascii '\x7b' then .ok (some .object, rest)
    else .error (faultAt .expectedValue (b :: rest))

/-- The text after a member's colon. -/
def memberStart (bs : Bytes) : Except Fault Bytes :=
  match Scan.skipSpace bs with
  | [] => .error (faultAt .endInObject [])
  | b :: rest =>
    if b = ascii '\x22' then do Scan.colon (← stringEnd rest)
    else .error (faultAt .nameNotString (b :: rest))

/-- Passes on with the containers open, innermost first. -/
def run : Nat → Place → List Container → Bytes → Except Fault Bytes
  | 0, _, _, bs => .error (fault .endInValue bs)
  | fuel + 1, .value, stack, bs => do
    match ← head bs with
    | (none, rest) => run fuel .after stack rest
    | (some c, rest) => run fuel .opened (c :: stack) rest
  | _ + 1, _, [], bs => .ok bs
  | fuel + 1, .item, .array :: outer, bs => run fuel .value (.array :: outer) bs
  | fuel + 1, .item, .object :: outer, bs => do
    run fuel .value (.object :: outer) (← memberStart bs)
  | fuel + 1, .opened, c :: outer, bs =>
    match Scan.skipSpace bs with
    | [] => .error (faultAt c.unfinished [])
    | b :: rest =>
      if b = c.closing then run fuel .after outer rest else run fuel .item (c :: outer) (b :: rest)
  | fuel + 1, .after, c :: outer, bs =>
    match Scan.skipSpace bs with
    | [] => .error (faultAt c.unfinished [])
    | b :: rest =>
      if b = ascii ',' then run fuel .item (c :: outer) rest
      else if b = c.closing then run fuel .after outer rest
      else .error (faultAt c.expectedEnd (b :: rest))

/-- The text after a value. A byte is passed over at least every third step. -/
def value (bs : Bytes) : Except Fault Bytes := run (4 * bs.length + 4) .value [] bs

end CameraChannel.Json.Skip
