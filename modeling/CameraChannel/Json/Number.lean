import CameraChannel.Json.Scan

/-!
Numbers of JSON text. A number without point and exponent that fits 64 bits is an integer; any other
is a float, made from as many digits as fit a significand of 64 bits. Minus zero is a float.
-/
namespace CameraChannel.Json.Number

def digit (b : UInt8) : Nat := b.toNat - 48

/-- Digits of the integer part: those that fit, and how many after them do not. -/
structure Whole where
  value : Nat
  dropped : Nat

/-- Once a digit does not fit, all later ones are dropped too. -/
def Whole.push (w : Whole) (b : UInt8) : Whole :=
  if w.dropped = 0 ∧ w.value * 10 + digit b < 0x10000000000000000 then ⟨w.value * 10 + digit b, 0⟩
  else ⟨w.value, w.dropped + 1⟩

/-- The significand after some digits behind the point, and how many of them it took in. -/
structure Fraction where
  value : Nat
  places : Nat
  full : Bool

def Fraction.push (f : Fraction) (b : UInt8) : Fraction :=
  if !f.full ∧ f.value * 10 + digit b < 0x10000000000000000 then
    ⟨f.value * 10 + digit b, f.places + 1, false⟩
  else ⟨f.value, f.places, true⟩

def floatOf (negative : Bool) (significand : Nat) (exponent : Int) (rest : Bytes) : Read Json :=
  match Binary64.ofParts negative significand exponent with
  | some x => .ok (.float x, rest)
  | none => .error (fault .outOfRange rest)

/-- The digits of an exponent, or the rest after the first digit with which it exceeds 31 bits. -/
def exponentFrom (n : Nat) : Bytes → Except Bytes (Nat × Bytes)
  | [] => .ok (n, [])
  | b :: bs =>
    if Scan.isDigit b then
      if n * 10 + digit b < 0x80000000 then exponentFrom (n * 10 + digit b) bs else .error bs
    else .ok (n, b :: bs)

/-- Whether the exponent is negative, and the text after its sign. -/
def exponentSign : Bytes → Bool × Bytes
  | [] => (false, [])
  | b :: bs =>
    if b = ascii '+' then (false, bs) else if b = ascii '-' then (true, bs) else (false, b :: bs)

/-- The exponent, read after its letter. One too long for 31 bits means zero, unless the number is
then too great. -/
def exponent (negative : Bool) (significand : Nat) (start : Int) (bs : Bytes) : Read Json :=
  let (below, bs) := exponentSign bs
  match bs with
  | [] => .error (fault .endInValue [])
  | b :: bs =>
    if Scan.isDigit b then
      match exponentFrom (digit b) bs with
      | .ok (e, rest) => floatOf negative significand (if below then start - e else start + e) rest
      | .error rest =>
        if significand ≠ 0 ∧ !below then .error (fault .outOfRange rest)
        else .ok (.float (Binary64.zero negative), rest.dropWhile Scan.isDigit)
    else .error (fault .invalidNumber bs)

/-- Whether an exponent follows. -/
def exponentMark : Bytes → Option Bytes
  | b :: bs => if b = ascii 'e' ∨ b = ascii 'E' then some bs else none
  | [] => none

/-- The digits behind the point, which stand for tenths of the significand times `10 ^ start`. -/
def fraction (negative : Bool) (significand : Nat) (start : Int) (bs : Bytes) : Read Json :=
  let rest := bs.dropWhile Scan.isDigit
  let f := (bs.takeWhile Scan.isDigit).foldl Fraction.push ⟨significand, 0, false⟩
  if bs.length = rest.length then
    if bs.isEmpty then .error (faultAt .endInValue bs) else .error (faultAt .invalidNumber bs)
  else
    match exponentMark rest with
    | some rest => exponent negative f.value (start - f.places) rest
    | none => floatOf negative f.value (start - f.places) rest

/-- A number that is only an integer part. A magnitude that no signed integer has makes a negative
number a float. -/
def integer (negative : Bool) (n : Nat) : Json :=
  if negative then
    if h : 0 < n ∧ n ≤ 0x8000000000000000 then .integer ⟨-n, by omega, by omega⟩
    else .float (-(UInt64.ofNat n).toFloat)
  else if h : n < 0x10000000000000000 then .ofNat n h
  else .float (UInt64.ofNat n).toFloat

/-- What may follow the integer part. -/
def afterWhole (negative : Bool) (w : Whole) (bs : Bytes) : Read Json :=
  match bs with
  | [] => if w.dropped = 0 then .ok (integer negative w.value, [])
    else floatOf negative w.value w.dropped []
  | b :: rest =>
    if b = ascii '.' then fraction negative w.value w.dropped rest
    else if b = ascii 'e' ∨ b = ascii 'E' then exponent negative w.value w.dropped rest
    else if w.dropped = 0 then .ok (integer negative w.value, b :: rest)
    else floatOf negative w.value w.dropped (b :: rest)

/-- The number after its sign. No digit may follow a zero in front. -/
def unsigned (negative : Bool) : Bytes → Read Json
  | [] => .error (fault .endInValue [])
  | b :: bs =>
    if b = ascii '0' then
      match bs with
      | [] => afterWhole negative ⟨0, 0⟩ []
      | c :: rest =>
        if Scan.isDigit c then .error (faultAt .invalidNumber (c :: rest))
        else afterWhole negative ⟨0, 0⟩ (c :: rest)
    else if Scan.isDigit b then
      afterWhole negative ((bs.takeWhile Scan.isDigit).foldl Whole.push ⟨digit b, 0⟩)
        (bs.dropWhile Scan.isDigit)
    else .error (fault .invalidNumber bs)

/-- Whether a number starts with this byte. -/
def starts (b : UInt8) : Bool := b == ascii '-' || Scan.isDigit b

def read : Bytes → Read Json
  | [] => .error (fault .endInValue [])
  | b :: bs => if b = ascii '-' then unsigned true bs else unsigned false (b :: bs)

end CameraChannel.Json.Number
