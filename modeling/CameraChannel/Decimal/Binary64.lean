import CameraChannel.Decimal.Digits
import CameraChannel.Decimal.Shortest

/-!
Binary64 numbers as decimal text, in both directions. Writing gives the shortest digits that read
back. Reading works on a significand of 64 bits and one power of ten, and rounds twice.
-/
namespace CameraChannel.Binary64

/-- Significand and exponent of the magnitude. -/
def decompose (x : Float) : Nat × Int :=
  let bits := x.toBits.toNat
  let field : Nat := bits / 0x10000000000000 % 2048
  let fraction : Nat := bits % 0x10000000000000
  if field = 0 then (fraction, -1074) else (0x10000000000000 + fraction, (field : Int) - 1075)

def isNegative (x : Float) : Bool := 0x8000000000000000 ≤ x.toBits.toNat

/-- Drops the zeros at the end of a number; each makes the exponent one greater. -/
def dropZeros : Nat → Nat → Int → Nat × Int
  | 0, d, e => (d, e)
  | fuel + 1, d, e => if d % 10 = 0 then dropZeros fuel (d / 10) (e + 1) else (d, e)

/-- Which exponents of ten are written out in zeros; the others follow the letter `e`. -/
structure Layout where
  leastPlain : Int
  greatestPlain : Int

/-- Exponents from -5 to 15 are plain. -/
def layout : Layout := ⟨-5, 15⟩

/-- The digits `ds` with the point `e` places after the first. -/
def place (l : Layout) (ds : List Char) (e : Int) : List Char :=
  if l.leastPlain ≤ e ∧ e ≤ l.greatestPlain then
    match e with
    | .negSucc k => ['0', '.'] ++ List.replicate k '0' ++ ds
    | .ofNat k =>
      if ds.length ≤ k + 1 then ds ++ List.replicate (k + 1 - ds.length) '0' ++ ['.', '0']
      else ds.take (k + 1) ++ '.' :: ds.drop (k + 1)
  else
    let mantissa :=
      match ds with
      | d :: r :: rs => d :: '.' :: r :: rs
      | ds => ds
    let exponent :=
      match e with
      | .ofNat k => '+' :: Digits.decimal k
      | .negSucc k => '-' :: Digits.decimal (k + 1)
    mantissa ++ 'e' :: exponent

/-- The text of a finite number. -/
def text (x : Float) : List Char :=
  let (m, q) := decompose x
  let sign := if isNegative x then ['-'] else []
  if m = 0 then sign ++ ['0', '.', '0']
  else
    let (d, e) := Shortest.shortest m q
    let (d, e) := dropZeros 17 d e
    let ds := Digits.decimal d
    sign ++ place layout ds (e + ds.length - 1)

/-- The power of ten nearest to `10 ^ e`. -/
def power (e : Nat) : Float := Float.ofScientific 1 false e

/-- `f * 10 ^ e` by one rounded power; none when it is too great. Exponents below the table are
reached by dividing by the greatest power first. -/
def scale : Nat → Float → Int → Option Float
  | 0, _, _ => some 0
  | fuel + 1, f, e =>
    if e.natAbs ≤ 308 then
      if 0 ≤ e then
        let r := f * power e.natAbs
        if r.isInf then none else some r
      else some (f / power e.natAbs)
    else if f == 0 then some f
    else if 0 ≤ e then none
    else scale fuel (f / power 308) (e + 308)

/-- The number with the given sign, significand and exponent of ten; none when it is out of range.
Two divisions by the greatest power already take any significand of 64 bits to zero. -/
def ofParts (negative : Bool) (significand : Nat) (exponent : Int) : Option Float :=
  (scale 4 (UInt64.ofNat significand).toFloat exponent).map fun f => if negative then -f else f

/-- Zero with a sign. -/
def zero (negative : Bool) : Float := if negative then -0.0 else 0.0

end CameraChannel.Binary64
