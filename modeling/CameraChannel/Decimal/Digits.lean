/-!
Digits of natural numbers: written in a base, padded to a width, and read in base ten.
-/
namespace CameraChannel.Digits

/-- The character of a digit below sixteen. -/
def digitChar (d : Nat) : Char :=
  if d < 10 then Char.ofNat (48 + d) else Char.ofNat (87 + d)

/-- Digits of `n` in front of `tail`; `fuel` bounds their number. -/
def inBaseOnto (base : Nat) : Nat → Nat → List Char → List Char
  | 0, n, tail => digitChar (n % base) :: tail
  | fuel + 1, n, tail =>
    if n < base then digitChar n :: tail
    else inBaseOnto base fuel (n / base) (digitChar (n % base) :: tail)

def decimal (n : Nat) : List Char := inBaseOnto 10 n n []

def hexadecimal (n : Nat) : List Char := inBaseOnto 16 n n []

/-- A minus sign stands before the digits of a negative number. -/
def signed : Int → List Char
  | .ofNat n => decimal n
  | .negSucc n => '-' :: decimal (n + 1)

def text (n : Nat) : String := String.ofList (decimal n)

/-- At least `width` digits, with zeros in front. -/
def padded (width n : Nat) : List Char :=
  let ds := decimal n
  List.replicate (width - ds.length) '0' ++ ds

def value? (c : Char) : Option Nat :=
  if '0' ≤ c ∧ c ≤ '9' then some (c.toNat - 48) else none

/-- The number that a nonempty string of digits stands for. -/
def readFrom : Nat → List Char → Option Nat
  | n, [] => some n
  | n, c :: cs =>
    match value? c with
    | some d => readFrom (n * 10 + d) cs
    | none => none

def read? : List Char → Option Nat
  | [] => none
  | cs => readFrom 0 cs

/-- A number with an optional plus sign in front. -/
def readUnsigned? : List Char → Option Nat
  | '+' :: cs => read? cs
  | cs => read? cs

/-- A number with an optional sign in front. -/
def readSigned? : List Char → Option Int
  | '-' :: cs => (read? cs).map fun n => -(n : Int)
  | '+' :: cs => (read? cs).map Int.ofNat
  | cs => (read? cs).map Int.ofNat

end CameraChannel.Digits
