/-!
Shortest decimals: the fewest significant digits that still tell a binary fraction from its
neighbours, and of those the ones nearest to it.
-/
namespace CameraChannel.Shortest

/-- A positive rational. -/
structure Ratio where
  num : Nat
  den : Nat

/-- `m * base ^ e`. -/
def Ratio.scaled (base m : Nat) : Int → Ratio
  | .ofNat e => ⟨m * Nat.pow base e, 1⟩
  | .negSucc e => ⟨m, Nat.pow base (e + 1)⟩

def Ratio.ble (a b : Ratio) : Bool := a.num * b.den ≤ b.num * a.den

def Ratio.blt (a b : Ratio) : Bool := a.num * b.den < b.num * a.den

def Ratio.floor (a : Ratio) : Nat := a.num / a.den

/-- The reals that round to a fraction: between the midpoints to its neighbours, ends included when
its significand is even. -/
structure Interval where
  low : Ratio
  high : Ratio
  closed : Bool

def Interval.holds (i : Interval) (x : Ratio) : Bool :=
  if i.closed then i.low.ble x && x.ble i.high else i.low.blt x && x.blt i.high

/-- The interval of `m * 2 ^ e`. Below a power of two the neighbour is only half as far away. -/
def intervalOf (m : Nat) (e : Int) : Interval where
  low := .scaled 2 (if m = 0x10000000000000 ∧ -1074 < e then 4 * m - 1 else 4 * m - 2) (e - 2)
  high := .scaled 2 (4 * m + 2) (e - 2)
  closed := m % 2 = 0

/-- The least `k` with `x < 10 ^ k`, looked for from `k` upwards. -/
def magnitudeFrom (x : Ratio) : Nat → Int → Int
  | 0, k => k
  | fuel + 1, k => if x.blt (.scaled 10 1 k) then k else magnitudeFrom x fuel (k + 1)

/-- Every positive binary64 number lies between 10 ^ -324 and 10 ^ 309. -/
def magnitude (x : Ratio) : Int := magnitudeFrom x 640 (-323)

/-- The grid points `d * 10 ^ e` and `(d + 1) * 10 ^ e` around `x`, if one lies in the interval: the
nearer of those that do, at equal distance the even one. -/
def onGrid (i : Interval) (x : Ratio) (e : Int) : Option (Nat × Int) :=
  let unit := Ratio.scaled 10 1 e
  let d := (Ratio.mk (x.num * unit.den) (x.den * unit.num)).floor
  let below := i.holds (.scaled 10 d e)
  let above := i.holds (.scaled 10 (d + 1) e)
  let mid := Ratio.mk ((2 * d + 1) * unit.num) (2 * unit.den)
  if below && above then
    if x.blt mid then some (d, e)
    else if mid.blt x then some (d + 1, e)
    else if d % 2 = 0 then some (d, e) else some (d + 1, e)
  else if below then some (d, e)
  else if above then some (d + 1, e)
  else none

/-- Looks from `digits` significant digits upwards. -/
def search (i : Interval) (x : Ratio) (k : Int) : Nat → Nat → Nat × Int
  | 0, digits => (x.floor, digits)
  | fuel + 1, digits =>
    match onGrid i x (k - digits) with
    | some r => r
    | none => search i x k fuel (digits + 1)

/-- The decimal `d * 10 ^ e` for `m * 2 ^ q`; seventeen digits always suffice. -/
def shortest (m : Nat) (q : Int) : Nat × Int :=
  let x := Ratio.scaled 2 m q
  search (intervalOf m q) x (magnitude x) 17 1

end CameraChannel.Shortest
