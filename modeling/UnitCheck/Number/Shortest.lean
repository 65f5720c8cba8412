/-!
# Shortest decimals

The decimal with the fewest digits that reads back as a given double. A double with significand `m`
and exponent `q` stands for `m · 2 ^ q`; the reals that round to it form an interval around it that
holds its ends exactly when `m` is even. For one digit, two digits and so on the two neighbours of
the value on that decimal grid are tried; the first grid with a neighbour inside the interval wins,
and of two such neighbours the nearer one.
-/

namespace UnitCheck.Number.Shortest

structure Ratio where
  num : Nat
  den : Nat

def scaled (n : Nat) (e : Int) : Ratio :=
  if e < 0 then ⟨n, Nat.pow 2 (-e).toNat⟩ else ⟨n * Nat.pow 2 e.toNat, 1⟩

def decimal (n : Nat) (e : Int) : Ratio :=
  if e < 0 then ⟨n, Nat.pow 10 (-e).toNat⟩ else ⟨n * Nat.pow 10 e.toNat, 1⟩

def Ratio.lt (a b : Ratio) : Bool := decide (a.num * b.den < b.num * a.den)

def Ratio.le (a b : Ratio) : Bool := !b.lt a

def Ratio.gap (a b : Ratio) : Ratio :=
  let x := a.num * b.den
  let y := b.num * a.den
  ⟨if x < y then y - x else x - y, a.den * b.den⟩

/-- The integer part of a ratio divided by a power of ten. -/
def Ratio.quotTen (a : Ratio) (e : Int) : Nat :=
  if e < 0 then a.num * Nat.pow 10 (-e).toNat / a.den else a.num / (a.den * Nat.pow 10 e.toNat)

/-- The interval of reals that round to a double, and whether its ends belong to it. -/
structure Interval where
  low : Ratio
  high : Ratio
  closed : Bool

def Interval.holds (i : Interval) (x : Ratio) : Bool :=
  if i.closed then i.low.le x && x.le i.high else i.low.lt x && x.lt i.high

/-- The interval around `m · 2 ^ q`. Below a power of two the doubles are twice as dense, unless the
power is the least normal one. -/
def interval (m : Nat) (q : Int) : Interval :=
  let low := if m = Nat.pow 2 52 ∧ -1074 < q then 4 * m - 1 else 4 * m - 2
  ⟨scaled low (q - 2), scaled (4 * m + 2) (q - 2), m % 2 == 0⟩

/-- The largest `k`, at most `start`, with `10 ^ k ≤ x`; `fuel` bounds the steps down. -/
def orderFrom (x : Ratio) : (fuel : Nat) → (start : Int) → Int
  | 0, k => k
  | fuel + 1, k => if (decimal 1 k).le x then k else orderFrom x fuel (k - 1)

/-- The decimal order of magnitude of a positive value `m · 2 ^ q`. -/
def order (m : Nat) (q : Int) : Int :=
  let bits : Int := (m.log2 : Int) + q
  orderFrom (scaled m q) 4 (bits * 30103 / 100000 + 2)

/-- The better neighbour of `x` on the grid of step `10 ^ e`, if one lies in the interval. -/
def onGrid? (i : Interval) (x : Ratio) (e : Int) : Option Nat :=
  let d := x.quotTen e
  let below := decimal d e
  let above := decimal (d + 1) e
  match i.holds below, i.holds above with
  | true, true =>
    let down := x.gap below
    let up := above.gap x
    if down.lt up then some d
    else if up.lt down then some (d + 1)
    else some (if d % 2 = 0 then d else d + 1)
  | true, false => some d
  | false, true => some (d + 1)
  | false, false => none

/-- Tries grids of one digit, two digits and so on, `count` of them. -/
def search (i : Interval) (x : Ratio) (k : Int) : (count digits : Nat) → Nat × Int
  | 0, digits => (x.quotTen (k - digits + 1), k - digits + 1)
  | count + 1, digits =>
    match onGrid? i x (k - digits + 1) with
    | some d => (d, k - digits + 1)
    | none => search i x k count (digits + 1)

/-- Drops trailing zeros of a positive number of at most `fuel` digits. -/
def dropZeros : (fuel : Nat) → Nat → Int → Nat × Int
  | 0, d, e => (d, e)
  | fuel + 1, d, e => if d % 10 = 0 ∧ d ≠ 0 then dropZeros fuel (d / 10) (e + 1) else (d, e)

/-- The shortest decimal of `m · 2 ^ q`, for positive `m`: its digits, without trailing zeros, and
the power of ten of the last of them. -/
def shortest (m : Nat) (q : Int) : Nat × Int :=
  let (d, e) := search (interval m q) (scaled m q) (order m q) 17 1
  dropZeros 20 d e

end UnitCheck.Number.Shortest
