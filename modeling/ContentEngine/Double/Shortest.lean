import ContentEngine.Double.Basic

/-!
# The shortest decimal that reads back

The reals that round to a finite positive double form an interval around it. `shortest` looks for a
point of the decimal grids `10 ^ e` in that interval, from the coarsest grid down: a grid that has
one has it next to the double, so two neighbours are tested on each. The nearer of two hits wins,
and of two at the same distance the even one.

All quantities are quarters of `2 ^ (-1074)`, in which the ends of the interval are whole.
-/

namespace ContentEngine.Double

structure Decimal where
  digits : Nat
  exponent : Int
deriving DecidableEq, Repr

/-- The interval of quarter units that rounds to a double of magnitude `n`: ends, and whether the
ends belong to it. The step below a power of two is half of the step above it. -/
def interval (x : Double) : Nat × Nat × Bool :=
  let n := x.magnitude
  let step := 1 <<< (x.exponentField - 1)
  let below := if x.fractionField = 0 ∧ 1 < x.exponentField then step else 2 * step
  (4 * n - below, 4 * n + 2 * step, x.fractionField % 2 = 0)

/-- Whether `c / d` lies in the interval of `x`. -/
def holds (x : Double) (c d : Nat) : Bool :=
  let (lo, hi, closed) := x.interval
  if closed then lo * d ≤ c ∧ c ≤ hi * d else lo * d < c ∧ c < hi * d

/-- The grid `10 ^ e` in quarter units is `num / den`. -/
def gridStep (e : Int) : Nat × Nat :=
  if 0 ≤ e then (Nat.pow 10 e.toNat <<< 1076, 1) else (1 <<< 1076, Nat.pow 10 (-e).toNat)

/-- The point of the grid `10 ^ e` that reads back as `x` and is nearest to it. -/
def onGrid (x : Double) (e : Int) : Option Nat :=
  let (num, den) := gridStep e
  let value := 4 * x.magnitude * den
  let low := value / num
  let lowHolds := x.holds (low * num) den && low != 0
  let highHolds := x.holds ((low + 1) * num) den
  let twiceRest := 2 * (value - low * num)
  if lowHolds && highHolds then
    if twiceRest < num ∨ (twiceRest = num ∧ low % 2 = 0) then some low else some (low + 1)
  else if lowHolds then some low
  else if highHolds then some (low + 1)
  else none

/-- Tries `steps` grids from `10 ^ e` down. -/
def search (x : Double) (e : Int) : Nat → Decimal
  | 0 => ⟨0, 0⟩
  | steps + 1 =>
    match x.onGrid e with
    | some n => ⟨n, e⟩
    | none => x.search (e - 1) steps

/-- An exponent whose grid is coarser than every finite double `x`. -/
def topExponent (x : Double) : Int :=
  let bits : Int := x.magnitude.log2
  (bits - 1074) * 30103 / 100000 + 1

/-- The shortest decimal of a finite double other than zero, without its sign. -/
def shortest (x : Double) : Decimal := x.search (x.topExponent + 1) 24

end ContentEngine.Double
