/-!
# The fewest digits that read back

A finite double stands for every real number that rounds to it: an interval around `m · 2 ^ q`
that reaches half way to either neighbour, with its ends included exactly when `m` is even. Among
the decimal numbers in that interval the written form is one with the fewest digits, and of those
the nearest to the double itself; when two are equally near, the one with the even last digit.

`shortest` finds it by looking at one decimal grid after another, the coarsest first: the points of
the grid `10 ^ k` next to the value are the floor of `m · 2 ^ q / 10 ^ k` and its successor, and if
any point of the grid is in the interval then one of these two is. All comparisons are between
natural numbers, so nothing is rounded on the way.
-/

namespace Fleet.Decimal

/-- **A positive double** `significand · 2 ^ exponent`, with the distance to the next smaller one:
it is half the distance to the next greater one just above a power of two. -/
structure Magnitude where
  significand : Nat
  exponent : Int
  narrowBelow : Bool
deriving Repr, DecidableEq

/-- The fractions of a double, which has 52 bits for it. -/
def fractionCount : Nat := 0x10000000000000

/-- The exponents of a double, which has 11 bits for them. -/
def exponentCount : Nat := 0x800

/-- The magnitude of a finite double other than zero, from its bits without the sign. -/
def Magnitude.ofBits (bits : Nat) : Magnitude :=
  let fraction : Nat := bits % fractionCount
  let biased : Nat := bits / fractionCount % exponentCount
  -- the smallest doubles have no leading bit, and all of them the same distance
  if biased = 0 then ⟨fraction, -1074, false⟩
  else ⟨fractionCount + fraction, (biased : Int) - 1075, fraction == 0 && biased != 1⟩

/-- The decimal number `coefficient · 10 ^ exponent`. -/
structure Scaled where
  coefficient : Nat
  exponent : Int
deriving Repr, DecidableEq

namespace Magnitude

/-- What a quarter of a unit in the last place, and a point of the grid `10 ^ k`, are multiplied
with so that both become natural numbers. -/
def scales (x : Magnitude) (k : Int) : Nat × Nat :=
  let p := x.exponent - 2
  (Nat.pow 2 p.toNat * Nat.pow 10 (-k).toNat, Nat.pow 10 k.toNat * Nat.pow 2 (-p).toNat)

/-- Whether the point `c` of the grid `10 ^ k` reads back as the magnitude. -/
def readsBack (x : Magnitude) (k : Int) (c : Nat) : Bool :=
  let (unit, grid) := x.scales k
  -- in quarters of a unit, half the way up is two and half the way down is two or one
  let low := (4 * x.significand - if x.narrowBelow then 1 else 2) * unit
  let high := (4 * x.significand + 2) * unit
  if x.significand % 2 = 0 then low ≤ c * grid && c * grid ≤ high
  else low < c * grid && c * grid < high

/-- The greatest point of the grid `10 ^ k` that does not exceed the magnitude. -/
def floor (x : Magnitude) (k : Int) : Nat :=
  let (unit, grid) := x.scales k
  4 * x.significand * unit / grid

/-- Of the point below and the one above, the nearer; the even one if both are equally near. -/
def nearer (x : Magnitude) (k : Int) : Nat :=
  let (unit, grid) := x.scales k
  let below := x.floor k
  let toBelow := 4 * x.significand * unit - below * grid
  let toAbove := (below + 1) * grid - 4 * x.significand * unit
  if toBelow < toAbove then below
  else if toAbove < toBelow then below + 1
  else if below % 2 = 0 then below else below + 1

/-- The point of the grid `10 ^ k` to write, if any reads back. -/
def onGrid? (x : Magnitude) (k : Int) : Option Nat :=
  let below := x.floor k
  match x.readsBack k below, x.readsBack k (below + 1) with
  | true, true => some (x.nearer k)
  | true, false => some below
  | false, true => some (below + 1)
  | false, false => none

/-- Look at the grid `10 ^ k` and then at finer ones, `steps` of them before the last. -/
def search (x : Magnitude) : (steps : Nat) → (k : Int) → Scaled
  | 0, k => ⟨x.nearer k, k⟩
  | steps + 1, k =>
    match x.onGrid? k with
    | some c => ⟨c, k⟩
    | none => x.search steps (k - 1)

/-- A decimal exponent that the magnitude does not reach, and at most a few above the greatest one
that it does. -/
def bound (x : Magnitude) : Int :=
  -- 30103 / 100000 is slightly more than the logarithm of two
  ((x.significand.log2 : Int) + x.exponent + 1) * 30103 / 100000 + 1

/-- Grids below `bound` that are worth a look: seventeen digits always read back. -/
def gridCount : Nat := 20

/-- **The shortest decimal number that reads back**, and of the shortest the nearest. -/
def shortest (x : Magnitude) : Scaled := x.search gridCount x.bound

end Magnitude

end Fleet.Decimal
