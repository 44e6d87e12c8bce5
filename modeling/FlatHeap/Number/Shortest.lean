import FlatHeap.Number.Floating

/-!
# Shortest decimal digits

The decimal written for a positive binary number is the coarsest one that reads back as that number.
The reals that round to `m * 2 ^ q` form an interval around it, ends included when `m` is
even.  Grids of multiples of `10 ^ j` are tried from coarse to fine; on the first grid with a point
in the interval the nearer of the number's two neighbours is taken, and the upper one on a tie.  All
comparisons are between integers: a quantity is scaled to a numerator over a common denominator
first.
-/

namespace FlatHeap

-- Powers are those of the integers, whatever algebra is in scope.
attribute [local instance (high)] instPowNat

/-- The decimal `digits * 10 ^ exponent`. -/
structure Decimal where
  /-- Significant digits as one number. -/
  digits : Nat
  /-- Power of ten of the last digit. -/
  exponent : Int
deriving DecidableEq, Repr

/-- The reals that round to a positive binary number, in units of `2 ^ unit`. -/
structure RoundingInterval where
  low : Nat
  mid : Nat
  high : Nat
  /-- Binary exponent of the unit. -/
  unit : Int
  /-- Whether the ends belong to the interval. -/
  closed : Bool
deriving DecidableEq, Repr

namespace RoundingInterval

/-- Interval of `m * 2 ^ q`.  At the bottom of a binade the neighbour below is only half as far. -/
def ofParts (f : FloatFormat) (m : Nat) (q : Int) : RoundingInterval :=
  let gapBelow := if m = 2 ^ f.fracBits ∧ f.tiny < q then 1 else 2
  ⟨4 * m - gapBelow, 4 * m, 4 * m + 2, q - 2, m % 2 = 0⟩

def numerator (r : RoundingInterval) (j : Int) (v : Nat) : Nat :=
  v * 2 ^ r.unit.toNat * 10 ^ (-j).toNat

def denominator (r : RoundingInterval) (j : Int) : Nat :=
  2 ^ (-r.unit).toNat * 10 ^ j.toNat

def contains (r : RoundingInterval) (j : Int) (d : Nat) : Bool :=
  let point := d * r.denominator j
  let low := r.numerator j r.low
  let high := r.numerator j r.high
  if r.closed then low ≤ point && point ≤ high else low < point && point < high

/-- The point of the grid of multiples of `10 ^ j` to write, if the interval holds one of the two
neighbours of its middle. -/
def onGrid? (r : RoundingInterval) (j : Int) : Option Nat :=
  let num := r.numerator j r.mid
  let den := r.denominator j
  let down := num / den
  match r.contains j down, r.contains j (down + 1) with
  | true, true => some (if den ≤ 2 * (num % den) then down + 1 else down)
  | true, false => some down
  | false, true => some (down + 1)
  | false, false => none

def search (r : RoundingInterval) : Nat → Int → Decimal
  | 0, j => ⟨r.numerator j r.mid / r.denominator j, j⟩
  | fuel + 1, j =>
    match r.onGrid? j with
    | some d => ⟨d, j⟩
    | none => r.search fuel (j - 1)

/-- A power of ten above the interval: `30103 / 100000` bounds the decimal logarithm of two. -/
def topExponent (r : RoundingInterval) : Int :=
  (((Nat.log2 r.high + 1 : Nat) : Int) + r.unit) * 30103 / 100000 + 1

/-- The coarsest decimal in the interval.  Two grids above the leading digit and seventeen digits
suffice for 64 bits. -/
def shortest (r : RoundingInterval) : Decimal := r.search 24 r.topExponent

end RoundingInterval

/-- Shortest decimal that reads back as the positive number `m * 2 ^ q`. -/
def Decimal.shortest (f : FloatFormat) (m : Nat) (q : Int) : Decimal :=
  (RoundingInterval.ofParts f m q).shortest

end FlatHeap
