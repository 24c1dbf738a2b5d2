import ViewMarkup.Number.Binary

/-!
# The shortest decimal of a binary number

A finite binary magnitude is written with the fewest decimal digits that read back as the same
magnitude, and among those with the digits nearest to it. The reals that read back as
`m * 2 ^ q` form an interval, which contains its ends when `m` is even; the search goes through
the decimal grids from coarse to fine and stops at the first one with a point in that interval.

## Main definitions

* `ReadBack` — the interval of a magnitude, in quarters of its last place.
* `shortest` — the decimal that is written.
-/

namespace ViewMarkup

/-- The decimal number `digits * 10 ^ exponent`. -/
structure Decimal where
  /-- The digits, read as one natural number. -/
  digits : Nat
  /-- The weight of the last digit, as an exponent of ten. -/
  exponent : Int
deriving Repr, DecidableEq

/-- The reals that read back as one binary magnitude: those between `low` and `high`, counted in
units of `2 ^ unit`, around the magnitude `centre` itself. -/
structure ReadBack where
  /-- The lower end. -/
  low : Nat
  /-- The magnitude. -/
  centre : Nat
  /-- The upper end. -/
  high : Nat
  /-- The unit, as an exponent of two. -/
  unit : Int
  /-- Whether the ends belong to the interval. -/
  closed : Bool
deriving Repr, DecidableEq

namespace ReadBack

/-- The interval of `m * 2 ^ q`. Below a power of two the magnitudes stand twice as close, unless
it is the smallest of the format. -/
def of (f : BinaryFormat) (m : Nat) (q : Int) : ReadBack where
  low := if m = f.hiddenBit ∧ f.minExponent < q then 4 * m - 1 else 4 * m - 2
  centre := 4 * m
  high := 4 * m + 2
  unit := q - 2
  closed := m % 2 = 0

/-- A length in units of the interval, on the scale on which the points of the grid `10 ^ k` are
the multiples of `step`. -/
def scaled (r : ReadBack) (k : Int) (x : Nat) : Nat :=
  x * Nat.pow 2 r.unit.toNat * Nat.pow 10 (-k).toNat

/-- The distance of two points of the grid `10 ^ k` on the scale of `scaled`. -/
def step (r : ReadBack) (k : Int) : Nat :=
  Nat.pow 10 k.toNat * Nat.pow 2 (-r.unit).toNat

/-- Whether the grid point `c * 10 ^ k` lies in the interval. -/
def contains (r : ReadBack) (k : Int) (c : Nat) : Bool :=
  let x := c * r.step k
  if r.closed then decide (r.scaled k r.low ≤ x ∧ x ≤ r.scaled k r.high)
  else decide (r.scaled k r.low < x ∧ x < r.scaled k r.high)

/-- The point of the grid `10 ^ k` in the interval that is nearest to the magnitude; of two
equally near ones the larger. Only the two neighbours of the magnitude have to be tried. -/
def gridPoint? (r : ReadBack) (k : Int) : Option Nat :=
  let centre := r.scaled k r.centre
  let below := centre / r.step k
  match r.contains k below, r.contains k (below + 1) with
  | true, true =>
      if 2 * (centre % r.step k) < r.step k then some below else some (below + 1)
  | true, false => some below
  | false, true => some (below + 1)
  | false, false => none

end ReadBack

/-- A power of ten above `m * 2 ^ q`, as an exponent: one binary digit is less than a third of a
decimal one. -/
def gridAbove (m : Nat) (q : Int) : Int :=
  ((m.log2 : Int) + 1 + q) * 30103 / 100000 + 2

/-- The shortest decimal that reads back as `m * 2 ^ q`, for `m` other than `0`. -/
def shortest (f : BinaryFormat) (m : Nat) (q : Int) : Decimal :=
  let r := ReadBack.of f m q
  let top := gridAbove m q
  let grids := (List.range 24).map fun (i : Nat) => top - (i : Int)
  match grids.findSome? fun k => (r.gridPoint? k).map fun c => (⟨c, k⟩ : Decimal) with
  | some d => d
  | none => ⟨0, 0⟩

end ViewMarkup
