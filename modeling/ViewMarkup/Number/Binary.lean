/-!
# Binary floating-point formats

A format is given by the width of its significand and the range of its exponents. Its finite
magnitudes are the numbers `m * 2 ^ q` with `m < 2 ^ precision` and `minExponent ≤ q ≤ maxExponent`,
and the bit pattern of a magnitude counts them in increasing order.

## Main definitions

* `BinaryFormat` with its two instances `BinaryFormat.double` and `BinaryFormat.single`.
* `BinaryFormat.nearest` — the bit pattern of the magnitude nearest to a fraction.
* `BinaryFormat.finite?` — the significand and exponent behind a bit pattern.
-/

namespace ViewMarkup

/-- A binary floating-point format. A full significand has `precision` bits; the last bit of a
significand weighs `2 ^ q` with `minExponent ≤ q ≤ maxExponent`. -/
structure BinaryFormat where
  /-- Number of bits of a full significand. -/
  precision : Nat
  /-- Weight of the last bit of the smallest magnitudes, as an exponent of two. -/
  minExponent : Int
  /-- Weight of the last bit of the largest magnitudes, as an exponent of two. -/
  maxExponent : Int
deriving Repr, DecidableEq

namespace BinaryFormat

/-- The 64-bit format. -/
def double : BinaryFormat := ⟨53, -1074, 971⟩

/-- The 32-bit format. -/
def single : BinaryFormat := ⟨24, -149, 104⟩

/-- The weight of the hidden leading bit, in units of the last place. -/
def hiddenBit (f : BinaryFormat) : Nat := Nat.pow 2 (f.precision - 1)

/-- The bit pattern of infinity: one more than the largest finite magnitude. -/
def infinityBits (f : BinaryFormat) : Nat :=
  ((f.maxExponent - f.minExponent).toNat + 2) * f.hiddenBit

/-- The sign bit stands above all magnitudes and above the patterns that stand for no number. -/
def signBit (f : BinaryFormat) : Nat :=
  ((f.maxExponent - f.minExponent).toNat + 3) * f.hiddenBit

/-- A bit pattern that stands for no number. -/
def nanBits (f : BinaryFormat) : Nat := f.infinityBits + f.hiddenBit / 2

/-- `num / den` rounded to a natural number; of two equally near ones the even one. -/
def roundHalfEven (num den : Nat) : Nat :=
  let low := num / den
  let twice := 2 * (num % den)
  if twice < den then low
  else if den < twice then low + 1
  else if low % 2 = 0 then low else low + 1

/-- The exponent of the last place at which `num / den` is rounded: the leading bit of the
quotient fills the significand, unless the quotient is too small for that. -/
def lastPlace (f : BinaryFormat) (num den : Nat) : Int :=
  let estimate : Int := (num.log2 : Int) - den.log2
  let leading : Int :=
    if num * Nat.pow 2 (-estimate).toNat < den * Nat.pow 2 estimate.toNat then estimate - 1
    else estimate
  max f.minExponent (leading - (f.precision - 1 : Nat))

/-- The bit pattern of the magnitude nearest to `num / den`; ties go to the even significand, and
what is too large becomes infinity. Because patterns count magnitudes in order, a significand that
rounds up to the next power of two needs no case of its own. -/
def nearest (f : BinaryFormat) (num den : Nat) : Nat :=
  if num = 0 then 0
  else
    let q := f.lastPlace num den
    let m := roundHalfEven (num * Nat.pow 2 (-q).toNat) (den * Nat.pow 2 q.toNat)
    min f.infinityBits ((q - f.minExponent).toNat * f.hiddenBit + m)

/-- The significand and the exponent of the magnitude with the given bit pattern; nothing for
infinity and for patterns that stand for no number. -/
def finite? (f : BinaryFormat) (bits : Nat) : Option (Nat × Int) :=
  if f.infinityBits ≤ bits then none
  else if bits < f.hiddenBit then some (bits, f.minExponent)
  else
    some (bits % f.hiddenBit + f.hiddenBit, f.minExponent + (bits / f.hiddenBit - 1 : Nat))

end BinaryFormat

end ViewMarkup
