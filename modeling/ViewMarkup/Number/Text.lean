import ViewMarkup.Number.Shortest

/-!
# Numbers as text

Numbers are written positionally, never with an exponent: the digits of the shortest decimal, with
zeros up to the point and a point only before a fraction. They are read from a decimal literal
with optional sign, fraction and exponent, or from one of the names of infinity and of the
undefined number; reading rounds once, from the exact decimal to the nearest binary number.

## Main definitions

* `Number.text`, `Number.singleText` — a 64-bit and a 32-bit number as text.
* `Number.ofText?`, `Number.singleOfText?` — their readers.
* `Number.integerOfText?` — the reader for 64-bit integers.
-/

namespace ViewMarkup

namespace Decimal

/-- The positional form of a decimal. -/
def positional (d : Decimal) : String :=
  let digits := (Nat.repr d.digits).toList
  let places := (-d.exponent).toNat
  if places = 0 then
    String.ofList (digits ++ List.replicate d.exponent.toNat '0')
  else if places < digits.length then
    let whole := digits.length - places
    String.ofList (digits.take whole ++ '.' :: digits.drop whole)
  else
    String.ofList ('0' :: '.' :: List.replicate (places - digits.length) '0' ++ digits)

end Decimal

/-- What a numeric text denotes, before it is rounded to a format. -/
inductive Numeral where
  /-- One of the spellings of the undefined number. -/
  | undefined
  /-- One of the spellings of infinity. -/
  | infinite
  /-- The decimal `digits * 10 ^ exponent`. -/
  | decimal (d : Decimal)
deriving Repr, DecidableEq

namespace Numeral

/-- The value of a digit. -/
def digitValue (c : Char) : Nat := c.toNat - '0'.toNat

/-- The natural number that a run of digits denotes. -/
def digitsValue (cs : List Char) : Nat := cs.foldl (fun n c => 10 * n + digitValue c) 0

/-- A text in lower case, for the names that are read in any case. -/
def lower (cs : List Char) : List Char := cs.map Char.toLower

/-- An optional sign: whether it is a minus, and the rest. -/
def sign : List Char → Bool × List Char
  | '-' :: cs => (true, cs)
  | '+' :: cs => (false, cs)
  | cs => (false, cs)

/-- What follows the mantissa: nothing, or an exponent with at least one digit. -/
def exponent? : List Char → Option Int
  | [] => some 0
  | c :: cs =>
      if c = 'e' ∨ c = 'E' then
        let (negative, digits) := sign cs
        if digits.isEmpty ∨ !digits.all Char.isDigit then none
        else some (if negative then -(digitsValue digits : Int) else digitsValue digits)
      else none

/-- An unsigned decimal literal: digits with an optional point among or beside them, at least one
digit in all, and an optional exponent. -/
def decimal? (cs : List Char) : Option Decimal :=
  let whole := cs.takeWhile Char.isDigit
  let afterWhole := cs.dropWhile Char.isDigit
  let (fraction, rest) :=
    match afterWhole with
    | '.' :: r => (r.takeWhile Char.isDigit, r.dropWhile Char.isDigit)
    | r => ([], r)
  if whole.isEmpty && fraction.isEmpty then none
  else
    (exponent? rest).map fun e =>
      ⟨digitsValue (whole ++ fraction), e - fraction.length⟩

/-- An unsigned numeric text. -/
def unsigned? (cs : List Char) : Option Numeral :=
  if lower cs = ['n', 'a', 'n'] then some .undefined
  else if lower cs = "inf".toList ∨ lower cs = "infinity".toList then some .infinite
  else (decimal? cs).map .decimal

/-- The bit pattern of the magnitude nearest to `d`. A decimal beyond every format's range is
settled by its number of digits, so that no huge power of ten is computed. -/
def decimalBits (f : BinaryFormat) (d : Decimal) : Nat :=
  let size : Int := ((Nat.repr d.digits).length : Int) + d.exponent
  if d.digits = 0 ∨ size < -400 then 0
  else if 400 < size then f.infinityBits
  else f.nearest (d.digits * Nat.pow 10 d.exponent.toNat) (Nat.pow 10 (-d.exponent).toNat)

/-- The bit pattern of the magnitude that a numeral denotes. -/
def bits (f : BinaryFormat) : Numeral → Nat
  | .undefined => f.nanBits
  | .infinite => f.infinityBits
  | .decimal d => decimalBits f d

end Numeral

namespace Number

/-- The bit pattern that a text denotes in a format. -/
def bitsOfText? (f : BinaryFormat) (text : String) : Option Nat :=
  let (negative, cs) := Numeral.sign text.toList
  (Numeral.unsigned? cs).map fun n =>
    if negative then f.signBit + n.bits f else n.bits f

/-- The 64-bit number that a text denotes. -/
def ofText? (text : String) : Option Float :=
  (bitsOfText? .double text).map fun b => Float.ofBits b.toUInt64

/-- The 32-bit number that a text denotes. -/
def singleOfText? (text : String) : Option Float32 :=
  (bitsOfText? .single text).map fun b => Float32.ofBits b.toUInt32

/-- The text of a bit pattern: the undefined number is written without a sign, every other number
with a minus when its sign bit is set. -/
def textOfBits (f : BinaryFormat) (bits : Nat) : String :=
  let magnitude := bits % f.signBit
  if f.infinityBits < magnitude then "NaN"
  else
    let body :=
      match f.finite? magnitude with
      | none => "inf"
      | some (m, q) => if m = 0 then "0" else (shortest f m q).positional
    if bits < f.signBit then body else "-" ++ body

/-- A 64-bit number as text. -/
def text (x : Float) : String := textOfBits .double x.toBits.toNat

/-- A 32-bit number as text. -/
def singleText (x : Float32) : String := textOfBits .single x.toBits.toNat

/-- The integer that a text denotes: an optional sign and at least one digit, within 64 bits. -/
def integerOfText? (text : String) : Option Int :=
  let (negative, digits) := Numeral.sign text.toList
  if digits.isEmpty ∨ !digits.all Char.isDigit then none
  else
    let n : Int := Numeral.digitsValue digits
    let v := if negative then -n else n
    if -Int.pow 2 63 ≤ v ∧ v < Int.pow 2 63 then some v else none

end Number

end ViewMarkup
