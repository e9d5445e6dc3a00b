/-! # The shortest decimal that reads back

A binary floating-point number stands for an interval of reals: all those that round to it.
`shortest?` finds the decimal `digits · 10 ^ exponent` in that interval that has the fewest digits
and, among those, lies nearest to the number itself; a decimal that lies half-way between two others
of its length gives way to the one further from zero.

All arithmetic is on natural numbers: the number and the ends of its interval are multiples of one
power of two, and a decimal grid is compared with them after both are cleared of denominators. -/

namespace OnePass.Decimal

-- Powers are those of the core library, also where an algebraic library is in scope.
attribute [local instance(high)] instPowNat

/-- The layout of a binary floating-point format: the widths of its two fields. -/
structure BinaryFormat where
  /-- width of the fraction field -/
  fractionBits : Nat
  /-- width of the exponent field -/
  exponentBits : Nat

/-- The four-byte format. -/
def single : BinaryFormat := ⟨23, 8⟩

/-- The eight-byte format. -/
def double : BinaryFormat := ⟨52, 11⟩

/-- A positive number `center · 2 ^ exponent` and the interval of reals that round to it, which
reaches `below` units down and `above` units up, with its ends if `closed`. -/
structure Dyadic where
  /-- the number, in units -/
  center : Nat
  /-- distance to the lower end, in units -/
  below : Nat
  /-- distance to the upper end, in units -/
  above : Nat
  /-- the unit is `2 ^ exponent` -/
  exponent : Int
  /-- whether the ends belong to the interval -/
  closed : Bool

/-- What the bits of a floating-point number mean. -/
inductive FloatValue where
  | nan
  | infinite (negative : Bool)
  | zero (negative : Bool)
  | finite (negative : Bool) (magnitude : Dyadic)

/-- Splits bits into sign, exponent and fraction, and reads them. The interval of a power of two is
narrower below, where the numbers lie closer together. -/
def BinaryFormat.decode (format : BinaryFormat) (bits : Nat) : FloatValue :=
  let fraction := bits % 2 ^ format.fractionBits
  let field := bits / 2 ^ format.fractionBits % 2 ^ format.exponentBits
  let negative := bits / 2 ^ (format.fractionBits + format.exponentBits) % 2 == 1
  let least : Int := 2 - (2 ^ (format.exponentBits - 1) + format.fractionBits : Nat)
  if field == 2 ^ format.exponentBits - 1 then
    if fraction == 0 then .infinite negative else .nan
  else if field == 0 then
    if fraction == 0 then .zero negative
    else .finite negative ⟨2 * fraction, 1, 1, least - 1, fraction % 2 == 0⟩
  else
    let mantissa := 2 ^ format.fractionBits + fraction
    let exponent := least + (field - 1 : Nat)
    if fraction == 0 then .finite negative ⟨4 * mantissa, 1, 2, exponent - 2, true⟩
    else .finite negative ⟨2 * mantissa, 1, 1, exponent - 1, fraction % 2 == 0⟩

/-- The multiple of `10 ^ exponent` nearest to a number among the two next to it, if one of them
lies in the number's interval. Both sides are scaled by `ten` and `two` so that they are whole. -/
def Dyadic.onGrid? (x : Dyadic) (exponent : Int) : Option Nat :=
  let two := 2 ^ x.exponent.toNat * 10 ^ (-exponent).toNat
  let ten := 10 ^ exponent.toNat * 2 ^ (-x.exponent).toNat
  let within (multiple : Nat) : Bool :=
    let point := multiple * ten
    if x.closed then (x.center - x.below) * two ≤ point && point ≤ (x.center + x.above) * two
    else (x.center - x.below) * two < point && point < (x.center + x.above) * two
  let lower := x.center * two / ten
  let upper := lower + 1
  if lower != 0 && within lower then
    if within upper && (x.center * two - lower * ten) * 2 ≥ ten then some upper else some lower
  else if within upper then some upper
  else none

/-- Tries ever finer grids, from `10 ^ exponent` downwards. -/
def Dyadic.firstOnGrid (x : Dyadic) : (fuel : Nat) → (exponent : Int) → Nat × Int
  | 0, exponent => (0, exponent)
  | fuel + 1, exponent =>
    match x.onGrid? exponent with
    | some digits => (digits, exponent)
    | none => x.firstOnGrid fuel (exponent - 1)

/-- The shortest decimal `(digits, exponent)` that reads back as the number. The first grid is
coarser than the number: `30103 / 100000` is a little more than the logarithm of two. -/
def Dyadic.shortest (x : Dyadic) : Nat × Int :=
  x.firstOnGrid 32 ((x.center.log2 + 1 + x.exponent) * 30103 / 100000 + 1)

/-- Drops zeros at the end of the digits and raises the exponent instead. -/
def stripZeros : (fuel : Nat) → (digits : Nat) → (exponent : Int) → Nat × Int
  | 0, digits, exponent => (digits, exponent)
  | fuel + 1, digits, exponent =>
    if digits != 0 && digits % 10 == 0 then stripZeros fuel (digits / 10) (exponent + 1)
    else (digits, exponent)

/-- A decimal written out in full, without an exponent: zeros fill the places between the digits and
the point. -/
def positional (digits : Nat) (exponent : Int) : String :=
  if exponent ≥ 0 then toString (digits * 10 ^ exponent.toNat)
  else
    let places := (-exponent).toNat
    let text := (toString digits).toList
    let padded := List.replicate (places + 1 - text.length) '0' ++ text
    String.ofList (padded.take (padded.length - places) ++ '.' :: padded.drop (padded.length - places))

/-- The text of a floating-point number: the shortest decimal that reads back, written out in full.
A whole number has no point, a zero keeps its sign, and what is not a number has none. -/
def FloatValue.text : FloatValue → String
  | nan => "NaN"
  | infinite negative => signed negative "inf"
  | zero negative => signed negative "0"
  | finite negative magnitude =>
    let (digits, exponent) := magnitude.shortest
    let (digits, exponent) := stripZeros 32 digits exponent
    signed negative (positional digits exponent)
where
  /-- a minus sign in front of what is negative -/
  signed (negative : Bool) (text : String) : String := if negative then "-" ++ text else text

/-- The text of a four-byte floating-point number, given by its bits. -/
def singleText (bits : UInt32) : String := (single.decode bits.toNat).text

/-- The text of an eight-byte floating-point number, given by its bits. -/
def doubleText (bits : UInt64) : String := (double.decode bits.toNat).text

end OnePass.Decimal
