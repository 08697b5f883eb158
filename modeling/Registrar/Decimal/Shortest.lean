/-!
# The shortest decimal of a binary floating-point number

A finite number is taken apart into an integer times a power of two. The reals that round to it form
an interval; its ends belong to it when the integer is even. `Binary.shortest` takes the coarsest
grid of multiples of a power of ten that has a point in the interval, and of its points the one
nearest to the number. `Decimal.plain` writes the result with a point, `Decimal.general` falls back
to a power of ten for large and small numbers.
-/

namespace Registrar.Decimal

inductive Binary where
  | nan
  | infinite (negative : Bool)
  /-- The number `mantissa * 2 ^ exponent`. The number below it is closer than the one above it
  when `narrowBelow` holds. -/
  | finite (negative : Bool) (mantissa : Nat) (exponent : Int) (narrowBelow : Bool)
  deriving DecidableEq, Repr

/-- Takes bits apart: `fractionBits` bits of fraction, then `exponentBits` of exponent, then the
sign. -/
def ofBits (fractionBits exponentBits bits : Nat) : Binary :=
  let fraction := bits % Nat.pow 2 fractionBits
  let exponent := bits / Nat.pow 2 fractionBits % Nat.pow 2 exponentBits
  let negative := bits / Nat.pow 2 (fractionBits + exponentBits) % 2 = 1
  let bias : Int := Nat.pow 2 (exponentBits - 1) - 1 + fractionBits
  if exponent = Nat.pow 2 exponentBits - 1 then
    if fraction = 0 then .infinite negative else .nan
  else if exponent = 0 then .finite negative fraction (1 - bias) false
  else
    .finite negative (fraction + Nat.pow 2 fractionBits) (exponent - bias)
      (fraction = 0 && 1 < exponent)

def ofFloat32Bits (bits : UInt32) : Binary := ofBits 23 8 bits.toNat

def ofFloat64Bits (bits : UInt64) : Binary := ofBits 52 11 bits.toNat

/-- The interval of reals that round to a number, in multiples of `1 / unit`. -/
structure Interval where
  low : Nat
  middle : Nat
  high : Nat
  unit : Nat
  closed : Bool

def interval (mantissa : Nat) (exponent : Int) (narrowBelow : Bool) : Interval :=
  let scale := Nat.pow 2 exponent.toNat
  ⟨(4 * mantissa - (if narrowBelow then 1 else 2)) * scale, 4 * mantissa * scale,
    (4 * mantissa + 2) * scale, 4 * Nat.pow 2 (-exponent).toNat, mantissa % 2 = 0⟩

/-- Whether `count` steps of the grid of multiples of `10 ^ power` lead into the interval. -/
def Interval.holds (i : Interval) (power : Int) (count : Nat) : Bool :=
  let point := count * Nat.pow 10 power.toNat * i.unit
  let shift := Nat.pow 10 (-power).toNat
  if i.closed then i.low * shift ≤ point && point ≤ i.high * shift
  else i.low * shift < point && point < i.high * shift

/-- The steps to the point nearest to the number among those on the grid and in the interval. -/
def Interval.nearest? (i : Interval) (power : Int) : Option Nat :=
  let step := Nat.pow 10 power.toNat * i.unit
  let middle := i.middle * Nat.pow 10 (-power).toNat
  let below := middle / step
  let rest := middle % step
  let upFirst := step < 2 * rest || (2 * rest == step && below % 2 == 1)
  let candidates := if upFirst then [below + 1, below] else [below, below + 1]
  candidates.find? (i.holds power)

/-- The coarsest grid with a point in the interval, from the grid of `10 ^ power` on downwards. -/
def Interval.search (i : Interval) (power : Int) : Nat → Nat × Int
  | 0 => (0, 0)
  | fuel + 1 =>
    match i.nearest? power with
    | some count => (count, power)
    | none => i.search (power - 1) fuel

/-- Digits and a power of ten: the shortest decimal of `mantissa * 2 ^ exponent`, which is not 0. -/
def shortest (mantissa : Nat) (exponent : Int) (narrowBelow : Bool) : Nat × Int :=
  let magnitude : Int := (mantissa.log2 : Int) + exponent
  (interval mantissa exponent narrowBelow).search (magnitude * 30103 / 100000 + 2) 40

def signed (negative : Bool) (text : String) : String := if negative then "-" ++ text else text

def zeros (count : Nat) : String := String.ofList (List.replicate count '0')

def positional (digits : Nat) (power : Int) : String :=
  let text := toString digits
  if 0 ≤ power then text ++ zeros power.toNat
  else
    let places := (-power).toNat
    let padded := (zeros (places + 1 - text.length) ++ text).toList
    let whole := padded.length - places
    String.ofList (padded.take whole) ++ "." ++ String.ofList (padded.drop whole)

/-- A decimal written with one digit in front of the point and a power of ten. -/
def scientific (digits : Nat) (power : Int) : String :=
  let text := (toString digits).toList
  let fraction := String.ofList (text.drop 1)
  String.ofList (text.take 1) ++ (if fraction.isEmpty then "" else "." ++ fraction) ++ "e" ++
    toString (power + text.length - 1)

/-- A value written with digits and a point; a whole number ends in `.0`. -/
def plain : Binary → String
  | .nan => "NaN"
  | .infinite negative => signed negative "inf"
  | .finite negative 0 _ _ => signed negative "0.0"
  | .finite negative mantissa exponent narrowBelow =>
    let (digits, power) := shortest mantissa exponent narrowBelow
    let text := positional digits power
    signed negative (if 0 ≤ power then text ++ ".0" else text)

/-- A value written with a point, or with a power of ten from `10 ^ 16` on and below `10 ^ -4`. -/
def general : Binary → String
  | .finite negative (mantissa + 1) exponent narrowBelow =>
    let (digits, power) := shortest (mantissa + 1) exponent narrowBelow
    let leading := power + (toString digits).length - 1
    if 16 ≤ leading ∨ leading < -4 then signed negative (scientific digits power)
    else plain (.finite negative (mantissa + 1) exponent narrowBelow)
  | value => plain value

end Registrar.Decimal
