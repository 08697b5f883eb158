import Registrar.Json.Value

/-!
# Reading JSON numbers

`JsonNumber.ofText?` reads the text of a number. An integer that fits 64 bits stays an integer,
except `-0`. Any other number becomes a double by one multiplication or division: the digits are
collected into a 64-bit significand, digits that no longer fit are dropped, and the significand is
scaled by a power of ten. A number that is too large for a double is refused.
-/

namespace Registrar.JsonNumber

def digit? (c : Char) : Option Nat :=
  if '0' ≤ c ∧ c ≤ '9' then some (c.toNat - 48) else none

def wordBound : Nat := 0x10000000000000000

/-- Digits collected so far: the significand, how many digits were left out of it, and how many
stood in front of a point or behind it. -/
structure Digits where
  significand : Nat
  /-- Whether a digit no longer fitted. -/
  overflowed : Bool
  exponent : Int
  deriving Inhabited

def wholeDigits (acc : Digits) : List Char → Digits × List Char
  | [] => (acc, [])
  | c :: rest =>
    match digit? c with
    | none => (acc, c :: rest)
    | some d =>
      if acc.overflowed || wordBound ≤ acc.significand * 10 + d then
        wholeDigits ⟨acc.significand, true, acc.exponent + 1⟩ rest
      else wholeDigits ⟨acc.significand * 10 + d, false, acc.exponent⟩ rest

/-- Collects the digits behind the point. The first that does not fit ends the significand. -/
def fractionDigits (acc : Digits) (stopped : Bool) : List Char → Digits × List Char
  | [] => (acc, [])
  | c :: rest =>
    match digit? c with
    | none => (acc, c :: rest)
    | some d =>
      if stopped || wordBound ≤ acc.significand * 10 + d then fractionDigits acc true rest
      else fractionDigits ⟨acc.significand * 10 + d, acc.overflowed, acc.exponent - 1⟩ false rest

def exponentBound : Nat := 0x80000000

/-- The value of a run of digits, at most `exponentBound`, and what follows it; `none` when there is
no digit. -/
def natural? (acc : Option Nat) : List Char → Option Nat × List Char
  | [] => (acc, [])
  | c :: rest =>
    match digit? c with
    | none => (acc, c :: rest)
    | some d => natural? (some (min (acc.getD 0 * 10 + d) exponentBound)) rest

def pow10 (e : Nat) : Float := Float.ofScientific 1 false e

/-- Scales by a power of ten, in steps of at most 308 downwards; `none` if the result is too
large. -/
def scale? (f : Float) (exponent : Int) : Option Float :=
  if exponent < -308 then
    if f == 0 then some f else scale? (f / pow10 308) (exponent + 308)
  else if exponent < 0 then some (f / pow10 exponent.natAbs)
  else if exponent ≤ 308 then
    let scaled := f * pow10 exponent.toNat
    if scaled.isInf then none else some scaled
  else if f == 0 then some f else none
termination_by exponent.natAbs
decreasing_by omega

def float? (negative : Bool) (significand : Nat) (exponent : Int) : Option JsonNumber :=
  (scale? (UInt64.ofNat significand).toFloat exponent).map fun f =>
    .float (if negative then -f else f)

/-- Reads an optional exponent after `digits`, to the end of the text. -/
def finish? (negative : Bool) (digits : Digits) : List Char → Option JsonNumber
  | [] => float? negative digits.significand digits.exponent
  | e :: rest =>
    if e = 'e' ∨ e = 'E' then
      let (down, rest) :=
        match rest with
        | '+' :: rest => (false, rest)
        | '-' :: rest => (true, rest)
        | rest => (false, rest)
      match natural? none rest with
      | (some n, []) =>
        if n < exponentBound then
          float? negative digits.significand
            (if down then digits.exponent - n else digits.exponent + n)
        else if digits.significand ≠ 0 && !down then none
        else some (.float (if negative then -0.0 else 0.0))
      | _ => none
    else none

def hasLeadingZero : List Char → Bool
  | '0' :: c :: _ => (digit? c).isSome
  | _ => false

def unsigned? (negative : Bool) (text : List Char) : Option JsonNumber :=
  if hasLeadingZero text || !(text.head?.any fun c => (digit? c).isSome) then none
  else
    match wholeDigits ⟨0, false, 0⟩ text with
    | (digits, []) =>
      if digits.overflowed then float? negative digits.significand digits.exponent
      else if !negative then some (.integer digits.significand)
      else if 0 < digits.significand ∧ digits.significand ≤ 0x8000000000000000 then
        some (.integer (-digits.significand))
      else float? true digits.significand 0
    | (digits, '.' :: rest) =>
      if rest.head?.any fun c => (digit? c).isSome then
        let (digits, rest) := fractionDigits digits false rest
        finish? negative digits rest
      else none
    | (digits, rest) => finish? negative digits rest

def ofText? : List Char → Option JsonNumber
  | '-' :: rest => unsigned? true rest
  | text => unsigned? false text

end Registrar.JsonNumber
