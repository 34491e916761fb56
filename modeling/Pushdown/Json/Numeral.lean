import Pushdown.Json.Value

/-!
# Numbers in JSON text

A number is read digit by digit into a 64-bit significand.  Digits that no longer fit only move
the power of ten, or are dropped behind the point.  The significand is then rounded to a double
and multiplied or divided by the power of ten, with one rounding per step; so a number of many
digits may end one unit away from the nearest double.
-/

namespace Pushdown.Json

/-- A number as it is written: digits before and behind the point, and the exponent. -/
structure Numeral where
  negative : Bool
  whole : List Nat
  fraction : Option (List Nat)
  exponent : Option (Bool × List Nat)

/-- Appends digits to a significand as long as it stays below `limit`; the second part holds the
digits that were left. -/
def absorb (limit : Nat) : Nat → List Nat → Nat × List Nat
  | significand, [] => (significand, [])
  | significand, digit :: rest =>
    if significand * 10 + digit < limit then absorb limit (significand * 10 + digit) rest
    else (significand, digit :: rest)

/-- `f * 10 ^ power`, or `none` beyond the doubles.  A power below `10 ^ -308` is divided out in
steps; after two of them every significand has become zero. -/
def scale (f : Float) (power : Int) : (steps : Nat) → Option Float
  | 0 => some 0
  | steps + 1 =>
    if power.natAbs ≤ 308 then
      let factor := Float.ofScientific 1 false power.natAbs
      if 0 ≤ power then
        if (f * factor).isInf then none else some (f * factor)
      else some (f / factor)
    else if f == 0 then some f
    else if 0 ≤ power then none
    else scale (f / 1e308) (power + 308) steps

/-- The double `significand * 10 ^ power` with a sign, if it is in range. -/
def decimal (negative : Bool) (significand : Nat) (power : Int) : Json :=
  match scale significand.toUInt64.toFloat power 4 with
  | some f => .double (.ofFloat (if negative then -f else f))
  | none => .unreadable

namespace Numeral

/-- The number as an integer: those without a point and an exponent that fit in 64 bits, except
for a zero with a minus sign. -/
def integer? (n : Numeral) : Option Int :=
  match n.fraction, n.exponent, absorb UInt64.size 0 n.whole with
  | none, none, (significand, []) =>
    if !n.negative then some significand
    else if 0 < significand ∧ significand ≤ 0x8000000000000000 then some (-significand)
    else none
  | _, _, _ => none

/-- The number as a double. -/
def toDouble (n : Numeral) : Json :=
  let (whole, surplus) := absorb UInt64.size 0 n.whole
  let fraction := n.fraction.getD []
  let (significand, dropped) := absorb UInt64.size whole fraction
  let power : Int := surplus.length - (fraction.length - dropped.length : Nat)
  match n.exponent with
  | none => decimal n.negative significand power
  | some (below, digits) =>
    match absorb 0x80000000 0 digits with
    | (exponent, []) =>
      decimal n.negative significand (if below then power - exponent else power + exponent)
    | _ => if significand != 0 && !below then .unreadable else decimal n.negative 0 0

/-- The value of the number. -/
def value (n : Numeral) : Json :=
  match n.integer? with
  | some i => .integer i
  | none => n.toDouble

end Numeral

end Pushdown.Json
