/-!
# Binary64 numbers as words

A double inside a literal is data: it is stored, compared, printed and carried through JSON,
never computed with.  So it is kept as its 64 bits, which makes equality of literals decidable
and lets every statement about printing be made in `Nat`.

`sameValue` is the comparison of the IEEE standard, under which a NaN differs from itself and
the two zeros agree; `=` is equality of bit patterns.
-/

namespace Pushdown

/-- A binary64 number, given by its bits. -/
structure Binary64 where
  bits : UInt64
  deriving DecidableEq, Inhabited

namespace Binary64

/-- The sign bit; set for `-0.0` and for some NaNs too. -/
def isNegative (x : Binary64) : Bool := decide (0x8000000000000000 ≤ x.bits.toNat)

/-- The bits below the sign. -/
def magnitude (x : Binary64) : Nat := x.bits.toNat % 0x8000000000000000

/-- The eleven exponent bits. -/
def biasedExponent (x : Binary64) : Nat := x.magnitude / 0x10000000000000

/-- The fifty-two bits of the fraction. -/
def fraction (x : Binary64) : Nat := x.magnitude % 0x10000000000000

/-- Infinities and NaNs have all exponent bits set. -/
def isFinite (x : Binary64) : Bool := x.biasedExponent != 2047

/-- What a NaN has beyond an infinity is a fraction. -/
def isNaN (x : Binary64) : Bool := x.biasedExponent == 2047 && x.fraction != 0

/-- Either of the two zeros. -/
def isZero (x : Binary64) : Bool := x.magnitude == 0

/-- The integer `m` of the value `m * 2 ^ q` of a finite number. -/
def mantissa (x : Binary64) : Nat :=
  if x.biasedExponent = 0 then x.fraction else 0x10000000000000 + x.fraction

/-- The power `q` of the value `m * 2 ^ q` of a finite number. -/
def exponent (x : Binary64) : Int :=
  if x.biasedExponent = 0 then -1074 else x.biasedExponent - 1075

/-- Agreement as numbers: a NaN agrees with nothing, and the zeros agree. -/
def sameValue (x y : Binary64) : Bool :=
  !x.isNaN && !y.isNaN && (x == y || (x.isZero && y.isZero))

/-- The bits of a float. -/
def ofFloat (x : Float) : Binary64 := ⟨x.toBits⟩

/-- The float of the bits. -/
def toFloat (x : Binary64) : Float := Float.ofBits x.bits

end Binary64

end Pushdown
