import Pushdown.Number.Binary64

/-!
# The shortest decimal that reads back

Every finite positive number `m * 2 ^ q` is the nearest one to all reals of an interval around
it.  Among the grids of multiples of `10 ^ k`, `shortest` takes the coarsest that meets this
interval, and on it the point nearest to the number; of two points equally near it takes the
upper.  The decimal `digits * 10 ^ power` so found has the fewest digits that read back.

`Binary64.text` writes it positionally while the number is at least `10 ^ -4` and below
`10 ^ 16`, always with a fraction, and in scientific form otherwise.
-/

namespace Pushdown

/-- The decimal number `digits * 10 ^ power`. -/
structure Decimal where
  digits : Nat
  power : Int
  deriving DecidableEq

namespace Binary64

/-- The reals that round to a number, on the scale where the number is `value` and a grid point
`c * 10 ^ k` is `c * step`.  The two ends belong to it when the mantissa is even. -/
structure Rounding where
  value : Nat
  below : Nat
  above : Nat
  step : Nat
  closed : Bool

/-- The rounding interval of `x`, scaled to the grid of multiples of `10 ^ k`.  Below a power of
two the neighbour is nearer, except at the bottom of the exponent range. -/
def rounding (x : Binary64) (k : Int) : Rounding :=
  let scale := Nat.pow 2 x.exponent.toNat * Nat.pow 10 (-k).toNat
  let gap := if x.fraction = 0 ∧ 1 < x.biasedExponent then 1 else 2
  { value := 4 * x.mantissa * scale
    below := (4 * x.mantissa - gap) * scale
    above := (4 * x.mantissa + 2) * scale
    step := 4 * (Nat.pow 2 (-x.exponent).toNat * Nat.pow 10 k.toNat)
    closed := x.mantissa % 2 == 0 }

/-- Whether the grid point `c * step` rounds to the number. -/
def Rounding.holds (r : Rounding) (c : Nat) : Bool :=
  let point := c * r.step
  if r.closed then decide (r.below ≤ point) && decide (point ≤ r.above)
  else decide (r.below < point) && decide (point < r.above)

/-- The grid point that reads back and lies nearest to the number, if the grid has one. -/
def Rounding.nearest (r : Rounding) : Option Nat :=
  let low := r.value / r.step
  let high := low + 1
  match r.holds low, r.holds high with
  | true, true => if r.value - low * r.step < high * r.step - r.value then some low else some high
  | true, false => some low
  | false, true => some high
  | false, false => none

/-- The first grid from `10 ^ k` downwards, over `steps` powers, with a point that reads back. -/
def firstGrid (x : Binary64) : (steps : Nat) → (k : Int) → Decimal
  | 0, k => ⟨((x.rounding k).value / (x.rounding k).step), k⟩
  | steps + 1, k =>
    match (x.rounding k).nearest with
    | some digits => ⟨digits, k⟩
    | none => firstGrid x steps (k - 1)

/-- The shortest decimal that reads back as the positive finite number `x`.  No number reaches
`10 ^ 309`, and each is a multiple of `10 ^ -1074`; seventeen digits always suffice. -/
def shortest (x : Binary64) : Decimal := x.firstGrid 650 309

end Binary64

namespace Decimal

/-- The decimal digits of the digit part. -/
def figures (d : Decimal) : List Char := Nat.toDigits 10 d.digits

/-- The power of ten of the leading digit. -/
def leading (d : Decimal) : Int := d.power + (d.figures.length - 1 : Int)

/-- Digits with a point among them, and at least one digit on either side of it. -/
def positional (d : Decimal) : List Char :=
  let figures := d.figures
  if 0 ≤ d.power then
    figures ++ List.replicate d.power.toNat '0' ++ ['.', '0']
  else
    let places := (-d.power).toNat
    if places < figures.length then
      figures.take (figures.length - places) ++ '.' :: figures.drop (figures.length - places)
    else
      '0' :: '.' :: List.replicate (places - figures.length) '0' ++ figures

/-- One digit, the others behind a point if there are any, and the power of ten. -/
def scientific (d : Decimal) : List Char :=
  let mantissa :=
    match d.figures with
    | first :: second :: rest => first :: '.' :: second :: rest
    | short => short
  mantissa ++ 'e' :: (toString d.leading).toList

end Decimal

namespace Binary64

/-- The text of a number without its sign. -/
def unsignedText (x : Binary64) : String :=
  if x.isNaN then "NaN"
  else if !x.isFinite then "inf"
  else if x.isZero then "0.0"
  else
    let d := x.shortest
    String.ofList (if -4 ≤ d.leading ∧ d.leading < 16 then d.positional else d.scientific)

/-- Whether the text of a number opens with a minus sign. -/
def hasMinus (x : Binary64) : Bool := x.isNegative && !x.isNaN

/-- The text of a number. -/
def text (x : Binary64) : String :=
  if x.hasMinus then "-" ++ x.unsignedText else x.unsignedText

end Binary64

end Pushdown
