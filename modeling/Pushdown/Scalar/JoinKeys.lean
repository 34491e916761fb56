import Pushdown.Scalar.Expr

/-!
# Keys of a join

A join condition is split into pairs of fields that have to be equal, one of either input, and
the conjuncts that are not of this form.
-/

namespace Pushdown

/-- A join condition taken apart.  A pair holds a field of the left input and a field of the
right input, each counted from the start of its own input. -/
structure JoinKeys where
  pairs : List (Nat × Nat)
  remaining : List Expr

namespace JoinKeys

/-- The ordinals of a joined row are 64-bit words, and so is its width. -/
def joinedWidth (left right : Nat) : Nat := (left + right) % UInt64.size

/-- The pair of fields that a conjunct equates, when it equates one field of either input. -/
def pair? (left right : Nat) : Expr → Option (Nat × Nat)
  | .call (.scalar .eq) [.input a, .input b] =>
    let width := joinedWidth left right
    if a < left ∧ left ≤ b ∧ b < width then some (a, b - left)
    else if b < left ∧ left ≤ a ∧ a < width then some (b, a - left)
    else none
  | _ => none

/-- The keys of a condition on inputs of `left` and `right` fields. -/
def ofCondition (left right : Nat) (condition : Expr) : JoinKeys :=
  let conjuncts := condition.conjuncts.filter (!·.isTrue)
  { pairs := conjuncts.filterMap (pair? left right)
    remaining := conjuncts.filter fun e => (pair? left right e).isNone }

/-- Whether the pairs are the whole condition. -/
def isEqui (keys : JoinKeys) : Bool := keys.remaining.isEmpty

/-- The fields of the left input that are keys, one for each pair. -/
def leftKeys (keys : JoinKeys) : List Nat := keys.pairs.map Prod.fst

/-- The fields of the right input that are keys, one for each pair. -/
def rightKeys (keys : JoinKeys) : List Nat := keys.pairs.map Prod.snd

end JoinKeys

end Pushdown
