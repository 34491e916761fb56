/-!
# Operators

`ScalarOp` holds the operators that plans and SQL share; a plan adds the multiset operators, SQL
adds the aggregates.  A multiset operator has no SQL form of its own and becomes a function call.
-/

namespace Pushdown

/-- Operators on scalars with one meaning in plans and in SQL. -/
inductive ScalarOp where
  | eq
  | notEq
  | lt
  | ltEq
  | gt
  | gtEq
  | and
  | or
  | not
  | plus
  | minus
  | times
  | divide
  | negate
  | isNull
  | isNotNull
  | like
  | caseWhen
  | cast (type : String)
  | function (name : String)
  deriving DecidableEq

namespace ScalarOp

/-- How tightly the operator binds; calls that bring their own brackets bind tightest. -/
def precedence : ScalarOp → Nat
  | .or => 1
  | .and => 2
  | .not => 3
  | .eq | .notEq | .lt | .ltEq | .gt | .gtEq | .isNull | .isNotNull | .like => 4
  | .plus | .minus => 5
  | .times | .divide => 6
  | .negate => 7
  | .caseWhen | .cast _ | .function _ => 255

/-- The symbol written between the two operands of an infix operator. -/
def infixSymbol? : ScalarOp → Option String
  | .eq => some "="
  | .notEq => some "<>"
  | .lt => some "<"
  | .ltEq => some "<="
  | .gt => some ">"
  | .gtEq => some ">="
  | .and => some "AND"
  | .or => some "OR"
  | .plus => some "+"
  | .minus => some "-"
  | .times => some "*"
  | .divide => some "/"
  | .like => some "LIKE"
  | _ => none

end ScalarOp

/-- Operators on multisets, which only plans have. -/
inductive MultisetOp where
  | collect
  | union
  | intersect
  | except
  | subset
  | member
  | cardinality
  | element
  deriving DecidableEq

/-- The SQL function that stands for a multiset operator. -/
def MultisetOp.functionName : MultisetOp → String
  | .collect => "MULTISET"
  | .union => "MULTISET_UNION"
  | .intersect => "MULTISET_INTERSECT"
  | .except => "MULTISET_EXCEPT"
  | .subset => "SUBMULTISET_OF"
  | .member => "MEMBER_OF"
  | .cardinality => "CARDINALITY"
  | .element => "ELEMENT"

/-- How two row sources are joined, in plans and in SQL. -/
inductive JoinKind where
  | inner
  | left
  | right
  | full
  deriving DecidableEq

end Pushdown
