import Pushdown.Literal
import Pushdown.Operator

/-!
# Scalar expressions of a plan

An expression refers to fields of its input row by position, and, inside a program, to entries of
the program's list of shared expressions.
-/

namespace Pushdown

/-- Operators of a plan's expressions. -/
inductive PlanOp where
  | scalar (op : ScalarOp)
  | multiset (op : MultisetOp)
  deriving DecidableEq

def PlanOp.isMultiset : PlanOp → Bool
  | .multiset _ => true
  | .scalar _ => false

/-- An expression over the fields of a row. -/
inductive Expr where
  | literal (value : Literal)
  /-- A field of the input row. -/
  | input (ordinal : Nat)
  /-- An entry in the expression list of the enclosing program. -/
  | shared (index : Nat)
  | call (op : PlanOp) (operands : List Expr)

namespace Expr

instance : Inhabited Expr := ⟨.literal .null⟩

/-- A truth value as an expression. -/
def ofBool (value : Bool) : Expr := .literal (.boolean value)

/-- A call of an operator that SQL has too. -/
def scalarCall (op : ScalarOp) (operands : List Expr) : Expr := .call (.scalar op) operands

/-- The conjunction of the expressions: the only one of one, and truth for none. -/
def conjunction : List Expr → Expr
  | [] => ofBool true
  | [only] => only
  | conjuncts => scalarCall .and conjuncts

/-- Whether the expression is the literal truth. -/
def isTrue : Expr → Bool
  | .literal (.boolean true) => true
  | _ => false

/-- The ordinal of an expression that is a field of the input row. -/
def input? : Expr → Option Nat
  | .input ordinal => some ordinal
  | _ => none

mutual

/-- The parts of a conjunction, with nested conjunctions opened. -/
def conjuncts : Expr → List Expr
  | .call (.scalar .and) operands => conjunctsAll operands
  | e => [e]

def conjunctsAll : List Expr → List Expr
  | [] => []
  | e :: rest => e.conjuncts ++ conjunctsAll rest

end

mutual

/-- Whether a multiset operator occurs anywhere in the expression. -/
def hasMultiset : Expr → Bool
  | .call op operands => op.isMultiset || anyMultiset operands
  | _ => false

def anyMultiset : List Expr → Bool
  | [] => false
  | e :: rest => e.hasMultiset || anyMultiset rest

end

mutual

/-- The number of nodes, this one included. -/
def size : Expr → Nat
  | .call _ operands => 1 + sizeAll operands
  | _ => 1

def sizeAll : List Expr → Nat
  | [] => 0
  | e :: rest => e.size + sizeAll rest

end

mutual

/-- The input fields that the expression refers to, from left to right. -/
def inputs : Expr → List Nat
  | .input ordinal => [ordinal]
  | .call _ operands => inputsAll operands
  | _ => []

def inputsAll : List Expr → List Nat
  | [] => []
  | e :: rest => e.inputs ++ inputsAll rest

end

/-- The largest input field that the expression refers to. -/
def maxInput? (e : Expr) : Option Nat := e.inputs.max?

mutual

/-- The shared expressions that the expression refers to, from left to right. -/
def sharedRefs : Expr → List Nat
  | .shared index => [index]
  | .call _ operands => sharedRefsAll operands
  | _ => []

def sharedRefsAll : List Expr → List Nat
  | [] => []
  | e :: rest => e.sharedRefs ++ sharedRefsAll rest

end

mutual

/-- The expression with every reference to a shared expression replaced by what `resolve` gives
for it; the first failure, from the left, is the failure of the whole. -/
def bindShared {ε : Type} (resolve : Nat → Except ε Expr) : Expr → Except ε Expr
  | .shared index => resolve index
  | .call op operands => do return .call op (← bindSharedAll resolve operands)
  | e => .ok e

def bindSharedAll {ε : Type} (resolve : Nat → Except ε Expr) : List Expr → Except ε (List Expr)
  | [] => .ok []
  | e :: rest => do return (← e.bindShared resolve) :: (← bindSharedAll resolve rest)

end

/-- Whether the expressions are the fields of an input of `width` fields, each in its place. -/
def isIdentity (exprs : List Expr) (width : Nat) : Bool :=
  exprs.length == width && exprs.map input? == (List.range exprs.length).map some

/-! ## The helpers on lists are the list functions -/

@[simp] theorem conjunctsAll_eq_flatMap (es : List Expr) :
    conjunctsAll es = es.flatMap conjuncts := by
  induction es with
  | nil => simp [conjunctsAll]
  | cons e rest ih => simp [conjunctsAll, ih]

@[simp] theorem anyMultiset_eq_any (es : List Expr) : anyMultiset es = es.any hasMultiset := by
  induction es with
  | nil => simp [anyMultiset]
  | cons e rest ih => simp [anyMultiset, ih]

@[simp] theorem sizeAll_eq_foldr (es : List Expr) :
    sizeAll es = es.foldr (fun e total => e.size + total) 0 := by
  induction es with
  | nil => simp [sizeAll]
  | cons e rest ih => simp [sizeAll, ih]

@[simp] theorem inputsAll_eq_flatMap (es : List Expr) : inputsAll es = es.flatMap inputs := by
  induction es with
  | nil => simp [inputsAll]
  | cons e rest ih => simp [inputsAll, ih]

@[simp] theorem sharedRefsAll_eq_flatMap (es : List Expr) :
    sharedRefsAll es = es.flatMap sharedRefs := by
  induction es with
  | nil => simp [sharedRefsAll]
  | cons e rest ih => simp [sharedRefsAll, ih]

@[simp] theorem bindSharedAll_eq_mapM {ε : Type} (resolve : Nat → Except ε Expr)
    (es : List Expr) : bindSharedAll resolve es = es.mapM (bindShared resolve) := by
  induction es with
  | nil => simp [bindSharedAll]; rfl
  | cons e rest ih => simp [bindSharedAll, ih]

end Expr

end Pushdown
