import Pushdown.Error
import Pushdown.Fields
import Pushdown.Scalar.Expr

/-!
# Programs

A program computes a row from an input row: a list of shared expressions, a projection and an
optional condition, both of which point into the list.  Shared expressions may refer to one
another; `expand` replaces such references by what they stand for.

A chain of references that is longer than the list visits some entry twice, so `expand` follows
at most one more reference than the list has entries, and refuses a longer chain.
-/

namespace Pushdown

/-- A program, with the names of the fields of its rows on both sides. -/
structure Program where
  input : Fields
  exprs : List Expr
  projects : List Nat
  condition : Option Nat
  output : Fields

namespace Program

/-- Replaces references into `exprs`, following chains of at most `budget` of them. -/
def expandWithin (exprs : List Expr) : (budget : Nat) → Expr → Except Error Expr
  | 0, e => e.bindShared fun index => .error (.unknownShared index)
  | budget + 1, e => e.bindShared fun index =>
    match exprs[index]? with
    | some target => expandWithin exprs budget target
    | none => .error (.unknownShared index)

/-- The expression with all references to shared expressions replaced. -/
def expand (p : Program) (e : Expr) : Except Error Expr :=
  expandWithin p.exprs (p.exprs.length + 1) e

/-- The program, if all its references lead somewhere. -/
def check (p : Program) : Except Error Program := do
  if p.projects.length ≠ p.output.length then
    throw (.fieldOutOfRange p.projects.length p.output.length)
  match (p.projects ++ p.condition.toList).find? fun index => p.exprs.length ≤ index with
  | some index => throw (.unknownShared index)
  | none =>
    let _ ← p.exprs.mapM p.expand
    return p

/-- Places for projections: a field of an input of `width` fields has one already, and any other
expression is appended to the list.  Gives the list and the place of each projection. -/
def allot (width : Nat) : (exprs : List Expr) → (projects : List Expr) → List Expr × List Nat
  | exprs, [] => (exprs, [])
  | exprs, project :: rest =>
    match project.input? with
    | some ordinal =>
      if ordinal < width then
        let (exprs, places) := allot width exprs rest
        (exprs, ordinal :: places)
      else
        let (all, places) := allot width (exprs ++ [project]) rest
        (all, exprs.length :: places)
    | none =>
      let (all, places) := allot width (exprs ++ [project]) rest
      (all, exprs.length :: places)

/-- The program of the given projections and condition: its list has the input fields, then the
projections that are not input fields, then the condition. -/
def ofProjects (input : Fields) (projects : List Expr) (condition : Option Expr)
    (output : Fields) : Except Error Program :=
  let (exprs, places) := allot input.length ((List.range input.length).map .input) projects
  check
    { input
      exprs := exprs ++ condition.toList
      projects := places
      condition := condition.map fun _ => exprs.length
      output }

/-- The program that returns its input row. -/
def identity (input : Fields) : Program where
  input
  exprs := (List.range input.length).map .input
  projects := List.range input.length
  condition := none
  output := input

/-- Whether an expression of the program calls a multiset operator. -/
def hasMultiset (p : Program) : Bool := p.exprs.any Expr.hasMultiset

/-- The projections, expanded. -/
def projectExprs (p : Program) : Except Error (List Expr) :=
  p.projects.mapM fun index => p.expand (.shared index)

/-- The condition, expanded. -/
def conditionExpr (p : Program) : Except Error (Option Expr) :=
  match p.condition with
  | none => .ok none
  | some index => some <$> p.expand (.shared index)

/-- Whether the projection gives the input row as it is: the same fields under the same names. -/
def isStar (p : Program) : Bool :=
  p.projects.length == p.input.length && p.output == p.input &&
    match p.projectExprs with
    | .ok exprs => Expr.isIdentity exprs p.input.length
    | .error _ => false

end Program

end Pushdown
