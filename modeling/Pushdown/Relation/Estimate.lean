import Pushdown.Relation.Unique

/-!
# Estimates of rows and cost

Row counts are guessed from the counts of the inputs, and a condition by the shape of its
conjuncts.  The cost of a node is that of the node alone; a remote union is made cheap so that it
is preferred.
-/

namespace Pushdown

/-- The lesser of two numbers; of a number and a NaN, the number. -/
def lesser (x y : Float) : Float := if x.isNaN then y else if y < x then y else x

/-- `x`, but at least zero; zero for a NaN. -/
def atLeastZero (x : Float) : Float := if 0 < x then x else 0

/-- What a node is thought to cost. -/
structure Cost where
  rows : Float
  cpu : Float
  io : Float

namespace Cost

/-- No cost. -/
def zero : Cost := ⟨0, 0, 0⟩

/-- The cost of both. -/
def plus (a b : Cost) : Cost := ⟨a.rows + b.rows, a.cpu + b.cpu, a.io + b.io⟩

/-- The cost of so many times as much. -/
def multiplyBy (c : Cost) (factor : Float) : Cost :=
  ⟨c.rows * factor, c.cpu * factor, c.io * factor⟩

/-- Costs are compared by their rows, which dominate. -/
def isLe (a b : Cost) : Bool := a.rows ≤ b.rows

/-- Whether the costs agree as numbers. -/
def sameValue (a b : Cost) : Bool := a.rows == b.rows && a.cpu == b.cpu && a.io == b.io

end Cost

/-- The share of rows that a conjunct is guessed to keep. -/
def conjunctSelectivity : Expr → Float
  | .call (.scalar .isNotNull) _ => 0.9
  | .call (.scalar .eq) _ => 0.15
  | .call (.scalar .lt) _ | .call (.scalar .ltEq) _ | .call (.scalar .gt) _
  | .call (.scalar .gtEq) _ => 0.5
  | _ => 0.25

/-- The share of rows that a condition is guessed to keep. -/
def guessSelectivity : Option Expr → Float
  | none => 1
  | some condition =>
    ((condition.conjuncts.filter (!·.isTrue)).map conjunctSelectivity).foldl (· * ·) 1

/-- Where estimates take their numbers from. -/
structure Statistics where
  tableRows : Table → Float := fun table => table.rowCount.getD 100
  selectivity : Option Expr → Float := guessSelectivity

/-- `2 ^ -n`. -/
def halved : Nat → Float
  | 0 => 1
  | n + 1 => halved n * 0.5

/-- The rows of a set operation, from the rows of its inputs. -/
def setRows (kind : SetKind) (all : Bool) (inputs : List Float) : Float :=
  match kind, inputs with
  | .union, inputs =>
    let rows := inputs.foldl (· + ·) (-0.0)
    if all then rows else rows * 0.5
  | .intersect, first :: rest => rest.foldl lesser first * 0.25
  | .minus, first :: rest =>
    atLeastZero (rest.foldl (fun rows other => rows - 0.5 * other) first)
  | _, [] => 0

namespace RemotePlan

mutual

/-- The number of rows that the plan is guessed to return. -/
def rows (stats : Statistics) : RemotePlan → Float
  | ⟨_, _, op⟩ =>
    match op with
    | .scan table => stats.tableRows table
    | .join left right _ _ keys =>
      let leftRows := left.rows stats
      let rightRows := right.rows stats
      match left.isUniqueOn (keys.map Prod.fst), right.isUniqueOn (keys.map Prod.snd) with
      | true, true => lesser leftRows rightRows
      | true, false => rightRows
      | false, true => leftRows
      | false, false => leftRows * rightRows
    | .filter input condition => input.rows stats * stats.selectivity (some condition)
    | .calculate input program =>
      input.rows stats * stats.selectivity (program.conditionExpr.toOption.join)
    | .aggregate input groupSet _ _ =>
      if groupSet.isEmpty then 1 else input.rows stats * (1 - halved groupSet.length)
    | .set kind inputs all => setRows kind all (rowsAll stats inputs)
    | .values tuples => Float.ofNat tuples.length
    | .project input _ | .sort input _ | .modify _ input .. => input.rows stats

def rowsAll (stats : Statistics) : List RemotePlan → List Float
  | [] => []
  | plan :: rest => plan.rows stats :: rowsAll stats rest

end

/-- The cost of the node alone.  A condition or a program costs a step for each of its nodes or
entries and each input row. -/
def selfCost (stats : Statistics) (makeCost : Float → Float → Float → Cost) (p : RemotePlan) :
    Cost :=
  let rows := p.rows stats
  match p.op with
  | .filter input condition =>
    makeCost rows (input.rows stats * Float.ofNat condition.size) 0
  | .calculate input program =>
    makeCost rows (input.rows stats * Float.ofNat program.exprs.length) 0
  | .set .union .. => (makeCost rows 0 0).multiplyBy 0.1
  | _ => makeCost rows 0 0

end RemotePlan

end Pushdown
