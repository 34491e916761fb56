import Mathlib.Data.Multiset.Bind
import Mathlib.Data.Multiset.Dedup
import Pushdown.Compile.Scope
import Pushdown.Relation.RemotePlan

/-!
# The rows of a plan

What a plan computes, as bags of rows over any values.  An `Interpretation` says what literals,
operators and aggregate functions mean, in plans and in SQL, and what counts as true; the two
sides have to agree on what the compiler translates.

`RemotePlan.eval` is the relational algebra of the operators: each is a function of the bags of
its inputs.  Order is no part of it.
-/

namespace Pushdown

/-- The values of a row, field by field. -/
abbrev Row (V : Type) := List V

/-- Rows without order, each as often as it occurs. -/
abbrev Bag (V : Type) := Multiset (Row V)

/-- A meaning of scalars, the same for every row.  An operator of a plan and its image in SQL mean
the same, and so do an aggregate function and its name in upper case. -/
structure Interpretation (V : Type) where
  literal : Literal → V
  isTrue : V → Bool
  planCall : PlanOp → List V → V
  sqlCall : ScalarOp → List V → V
  planAggregate : (function : String) → (distinct : Bool) → Bag V → V
  sqlAggregate : (function : String) → (distinct : Bool) → Bag V → V
  isTrue_true : isTrue (literal (.boolean true)) = true
  isTrue_and : ∀ operands, isTrue (sqlCall .and operands) = operands.all isTrue
  eq_symm : ∀ v w, sqlCall .eq [v, w] = sqlCall .eq [w, v]
  planCall_eq : ∀ op image operands, op.toSql = .scalar image →
    planCall op operands = sqlCall image operands
  planAggregate_eq : ∀ function distinct rows,
    planAggregate function distinct rows = sqlAggregate (Text.upper function) distinct rows

/-- The value of a field that is not there. -/
def Interpretation.null {V : Type} (I : Interpretation V) : V := I.literal .null

variable {V : Type}

/-! ## Expressions -/

mutual

/-- The value of an expression on a row, given the values of shared expressions. -/
def Expr.value (I : Interpretation V) (shared : Nat → V) (row : Row V) : Expr → V
  | .literal value => I.literal value
  | .input ordinal => row.getD ordinal I.null
  | .shared index => shared index
  | .call op operands => I.planCall op (Expr.values I shared row operands)

def Expr.values (I : Interpretation V) (shared : Nat → V) (row : Row V) : List Expr → List V
  | [] => []
  | e :: rest => e.value I shared row :: Expr.values I shared row rest

end

@[simp] theorem Expr.values_eq_map (I : Interpretation V) (shared : Nat → V) (row : Row V)
    (es : List Expr) : Expr.values I shared row es = es.map (Expr.value I shared row) := by
  induction es with
  | nil => simp [Expr.values]
  | cons e rest ih => simp [Expr.values, ih]

/-- The value of an expression outside a program, where nothing is shared. -/
def Expr.valueOn (I : Interpretation V) (row : Row V) (e : Expr) : V :=
  e.value I (fun _ => I.null) row

namespace Program

/-- The value of a shared expression, through chains of at most `budget` references. -/
def sharedValue (I : Interpretation V) (exprs : List Expr) (row : Row V) :
    (budget : Nat) → Nat → V
  | 0, _ => I.null
  | budget + 1, index =>
    match exprs[index]? with
    | some e => e.value I (sharedValue I exprs row budget) row
    | none => I.null

/-- The value of an entry of the program's list. -/
def valueAt (I : Interpretation V) (p : Program) (row : Row V) (index : Nat) : V :=
  sharedValue I p.exprs row (p.exprs.length + 1) index

/-- Whether the program returns a row for this one. -/
def keeps (I : Interpretation V) (p : Program) (row : Row V) : Bool :=
  p.condition.all fun index => I.isTrue (p.valueAt I row index)

/-- The row that the program returns. -/
def outputRow (I : Interpretation V) (p : Program) (row : Row V) : Row V :=
  p.projects.map (p.valueAt I row)

end Program

/-! ## Operations on bags -/

namespace Bag

/-- The pairs of rows for which the condition holds; an outer join adds the rows without a
partner, next to as many nulls as the other side has fields. -/
def join (null : V) (kind : JoinKind) (leftWidth rightWidth : Nat) (on : Row V → Bool)
    (left right : Bag V) : Bag V :=
  let matched := left.bind fun l => (right.filter fun r => on (l ++ r)).map (l ++ ·)
  let leftOnly := (left.filter fun l => ∀ r ∈ right, on (l ++ r) = false).map
    (· ++ List.replicate rightWidth null)
  let rightOnly := (right.filter fun r => ∀ l ∈ left, on (l ++ r) = false).map
    (List.replicate leftWidth null ++ ·)
  match kind with
  | .inner => matched
  | .left => matched + leftOnly
  | .right => matched + rightOnly
  | .full => matched + leftOnly + rightOnly

variable [DecidableEq V]

/-- The rows by their keys, one group for each key that occurs. -/
def groups (key : Row V → Row V) (rows : Bag V) : Multiset (Row V × Bag V) :=
  (rows.map key).dedup.map fun k => (k, rows.filter fun row => key row = k)

end Bag

/-- Bags combined by a set operation, from left to right.  Without `all` a row occurs at most once
in the result. -/
def SetKind.combine [DecidableEq V] (kind : SetKind) (all : Bool) : List (Bag V) → Bag V
  | [] => 0
  | first :: rest =>
    match kind, all with
    | .union, true => rest.foldl (· + ·) first
    | .union, false => (rest.foldl (· + ·) first).dedup
    | .intersect, true => rest.foldl (· ∩ ·) first
    | .intersect, false => (rest.foldl (· ∩ ·) first).dedup
    | .minus, true => rest.foldl (· - ·) first
    | .minus, false => first.dedup.filter fun row => ∀ other ∈ rest, row ∉ other

/-- The value of an aggregate call on a group. -/
def AggregateCall.value (I : Interpretation V) (call : AggregateCall) (rows : Bag V) : V :=
  I.planAggregate call.function call.distinct
    (rows.map fun row => call.args.map fun argument => row.getD argument I.null)

/-- One row per group for each grouping set: the group columns, null where the set does not have
them, and the aggregates.  The empty grouping set makes one group, also of no rows. -/
def Bag.aggregate [DecidableEq V] (I : Interpretation V) (groupSet : List Nat)
    (groupingSets : List (List Nat)) (calls : List AggregateCall) (rows : Bag V) : Bag V :=
  (groupingSets : Multiset (List Nat)).bind fun columns =>
    let key (row : Row V) : Row V :=
      groupSet.map fun column => if column ∈ columns then row.getD column I.null else I.null
    let groups := if columns.isEmpty then {(key [], rows)} else Bag.groups key rows
    groups.map fun group => group.1 ++ calls.map fun call => call.value I group.2

/-! ## Plans -/

namespace RemotePlan

mutual

/-- The rows of a plan over a database, which has a bag of rows for each table. -/
def eval [DecidableEq V] (I : Interpretation V) (db : List String → Bag V) : RemotePlan → Bag V
  | ⟨_, _, op⟩ =>
    match op with
    | .scan table => db table.name
    | .join left right condition kind _ =>
      Bag.join I.null kind left.fields.length right.fields.length
        (fun row => I.isTrue (condition.valueOn I row)) (left.eval I db) (right.eval I db)
    | .filter input condition =>
      (input.eval I db).filter fun row => I.isTrue (condition.valueOn I row)
    | .project input projects =>
      (input.eval I db).map fun row => projects.map (Expr.valueOn I row)
    | .calculate input program =>
      ((input.eval I db).filter fun row => program.keeps I row).map (program.outputRow I)
    | .aggregate input groupSet groupingSets calls =>
      Bag.aggregate I groupSet groupingSets calls (input.eval I db)
    | .sort input _ => input.eval I db
    | .set kind inputs all => kind.combine all (evalAll I db inputs)
    | .values tuples => tuples.map fun tuple => tuple.map I.literal
    -- A change of a table reads no rows for its caller.
    | .modify .. => 0

def evalAll [DecidableEq V] (I : Interpretation V) (db : List String → Bag V) :
    List RemotePlan → List (Bag V)
  | [] => []
  | plan :: rest => plan.eval I db :: evalAll I db rest

end

@[simp] theorem evalAll_eq_map [DecidableEq V] (I : Interpretation V) (db : List String → Bag V)
    (plans : List RemotePlan) : evalAll I db plans = plans.map (eval I db) := by
  induction plans with
  | nil => simp [evalAll]
  | cons plan rest ih => simp [evalAll, ih]

end RemotePlan

end Pushdown
