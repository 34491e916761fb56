/-!
# Clauses of a query in the making

The clauses of a `SELECT` take effect in a fixed order.  A query that has used a clause can still
take a later one; for the same clause or an earlier one it has to be wrapped as a derived table
of a new query.  A set operation stands outside this order and is always wrapped.
-/

namespace Pushdown

/-- The clauses of a `SELECT`, and the set operation that stands outside their order. -/
inductive Clause where
  | select
  | source
  | selection
  | groupBy
  | having
  | orderBy
  | setOp
  deriving DecidableEq

namespace Clause

/-- The place of a clause in the order; a set operation comes last. -/
def rank : Clause → Nat
  | .select => 0
  | .source => 1
  | .selection => 2
  | .groupBy => 3
  | .having => 4
  | .orderBy => 5
  | .setOp => 6

/-- All clauses in order. -/
def all : List Clause := [.select, .source, .selection, .groupBy, .having, .orderBy, .setOp]

theorem mem_all (c : Clause) : c ∈ all := by cases c <;> decide

end Clause

/-- The clauses that a query has used. -/
@[ext]
structure ClauseSet where
  contains : Clause → Bool

namespace ClauseSet

/-- No clause used. -/
def empty : ClauseSet := ⟨fun _ => false⟩

/-- The clauses used once `c` is too. -/
def insert (s : ClauseSet) (c : Clause) : ClauseSet := ⟨fun d => d == c || s.contains d⟩

def insertAll (s : ClauseSet) (clauses : List Clause) : ClauseSet := clauses.foldl insert s

/-- Just these clauses used. -/
def ofList (clauses : List Clause) : ClauseSet := empty.insertAll clauses

/-- The clauses of the set, in order. -/
def toList (s : ClauseSet) : List Clause := Clause.all.filter s.contains

/-- Whether a query with these clauses cannot take `c`. -/
def conflicts (s : ClauseSet) (c : Clause) : Bool :=
  s.contains .setOp || s.toList.any fun used => used != .setOp && decide (c.rank ≤ used.rank)

/-- Whether a query with these clauses cannot take all of `requested`. -/
def needsWrap (s : ClauseSet) (requested : List Clause) : Bool := requested.any s.conflicts

theorem mem_toList {s : ClauseSet} {c : Clause} : c ∈ s.toList ↔ s.contains c = true := by
  simp [toList, Clause.mem_all]

theorem contains_insert (s : ClauseSet) (c d : Clause) :
    (s.insert c).contains d = (d == c || s.contains d) := rfl

theorem contains_insertAll (s : ClauseSet) (clauses : List Clause) (d : Clause) :
    (s.insertAll clauses).contains d = (clauses.contains d || s.contains d) := by
  induction clauses generalizing s with
  | nil => simp [insertAll]
  | cons c rest ih =>
    have := ih (s.insert c)
    simp only [insertAll, List.foldl_cons] at this ⊢
    rw [this, contains_insert, List.contains_cons]
    cases d == c <;> cases rest.contains d <;> rfl

end ClauseSet

end Pushdown
