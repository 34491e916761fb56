import Pushdown.Proofs.Compile.Requirement

/-!
# Keys of queries

A database reads a literal among the keys of a `GROUP BY` or an `ORDER BY` as the position of a
column.  No statement has one there: a clause repeats either the columns of a new query or items
of the select list that are not constant (`Drafted.isLiteral_of_field`), and a flag that places
nulls is a call (`Dialect.isLiteral_of_mem_orderItems`).
-/

namespace Pushdown

open Sql (Node Select OrderItem Requirement)

namespace Sql

/-- No key by which the query groups or orders is a literal. -/
def Select.KeysVary (query : Select) : Prop :=
  (∀ keys ∈ query.groupBy, ∀ key ∈ keys, key.isLiteral = false) ∧
    ∀ items ∈ query.orderBy, ∀ item ∈ items, item.expr.isLiteral = false

/-- The keys of queries are no literals. -/
def Requirement.varyingKeys : Requirement where
  groupBy keys := ∀ key ∈ keys, key.isLiteral = false
  orderBy items := ∀ item ∈ items, item.expr.isLiteral = false

theorem Requirement.keysVary_of_met {node : Node} (met : varyingKeys.Met node) :
    ∀ query ∈ node.selects, query.KeysVary :=
  fun query member => met (.select query) (Node.mem_selects_iff.mp member)

/-- The keys that order by an expression are no literals, unless it is one. -/
theorem Dialect.isLiteral_of_mem_orderItems {dialect : Dialect} {node : Node} {descending : Bool}
    {nulls : Option NullsOrder} (varies : node.isLiteral = false) :
    ∀ item ∈ dialect.orderItems node descending nulls, item.expr.isLiteral = false := by
  have flag (key : Node) (found : dialect.nullKey? node = some key) : key.isLiteral = false := by
    unfold Dialect.nullKey? Node.scalarCall at found
    split at found
    · cases found
    · cases found
      rfl
    · cases found
      rfl
  unfold Dialect.orderItems
  split
  · simpa using varies
  · split
    · simpa using varies
    · rename_i key found
      simpa using ⟨flag key found, varies⟩

end Sql

/-- Every aggregate and every sort writes keys that are no literals. -/
theorem varyingKeys_readOff (dialect : Sql.Dialect) :
    Requirement.varyingKeys.ReadOff dialect fun _ => True where
  aggregate _ drafted grouped _ := by
    refine iff_of_true trivial fun key member => ?_
    rcases Except.exists_of_mem_mapM grouped member with ⟨ordinal, among, found⟩
    exact drafted.isLiteral_of_field among found
  sort _ drafted ordered := by
    refine iff_of_true trivial fun item member => ?_
    rcases Scope.exists_of_mem_ordering ordered member with ⟨key, among, node, found, listed⟩
    exact Sql.Dialect.isLiteral_of_mem_orderItems
      (drafted.isLiteral_of_field (List.mem_map_of_mem among) found) item listed
  set _ := Iff.rfl
  rows := Iff.rfl
  silent _ _ _ := trivial

/-- Whatever a plan is and whatever names are taken, in no dialect has the statement a literal
among the keys of a query. -/
theorem RemotePlan.keys_vary {p : RemotePlan} {dialect : Sql.Dialect} {names : Aliases}
    {s : Sql.Statement} (compiled : ((p.compileWith dialect).run.run names).1 = .ok s) :
    ∀ query ∈ s.root.selects, query.KeysVary := by
  have run : Gives (p.compileWith dialect) names s ((p.compileWith dialect).run.run names).2 :=
    Prod.ext compiled rfl
  have everywhere : p.Everywhere fun _ => True := fun _ _ => trivial
  exact Requirement.keysVary_of_met
    ((statement_meets (varyingKeys_readOff dialect) run).mpr everywhere)

namespace Staff

/-- A copy of the database that cannot place nulls. -/
def replica : Convention := ⟨"hr", .ofProduct .mySql⟩

/-- The bosses, grouped along with a constant and ordered by another. -/
def labelled : Plan :=
  .sort
    (.project
      (.aggregate
        (.project (.scan employees) [.literal (.integer 1), .input 1] ["level", "boss"])
        [0, 1] [[0, 1]] [])
      [.input 1, .literal (.integer 2)] ["boss", "rank"])
    [⟨1, .descending, .last⟩, ⟨0, .ascending, .unspecified⟩] none none

end Staff

open Staff in
theorem RemotePlan.keys_vary_labelled :
    ∃ p s, (RuleSet.full replica).convert labelled = .ok (some p) ∧ p.toSql = .ok s ∧
      s.root.selects.map (fun query =>
        (query.groupBy.map List.length, query.orderBy.map List.length)) =
        [(none, some 3), (none, none), (some 2, none), (none, none)] ∧
      ∀ query ∈ s.root.selects, query.KeysVary := by
  have converted :
      (RuleSet.full replica).convert labelled = .ok (some (labelled.boundTo replica)) := rfl
  obtain ⟨s, compiled, keys⟩ : ∃ s, (labelled.boundTo replica).toSql = .ok s ∧
      s.root.selects.map (fun query =>
        (query.groupBy.map List.length, query.orderBy.map List.length)) =
        [(none, some 3), (none, none), (some 2, none), (none, none)] :=
    ⟨_, rfl, by decide +kernel⟩
  exact ⟨_, s, converted, compiled, keys, keys_vary compiled⟩

end Pushdown
