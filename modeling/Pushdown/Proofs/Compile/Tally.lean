import Mathlib.Algebra.GroupWithZero.Nat
import Pushdown.Proofs.Compile.Expressions
import Pushdown.Proofs.Compile.Scoping

/-!
# Each operator writes its clause once

`Node.tally` counts, over a whole statement, the queries that have a clause, the joins, the set
operations and the tables in `FROM` clauses; `RemotePlan.tally` counts the operators that write
them.  The two agree, so that no clause is lost, overwritten or written twice.

* A node has a weight of its own, and the tally of a tree is the sum of the weights of its nodes
  (`Node.tally_eq_sum`).  Expressions weigh nothing (`Node.Flat`).
* A draft has none of the clauses that it was asked for (`Fragment.Counts.absent`): a query
  records the clauses that it has, and one that has the clause or a later one is wrapped.
-/

namespace Pushdown

namespace Sql

/-- What the operators of a plan write. -/
inductive Construct where
  | selection
  | groupBy
  | orderBy
  | join
  | setOp
  | table
  deriving DecidableEq

/-- The clause of a query that the construct is, if it is one. -/
def Construct.clause? : Construct → Option Clause
  | .selection => some .selection
  | .groupBy => some .groupBy
  | .orderBy => some .orderBy
  | _ => none

/-- Whether the node is a set operation. -/
def Node.isSetOp : Node → Bool
  | .setOp _ _ => true
  | _ => false

/-- Whether an item of a `FROM` clause is a table. -/
def Node.isTable : Node → Bool
  | .identifier _ | .named (.identifier _) _ => true
  | _ => false

/-- How often the construct occurs in the tree. -/
def Node.tally (root : Node) : Construct → Nat
  | .selection => root.selects.countP (·.selection.isSome)
  | .groupBy => root.selects.countP (·.groupBy.isSome)
  | .orderBy => root.selects.countP (·.orderBy.isSome)
  | .join => root.parts.countP Node.isJoin
  | .setOp => root.parts.countP Node.isSetOp
  | .table => (root.selects.flatMap Select.fromItems).countP Node.isTable

/-! ## Weights of nodes -/

/-- Whether the query has the clause. -/
def Select.holds (query : Select) : Construct → Bool
  | .selection => query.selection.isSome
  | .groupBy => query.groupBy.isSome
  | .orderBy => query.orderBy.isSome
  | _ => false

/-- How often the construct occurs among the items of the `FROM` clause; only tables do. -/
def Node.among (node : Node) (c : Construct) : Nat :=
  if c = .table then node.fromItems.countP Node.isTable else 0

/-- The same of the `FROM` clause of a query. -/
def Select.among (query : Select) (c : Construct) : Nat :=
  if c = .table then query.fromItems.countP Node.isTable else 0

/-- How often the construct occurs at the node itself. -/
def Node.weight (c : Construct) : Node → Nat
  | .select query => (if query.holds c then 1 else 0) + query.among c
  | .join _ => if c = .join then 1 else 0
  | .setOp _ _ => if c = .setOp then 1 else 0
  | _ => 0

theorem Node.tally_eq_sum (root : Node) (c : Construct) :
    root.tally c = (root.parts.map (Node.weight c)).sum := by
  cases c <;> simp only [tally, selects] <;> generalize root.parts = nodes <;>
    induction nodes with
    | nil => rfl
    | cons node rest ih =>
      rw [List.map_cons, List.sum_cons, ← ih]
      cases node with
      | select query =>
        simp [query?, weight, Select.holds, Select.among, isJoin, isSetOp, List.countP_cons,
          Nat.add_comm] <;> rfl
      | _ => simp [List.filterMap_cons, query?, weight, isJoin, isSetOp, List.countP_cons,
          Nat.add_comm]

theorem sum_map_flatMap {α β : Type} (xs : List α) (f : α → List β) (g : β → Nat) :
    ((xs.flatMap f).map g).sum = (xs.map fun x => ((f x).map g).sum).sum := by
  induction xs with
  | nil => rfl
  | cons x rest ih => simp [ih]

section Tallies

variable (c : Construct)

theorem Node.tally_identifier (parts : List String) : (Node.identifier parts).tally c = 0 := by
  simp [tally_eq_sum, Node.parts, weight]

theorem Node.tally_literal (value : Literal) : (Node.literal value).tally c = 0 := by
  simp [tally_eq_sum, Node.parts, weight]

theorem Node.tally_call (operator : Operator) (operands : List Node) :
    (Node.call operator operands).tally c = (operands.map (tally · c)).sum := by
  simp only [tally_eq_sum, Node.parts, partsAll_eq_flatMap, List.map_cons, List.sum_cons, weight,
    sum_map_flatMap, Nat.zero_add]

theorem Node.tally_named (expr : Node) (name : String) :
    (Node.named expr name).tally c = expr.tally c := by
  simp only [tally_eq_sum, Node.parts, List.map_cons, List.sum_cons, weight, Nat.zero_add]

theorem Node.tally_setOp (operator : SetOperator) (inputs : List Node) :
    (Node.setOp operator inputs).tally c =
      (if c = .setOp then 1 else 0) + (inputs.map (tally · c)).sum := by
  simp only [tally_eq_sum, Node.parts, partsAll_eq_flatMap, List.map_cons, List.sum_cons, weight,
    sum_map_flatMap]

theorem Node.tally_join (left right : Node) (kind : JoinKind) (condition : Option Node) :
    (Node.join ⟨left, kind, right, condition⟩).tally c =
      (if c = .join then 1 else 0) + left.tally c + right.tally c +
        (condition.toList.map (tally · c)).sum := by
  simp only [tally_eq_sum, Node.parts, Join.parts, parts?_eq_flatMap, List.map_cons,
    List.map_append, List.sum_cons, List.sum_append, weight, sum_map_flatMap]
  omega

theorem Node.tally_select (query : Select) :
    (Node.select query).tally c = (if query.holds c then 1 else 0) + query.among c +
      (query.source.toList.map (tally · c)).sum + (query.ownExpressions.map (tally · c)).sum := by
  rcases query with ⟨projection, source, selection, groupBy, having, orderBy⟩
  simp only [tally_eq_sum, Node.parts, Select.parts, parts?_eq_flatMap, partsAll?_eq_flatMap,
    OrderItem.partsAll?_eq_flatMap, Select.ownExpressions, List.map_cons, List.map_append,
    List.sum_cons, List.sum_append, weight, sum_map_flatMap]
  omega

end Tallies

/-! ## Expressions -/

/-- Nothing that is counted occurs in the tree. -/
def Node.Flat (node : Node) : Prop := ∀ c, node.tally c = 0

theorem sum_tally_of_flat {nodes : List Node} (flat : ∀ node ∈ nodes, node.Flat) (c : Construct) :
    (nodes.map (Node.tally · c)).sum = 0 := by
  rw [List.sum_eq_zero_iff_forall_eq_nat, List.forall_mem_map]
  exact fun node member => flat node member c

/-- The expressions of the query's clauses are flat. -/
def Select.Flat (query : Select) : Prop := ∀ e ∈ query.ownExpressions, e.Flat

/-- How often the construct occurs in a row source, counting the source itself. -/
def Node.rowTally (node : Node) (c : Construct) : Nat := node.tally c + node.among c

/-- How often the construct occurs in what the query reads. -/
def Select.rowTally (query : Select) (c : Construct) : Nat :=
  (query.source.map (Node.rowTally · c)).getD 0

/-- A query counts its own clauses and its row source. -/
theorem Node.tally_of_flat {query : Select} (flat : query.Flat) (c : Construct) :
    (Node.select query).tally c = (if query.holds c then 1 else 0) + query.rowTally c := by
  rw [tally_select, sum_tally_of_flat flat, Select.rowTally, Select.among]
  cases read : query.source with
  | none => simp [Select.fromItems, read]
  | some source =>
    simp only [Select.fromItems, read, Option.map_some, Option.getD_some, Option.toList_some,
      List.map_cons, List.map_nil, List.sum_cons, List.sum_nil, rowTally, among]
    omega

theorem Node.rowTally_select (query : Select) (c : Construct) :
    (Node.select query).rowTally c = (Node.select query).tally c := by
  simp [rowTally, among, fromItems, isTable]

theorem Node.rowTally_setOp (operator : SetOperator) (inputs : List Node) (c : Construct) :
    (Node.setOp operator inputs).rowTally c = (Node.setOp operator inputs).tally c := by
  simp [rowTally, among, fromItems, isTable]

theorem Node.rowTally_identifier (parts : List String) (c : Construct) :
    (Node.identifier parts).rowTally c = if c = .table then 1 else 0 := by
  simp [rowTally, among, fromItems, isTable, tally_identifier]

theorem Node.rowTally_join {left right : Node} {kind : JoinKind} {condition : Option Node}
    (flat : ∀ e ∈ condition.toList, e.Flat) (c : Construct) :
    (Node.join ⟨left, kind, right, condition⟩).rowTally c =
      (if c = .join then 1 else 0) + (left.rowTally c + right.rowTally c) := by
  rw [rowTally, tally_join, sum_tally_of_flat flat]
  by_cases table : c = .table
  · simp only [rowTally, among, table, if_true, fromItems, List.countP_append]
    omega
  · simp only [rowTally, among, table, if_false]
    omega

theorem Node.tally_starFrom (source : Node) (c : Construct) :
    (Node.select (.starFrom source)).tally c = source.rowTally c := by
  rw [tally_of_flat (Select.forall_starFrom source)]
  cases c <;> simp [Select.holds, Select.starFrom, Select.rowTally]

end Sql

open Sql (Node Select Construct)

theorem Scope.uniform_flat : Scope.Uniform Node.Flat where
  identifier parts c := Node.tally_identifier c parts
  literal value c := Node.tally_literal c value
  call operator operands each c := (Node.tally_call c operator operands).trans
    (Sql.sum_tally_of_flat each c)
  named expr name := forall_congr' fun c => by rw [Node.tally_named]

/-- A star that is written out changes no count. -/
theorem tally_expandStar {query : Select} (flat : query.Flat) (sources : List Source)
    (fields : Fields) (c : Construct) :
    (Node.select (expandStar query sources fields)).tally c = (Node.select query).tally c := by
  rcases expandStar_cases query sources fields with ⟨same, _⟩ | ⟨written, _, _⟩
  · rw [same]
  · have listed := Scope.uniform_flat.expandStar flat sources fields
    rw [written] at listed ⊢
    rw [Node.tally_of_flat listed, Node.tally_of_flat flat]
    cases c <;> rfl

/-! ## Fragments and drafts -/

/-- The clauses that the query has are among those recorded. -/
def Sql.Select.Within (query : Select) (clauses : ClauseSet) : Prop :=
  ∀ c clause, c.clause? = some clause → query.holds c = true → clauses.contains clause = true

/-- As a row source, the fragment has each construct as often as `total` says. -/
structure Fragment.Counts (f : Fragment) (total : Construct → Nat) : Prop where
  relational : f.Relational
  total : ∀ c, f.node.rowTally c = total c
  query : ∀ query, f.node = .select query → query.Flat ∧ query.Within f.clauses

/-- The query in the making has each construct as often as `total` says, and none of the clauses
that it was started for. -/
structure Draft.Counts (d : Draft) (requested : List Clause) (total : Construct → Nat) :
    Prop where
  total : ∀ c, (Node.select d.query).tally c = total c
  flat : d.query.Flat
  within : d.query.Within d.clauses
  taken : ∀ clause ∈ requested, d.clauses.contains clause = true
  free : ∀ c clause, c.clause? = some clause → clause ∈ requested → d.query.holds c = false
  scope : d.scope.EachField Node.Flat

section Counts

variable {f : Fragment} {d : Draft} {total other : Construct → Nat} {requested : List Clause}
  {names after : Aliases}

theorem Fragment.Counts.congr (counts : f.Counts total) (same : ∀ c, total c = other c) :
    f.Counts other :=
  ⟨counts.relational, fun c => (counts.total c).trans (same c), counts.query⟩

/-- As a row source, a fragment is counted as it was. -/
theorem Fragment.Counts.toSource (counts : f.Counts total) {node : Node} {sources : List Source}
    (run : f.toSource.run names = ((node, sources), after)) (c : Construct) :
    node.rowTally c = total c := by
  rw [← counts.total c]
  cases sourced_of_toSource counts.relational run with
  | @table parts name _ own _ =>
    rw [own, Node.rowTally_identifier]
    split
    · exact Node.rowTally_identifier parts c
    · simp [Node.rowTally, Node.among, Node.fromItems, Node.isTable, Node.tally_named,
        Node.tally_identifier]
  | join own => rw [own]
  | query own _ =>
    rw [own, Node.rowTally_select, ← tally_expandStar (counts.query _ own).1 f.sources f.fields]
    simp [Node.rowTally, Node.among, Node.fromItems, Node.isTable, Node.tally_named]
  | setOp own _ =>
    rw [own, Node.rowTally_setOp]
    simp [Node.rowTally, Node.among, Node.fromItems, Node.isTable, Node.tally_named]

/-- As a complete query, a fragment is counted as it was. -/
theorem Fragment.Counts.toQuery (counts : f.Counts total) {query : Node}
    (run : f.toQuery.run names = (query, after)) (c : Construct) : query.tally c = total c := by
  rcases toQuery_cases run with ⟨own, isQuery, rfl, _⟩ | ⟨source, sources, _, taken, rfl⟩
  · rw [tally_expandStar (counts.query own isQuery).1, ← counts.total c, isQuery,
      Node.rowTally_select]
  · rw [tally_expandStar (Select.forall_starFrom source),
      Node.tally_starFrom, counts.toSource taken]

theorem Fragment.Counts.starFrom (counts : f.Counts total) {source : Node} {sources : List Source}
    (run : f.toSource.run names = ((source, sources), after)) {clauses : ClauseSet}
    (taken : ∀ clause ∈ requested, clauses.contains clause = true) :
    ({ query := .starFrom source, clauses, sources, scope := .ofSources sources } : Draft).Counts
      requested total := by
  have empty (c : Construct) : (Select.starFrom source).holds c = false := by
    cases c <;> rfl
  refine ⟨fun c => ?_, Select.forall_starFrom source, fun c _ _ held => ?_, taken,
    fun c _ _ _ => empty c, Scope.uniform_flat.ofColumns⟩
  · rw [Node.tally_starFrom, counts.toSource run]
  · rw [empty c] at held
    cases held

/-- A draft has none of the clauses from one that it was asked for on: a query that has such a
clause is wrapped. -/
theorem Fragment.Counts.absent (counts : f.Counts total) {keys : List Nat}
    (drafted : Drafted f requested keys names d after) {c : Construct} {clause asked : Clause}
    (isClause : c.clause? = some clause) (member : asked ∈ requested)
    (order : asked.rank ≤ clause.rank) : d.query.holds c = false := by
  rcases drafted.fresh_or_extended with ⟨source, _, star, _⟩ | ⟨own, _, free, _⟩
  · rw [star]
    cases c <;> rfl
  · rw [← Bool.not_eq_true]
    intro held
    have conflict := ClauseSet.conflicts_of_contains
      ((counts.query d.query own).2 c clause isClause held) order
    rw [ClauseSet.conflicts_of_needsWrap free member] at conflict
    cases conflict

/-- A draft counts as its fragment does. -/
theorem Fragment.Counts.draft (counts : f.Counts total) {keys : List Nat}
    (drafted : Drafted f requested keys names d after) : d.Counts requested total := by
  have taken : ∀ clause ∈ requested, d.clauses.contains clause = true :=
    fun clause asked => drafted.contains asked
  have free : ∀ c clause, c.clause? = some clause → clause ∈ requested →
      d.query.holds c = false :=
    fun c clause isClause asked => counts.absent drafted isClause asked (Nat.le_refl _)
  cases drafted with
  | wrapped _ run => exact counts.starFrom run taken
  | opened _ _ run => exact counts.starFrom run taken
  | @extended query _ own =>
    rcases counts.query query own with ⟨flat, within⟩
    refine ⟨fun c => ?_, flat, fun c clause isClause held => ?_, taken, free,
      Scope.uniform_flat.scope flat _⟩
    · rw [← counts.total c, own, Node.rowTally_select]
    · rw [ClauseSet.contains_insertAll, within c clause isClause held, Bool.or_true]

/-- The select list is no construct. -/
theorem Draft.Counts.withProjection (counts : d.Counts requested total) {items : List Node}
    (flat : ∀ item ∈ items, item.Flat) : (d.withProjection items).Counts requested total := by
  have holds (c : Construct) : (d.withProjection items).query.holds c = d.query.holds c := by
    cases c <;> rfl
  have listed : (d.withProjection items).query.Flat :=
    Select.forall_withProjection counts.flat flat
  refine ⟨fun c => ?_, listed, fun c clause isClause held => ?_, counts.taken,
    fun c clause isClause asked => ?_, counts.scope⟩
  · rw [← counts.total c, Node.tally_of_flat counts.flat, ← holds c]
    exact Node.tally_of_flat listed c
  · exact counts.within c clause isClause ((holds c).symm.trans held)
  · exact (holds c).trans (counts.free c clause isClause asked)

/-- A clause that was asked for is new. -/
theorem Draft.Counts.addClause (counts : d.Counts requested total) {query : Select}
    {added : Construct} {clause : Clause} (isClause : added.clause? = some clause)
    (asked : clause ∈ requested) (source : query.source = d.query.source) (flat : query.Flat)
    (own : query.holds added = true) (others : ∀ c, c ≠ added → query.holds c = d.query.holds c) :
    ({ d with query } : Draft).Counts [] fun c => (if c = added then 1 else 0) + total c := by
  have absent := counts.free added clause isClause asked
  refine ⟨fun c => ?_, flat, fun c its known held => ?_, nofun, nofun, counts.scope⟩
  · rw [← counts.total c, Node.tally_of_flat counts.flat, Node.tally_of_flat flat,
      Select.rowTally, Select.rowTally, source]
    by_cases same : c = added
    · simp [same, own, absent]
    · simp [same, others c same]
  · by_cases same : c = added
    · subst same
      cases isClause.symm.trans known
      exact counts.taken _ asked
    · exact counts.within c its known ((others c same).symm.trans held)

theorem Draft.Counts.withSelection (counts : d.Counts requested total) {condition : Node}
    (asked : .selection ∈ requested) (flat : condition.Flat) :
    (d.withSelection condition).Counts [] fun c =>
      (if c = .selection then 1 else 0) + total c := by
  refine counts.addClause rfl asked rfl (Select.forall_withSelection counts.flat flat) rfl
    fun c other => ?_
  cases c with
  | selection => exact absurd rfl other
  | _ => rfl

theorem Draft.Counts.withGroupBy (counts : d.Counts requested total) {keys : List Node}
    (asked : .groupBy ∈ requested) (flat : ∀ key ∈ keys, key.Flat) :
    (d.withGroupBy keys).Counts [] fun c => (if c = .groupBy then 1 else 0) + total c := by
  refine counts.addClause rfl asked rfl (Select.forall_withGroupBy counts.flat flat) rfl
    fun c other => ?_
  cases c with
  | groupBy => exact absurd rfl other
  | _ => rfl

theorem Draft.Counts.withOrderBy (counts : d.Counts requested total) {keys : List Sql.OrderItem}
    (asked : .orderBy ∈ requested) (flat : ∀ key ∈ keys, key.expr.Flat) :
    (d.withOrderBy keys).Counts [] fun c => (if c = .orderBy then 1 else 0) + total c := by
  refine counts.addClause rfl asked rfl (Select.forall_withOrderBy counts.flat flat) rfl
    fun c other => ?_
  cases c with
  | orderBy => exact absurd rfl other
  | _ => rfl

theorem Draft.Counts.finish (counts : d.Counts requested total) (fields : Fields) :
    (d.finish fields).Counts total := by
  refine ⟨trivial, fun c => (Node.rowTally_select d.query c).trans (counts.total c), ?_⟩
  intro query own
  cases own
  exact ⟨counts.flat, counts.within⟩

/-- A constant row has no construct. -/
theorem Fragment.tally_tupleQuery (fields : Fields) (tuple : List Literal) (c : Construct) :
    (tupleQuery fields tuple).tally c = 0 := by
  rw [tupleQuery, Node.tally_of_flat (Scope.uniform_flat.row fields tuple)]
  cases c <;> rfl

theorem Fragment.counts_ofQueries {fields : Fields} {operator : Sql.SetOperator}
    {queries : List Node} (each : ∀ c, (queries.map (Node.tally · c)).sum = total c) :
    (ofQueries fields operator queries).Counts fun c =>
      (if c = .setOp then 1 else 0) + total c := by
  refine ⟨trivial, fun c => ?_, nofun⟩
  rw [ofQueries, Node.rowTally_setOp, Node.tally_setOp, each c]

end Counts

/-! ## Operators -/

section Operators

variable {child left right : Fragment} {total leftTotal rightTotal : Construct → Nat}
  {draft : Draft} {middle taken after : Aliases} {requested : List Clause} {keys : List Nat}
  {items : List Node}

/-- A join counts what both sides do, and itself. -/
theorem Fragment.Counts.join {leftNode rightNode : Node} {leftSources rightSources : List Source}
    {pairs : List (Nat × Nat)} {equalities : List Node} (leftCounts : left.Counts leftTotal)
    (rightCounts : right.Counts rightTotal)
    (leftRun : left.toSource.run middle = ((leftNode, leftSources), taken))
    (rightRun : right.toSource.run taken = ((rightNode, rightSources), after))
    (equated : Scope.equalities (.ofColumns leftSources true) (.ofColumns rightSources true)
      pairs = .ok equalities) (kind : JoinKind) (fields : Fields) :
    Fragment.Counts
      { node := .join ⟨leftNode, kind, rightNode, Node.conjunction? equalities⟩,
        clauses := .ofList [.source], sources := leftSources ++ rightSources, fields }
      fun c => (if c = .join then 1 else 0) + (leftTotal c + rightTotal c) := by
  have flat := Scope.uniform_flat.conjunction (Scope.uniform_flat.ofColumns.equalities
    Scope.uniform_flat.ofColumns Scope.uniform_flat.toClosed equated)
  refine ⟨trivial, fun c => ?_, nofun⟩
  rw [Node.rowTally_join flat, leftCounts.toSource leftRun, rightCounts.toSource rightRun]

/-- A condition over the fields of a fragment adds itself. -/
theorem Fragment.Counts.restrict {condition : Expr} {node : Node} (counts : child.Counts total)
    (drafted : Drafted child requested keys middle draft after) (asked : .selection ∈ requested)
    (translated : draft.scope.expression condition = .ok node) (fields : Fields) :
    ((draft.withSelection node).finish fields).Counts fun c =>
      (if c = .selection then 1 else 0) + total c := by
  have begun := counts.draft drafted
  have flat := begun.scope.expression Scope.uniform_flat.toClosed translated
  exact (begun.withSelection asked flat).finish fields

/-- A select list over the fields of a fragment adds nothing. -/
theorem Fragment.Counts.list {projects : List Expr} (counts : child.Counts total)
    (drafted : Drafted child requested keys middle draft after)
    (translated : draft.scope.expressions projects = .ok items) (fields : Fields) :
    (draft.withProjection (selectList fields items)).Counts requested total := by
  have begun := counts.draft drafted
  have flat := begun.scope.expressions Scope.uniform_flat.toClosed translated
  exact begun.withProjection (Scope.uniform_flat.selectList fields flat)

/-- A select list and a condition add the condition. -/
theorem Fragment.Counts.listWhere {projects : List Expr} {condition : Expr} {node : Node}
    (counts : child.Counts total) (drafted : Drafted child requested keys middle draft after)
    (asked : .selection ∈ requested) (translated : draft.scope.expressions projects = .ok items)
    (selected : draft.scope.expression condition = .ok node) (fields : Fields) :
    (((draft.withProjection (selectList fields items)).withSelection node).finish fields).Counts
      fun c => (if c = .selection then 1 else 0) + total c := by
  have listed := counts.list drafted translated fields
  have flat := listed.scope.expression Scope.uniform_flat.toClosed selected
  exact (listed.withSelection asked flat).finish fields

/-- The groups of a fragment add `GROUP BY`, where it is written. -/
theorem Fragment.Counts.aggregate {groupSet : List Nat} {calls : List AggregateCall}
    {groups aggregates : List Node} (counts : child.Counts total)
    (drafted : Drafted child requested keys middle draft after) (asked : .groupBy ∈ requested)
    (grouped : draft.scope.fields groupSet = .ok groups)
    (aggregated : draft.scope.aggregates calls = .ok aggregates) (fields : Fields)
    (alone : Bool) :
    ((if alone then draft.withProjection (selectList fields (groups ++ aggregates))
      else (draft.withProjection (selectList fields (groups ++ aggregates))).withGroupBy
        groups).finish fields).Counts fun c =>
      (if c = .groupBy ∧ alone = false then 1 else 0) + total c := by
  have begun := counts.draft drafted
  have columns := begun.scope.fields grouped
  have listed := begun.withProjection (Scope.uniform_flat.selectList fields
    (List.forall_mem_append.mpr
      ⟨columns, begun.scope.aggregates Scope.uniform_flat.toClosed aggregated⟩))
  cases alone with
  | true => exact (listed.finish fields).congr (by simp)
  | false => exact ((listed.withGroupBy asked columns).finish fields).congr (by simp)

/-- An order by fields of a fragment adds itself. -/
theorem Fragment.Counts.sort {dialect : Sql.Dialect} {sortKeys : List SortKey}
    {orderItems : List Sql.OrderItem} (counts : child.Counts total)
    (drafted : Drafted child requested keys middle draft after) (asked : .orderBy ∈ requested)
    (ordered : draft.scope.ordering dialect sortKeys = .ok orderItems) (fields : Fields) :
    ((draft.withOrderBy orderItems).finish fields).Counts fun c =>
      (if c = .orderBy then 1 else 0) + total c := by
  have begun := counts.draft drafted
  have flat := begun.scope.ordering Scope.uniform_flat.toClosed ordered
  exact (begun.withOrderBy asked flat).finish fields

/-- One constant row. -/
theorem Fragment.counts_row (fields : Fields) (tuple : List Literal) :
    Fragment.Counts
      { node := Fragment.tupleQuery fields tuple, clauses := .ofList [.select], sources := [],
        fields } fun _ => 0 := by
  refine ⟨trivial, fun c => ?_, ?_⟩
  · rw [Fragment.tupleQuery, Node.rowTally_select]
    exact Fragment.tally_tupleQuery fields tuple c
  · intro query own
    cases own
    exact ⟨Scope.uniform_flat.row fields tuple, fun c _ _ held => by cases c <;> cases held⟩

/-- Several constant rows are one set operation. -/
theorem Fragment.counts_rows (fields : Fields) (tuples : List (List Literal)) :
    (Fragment.ofQueries fields .unionAll (tuples.map (Fragment.tupleQuery fields))).Counts
      fun c => if c = .setOp then 1 else 0 := by
  have none (c : Construct) :
      ((tuples.map (Fragment.tupleQuery fields)).map (Node.tally · c)).sum = 0 := by
    rw [List.map_map, List.sum_eq_zero_iff_forall_eq_nat, List.forall_mem_map]
    exact fun tuple _ => Fragment.tally_tupleQuery fields tuple c
  exact Fragment.counts_ofQueries none

end Operators

/-! ## Plans -/

namespace RemotePlan

variable {p : RemotePlan}

/-- Whether the node writes the construct. -/
def writes (c : Construct) (p : RemotePlan) : Bool :=
  match p.op, c with
  | .filter _ _, .selection => true
  | .calculate _ program, .selection => program.condition.isSome
  | .aggregate _ groupSet _ calls, .groupBy => !groupSet.isEmpty || calls.isEmpty
  | .sort _ _, .orderBy => true
  | .join _ _ _ _ _, .join => true
  | .set _ _ _, .setOp => true
  | .values tuples, .setOp => decide (2 ≤ tuples.length)
  | .scan _, .table => true
  | _, _ => false

/-- How many nodes of the plan write the construct. -/
def tally (p : RemotePlan) (c : Construct) : Nat := p.parts.countP (writes c)

theorem tally_eq (p : RemotePlan) (c : Construct) :
    p.tally c = (if p.writes c then 1 else 0) + (p.inputs.map (tally · c)).sum := by
  rw [tally, parts_eq_cons, List.countP_cons, List.countP_flatMap, Nat.add_comm]
  rfl

/-- An operator on one input that writes a single construct. -/
theorem tally_of_writes {input : RemotePlan} {added : Construct} (only : p.inputs = [input])
    (own : ∀ c, p.writes c = decide (c = added)) (c : Construct) :
    (if c = added then 1 else 0) + input.tally c = p.tally c := by
  rw [tally_eq p c, only, own c]
  simp

/-- An operator on one input that writes none. -/
theorem tally_of_silent {input : RemotePlan} (only : p.inputs = [input])
    (silent : ∀ c, p.writes c = false) (c : Construct) : input.tally c = p.tally c := by
  rw [tally_eq p c, only, silent c]
  simp

/-- A grouping by no columns is left to the aggregate calls, where there are any. -/
theorem writes_groupBy (convention : Convention) (fields : Fields) (input : RemotePlan)
    (groupingSets : List (List Nat)) (calls : List AggregateCall) {scope : Scope}
    {groupSet : List Nat} {groups : List Node} (grouped : scope.fields groupSet = .ok groups) :
    writes .groupBy ⟨convention, fields, .aggregate input groupSet groupingSets calls⟩ =
      !(groups.isEmpty && !calls.isEmpty) := by
  have same : groups.isEmpty = groupSet.isEmpty := by
    rw [Bool.eq_iff_iff, List.isEmpty_iff_length_eq_zero, List.isEmpty_iff_length_eq_zero,
      Scope.length_of_fields grouped]
  rw [same, Bool.not_and, Bool.not_not]
  rfl

theorem sum_tally_of_queriesOf {inputs : List RemotePlan} {queries : List Node}
    {names after : Aliases}
    (made : QueriesOf (fun input _ f _ => f.Counts input.tally) inputs names queries after)
    (c : Construct) : (queries.map (Node.tally · c)).sum = (inputs.map (tally · c)).sum := by
  induction made with
  | nil => rfl
  | cons first complete _ ih =>
    rw [List.map_cons, List.map_cons, List.sum_cons, List.sum_cons, first.toQuery complete c, ih]

/-- What a plan compiles to has each construct as often as operators of the plan write it. -/
theorem compile_counts {dialect : Sql.Dialect} {before after : Aliases} {f : Fragment}
    (run : Gives (p.compile dialect) before f after) : f.Counts p.tally := by
  refine compile_induction (motive := fun p _ f _ => f.Counts p.tally)
    ?scan ?join ?filter ?projectSame ?project ?calculateSame ?calculateWhere ?calculateItems
    ?calculateBoth ?aggregate ?sort ?set ?row ?rows run
  case scan =>
    intro convention fields table names name after _
    refine ⟨trivial, fun c => ?_, nofun⟩
    rw [Node.rowTally_identifier, tally_eq]
    cases c <;> rfl
  case join =>
    intro convention fields left right condition kind keys names middle compiled taken after
      leftFragment rightFragment leftNode rightNode leftSources rightSources equalities
      _ leftIh _ rightIh leftTaken rightTaken equated
    refine (leftIh.join rightIh leftTaken rightTaken equated kind fields).congr fun c => ?_
    rw [tally_eq ⟨convention, fields, .join left right condition kind keys⟩]
    cases c <;> rfl
  case filter =>
    intro convention fields input condition names middle after child draft node _ ih drafted
      translated
    refine (ih.restrict drafted (.head _) translated fields).congr (tally_of_writes rfl ?_)
    intro c
    cases c <;> rfl
  case projectSame =>
    intro convention fields input projects names after child _ ih _
    refine ih.congr (tally_of_silent rfl fun c => ?_)
    cases c <;> rfl
  case project =>
    intro convention fields input projects names middle after child draft items _ ih _ drafted
      translated
    refine ((ih.list drafted translated fields).finish fields).congr
      (tally_of_silent rfl fun c => ?_)
    cases c <;> rfl
  case calculateSame =>
    intro convention fields input program names after child _ ih same
    rw [Bool.and_eq_true, Option.isNone_iff_eq_none] at same
    refine ih.congr (tally_of_silent rfl fun c => ?_)
    cases c <;> simp [writes, same]
  case calculateWhere =>
    intro convention fields input program names middle after child draft condition node _ ih _
      drafted found translated
    have present := conditionExpr_isSome found
    refine (ih.restrict drafted (by simp) translated fields).congr
      (tally_of_writes rfl fun c => ?_)
    cases c <;> simp [writes, present]
  case calculateItems =>
    intro convention fields input program names middle after child draft projects items _ ih _
      absent drafted _ translated
    refine ((ih.list drafted translated fields).finish fields).congr
      (tally_of_silent rfl fun c => ?_)
    cases c <;> simp [writes, absent]
  case calculateBoth =>
    intro convention fields input program names middle after child draft projects items condition
      node _ ih _ drafted _ translated found selected
    have present := conditionExpr_isSome found
    refine (ih.listWhere drafted (by simp) translated selected fields).congr
      (tally_of_writes rfl fun c => ?_)
    cases c <;> simp [writes, present]
  case aggregate =>
    intro convention fields input groupSet groupingSets calls names middle after child draft
      groups aggregates _ ih drafted grouped aggregated
    have grouping := writes_groupBy convention fields input groupingSets calls grouped
    refine (ih.aggregate drafted (.head _) grouped aggregated fields _).congr fun c => ?_
    rw [tally_eq ⟨convention, fields, .aggregate input groupSet groupingSets calls⟩]
    cases c with
    | groupBy =>
      rw [grouping]
      cases groups.isEmpty && !calls.isEmpty <;> rfl
    | _ => rfl
  case sort =>
    intro convention fields input keys names middle after child draft items _ ih drafted ordered
    refine (ih.sort drafted (.head _) ordered fields).congr (tally_of_writes rfl fun c => ?_)
    cases c <;> rfl
  case set =>
    intro convention fields kind inputs all names queries after made
    have each := sum_tally_of_queriesOf (made.imp fun _ _ {_ _ _} both => both.2)
    refine (Fragment.counts_ofQueries each).congr fun c => ?_
    rw [tally_eq ⟨convention, fields, .set kind inputs all⟩]
    cases c <;> rfl
  case row =>
    intro convention fields tuple names
    refine (Fragment.counts_row fields tuple).congr fun c => ?_
    cases c <;> rfl
  case rows =>
    intro convention fields first second rest names
    refine (Fragment.counts_rows fields (first :: second :: rest)).congr fun c => ?_
    rw [tally_eq]
    cases c <;> simp [writes, inputs, RemoteOp.inputs]

end RemotePlan

/-- Over a whole statement, the queries with a condition, an order or a grouping, the joins, the
set operations and the tables are as many as the operators of the plan that write them. -/
theorem RemotePlan.tally_toSql {p : RemotePlan} {s : Sql.Statement} (compiled : p.toSql = .ok s)
    (c : Construct) : s.root.tally c = p.tally c := by
  rcases fragment_of_toSql compiled with ⟨f, middle, after, run, stated⟩
  have counts := compile_counts run
  rcases Fragment.toStatement_cases stated with ⟨operator, inputs, own, root⟩ | complete
  · rw [root, ← Node.rowTally_setOp, ← own, counts.total]
  · exact counts.toQuery complete c

namespace Staff

/-- Of employees and two more, those that are their own boss, in order, and of
these number one. -/
def sifted : Plan :=
  .filter
    (.sort
      (.filter
        (.set .union
          [.scan employees,
            .values ["id", "boss"] [[.integer 1, .integer 1], [.integer 2, .integer 1]]] true)
        (.scalarCall .eq [.input 0, .input 1]))
      [⟨0, .ascending, .unspecified⟩] none none)
    (.scalarCall .eq [.input 0, .literal (.integer 1)])

end Staff

open Staff in
theorem RemotePlan.tally_toSql_sifted :
    ∃ p s, (RuleSet.full database).convert sifted = .ok (some p) ∧ p.toSql = .ok s ∧
      s.root.tally .selection = 2 ∧ s.root.tally .setOp = 2 ∧
      ∀ c, s.root.tally c = p.tally c := by
  have converted :
      (RuleSet.full database).convert sifted = .ok (some (sifted.boundTo database)) := rfl
  exact ⟨_, _, converted, rfl, rfl, rfl, tally_toSql rfl⟩

end Pushdown
