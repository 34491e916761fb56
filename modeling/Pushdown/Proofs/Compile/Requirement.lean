import Pushdown.Proofs.Compile.Tally

/-!
# Requirements on the queries of a statement

A requirement says what the keys of a query, by which it groups and by which it orders, and the
inputs of a set operation have to be like.  Aggregates, sorts, set operations and constant rows
are all that writes these, and what one of them has written stays as it is.  So a statement meets
a requirement exactly if what each node of the plan writes does (`RemotePlan.compile_meets`).

* `Requirement.Met` is the requirement at every node of a tree.
* `Requirement.ReadOff` says of a property of nodes of a plan that it tells whether what the node
  writes is as required.
-/

namespace Pushdown

open Sql (Node Select OrderItem)

namespace Sql

/-- What the keys of queries and the inputs of set operations have to be like. -/
structure Requirement where
  groupBy : List Node → Prop := fun _ => True
  orderBy : List OrderItem → Prop := fun _ => True
  inputs : List Node → Prop := fun _ => True

namespace Requirement

/-- The keys of the query are as required. -/
def OnQuery (r : Requirement) (query : Select) : Prop :=
  (∀ keys ∈ query.groupBy, r.groupBy keys) ∧ ∀ items ∈ query.orderBy, r.orderBy items

/-- Queries and set operations are as required; any other node may be anything. -/
def OnNode (r : Requirement) : Node → Prop
  | .select query => r.OnQuery query
  | .setOp _ inputs => r.inputs inputs
  | _ => True

/-- Every node of the tree is as required. -/
def Met (r : Requirement) (node : Node) : Prop := ∀ part ∈ node.parts, r.OnNode part

variable {r : Requirement}

theorem met_iff (node : Node) :
    r.Met node ↔ r.OnNode node ∧ ∀ child ∈ node.children, r.Met child :=
  node.forall_parts_iff

/-- In expressions there are no queries. -/
theorem uniform_met (r : Requirement) : Scope.Uniform r.Met where
  identifier parts := (met_iff _).mpr ⟨trivial, by simp [Node.children]⟩
  literal value := (met_iff _).mpr ⟨trivial, by simp [Node.children]⟩
  call operator operands each := (met_iff _).mpr ⟨trivial, each⟩
  named expr name := by
    rw [met_iff (.named expr name)]
    simp [OnNode, Node.children]

theorem met_setOp {operator : SetOperator} {inputs : List Node} :
    r.Met (.setOp operator inputs) ↔ r.inputs inputs ∧ ∀ input ∈ inputs, r.Met input :=
  met_iff _

theorem met_join {left right : Node} {kind : JoinKind} {condition : Option Node}
    (on : ∀ node ∈ condition.toList, r.Met node) :
    r.Met (.join ⟨left, kind, right, condition⟩) ↔ r.Met left ∧ r.Met right := by
  rw [met_iff]
  simp only [OnNode, Node.children, List.forall_mem_cons, true_and]
  rw [iff_true_intro on, and_true]

theorem met_select {query : Select} (own : ∀ e ∈ query.ownExpressions, r.Met e) :
    r.Met (.select query) ↔ r.OnQuery query ∧ ∀ source ∈ query.source, r.Met source := by
  rw [met_iff]
  simp only [OnNode, Node.children, List.forall_mem_append, Option.mem_toList, Option.mem_def]
  rw [iff_true_intro own, and_true]

theorem met_starFrom {source : Node} : r.Met (.select (.starFrom source)) ↔ r.Met source := by
  rw [met_select (Select.forall_starFrom source)]
  simp [OnQuery, Select.starFrom]

/-- A star that is written out makes no difference. -/
theorem met_expandStar {query : Select} (own : ∀ e ∈ query.ownExpressions, r.Met e)
    (sources : List Source) (fields : Fields) :
    r.Met (.select (expandStar query sources fields)) ↔ r.Met (.select query) := by
  rw [met_select (r.uniform_met.expandStar own sources fields), met_select own]
  rcases expandStar_cases query sources fields with ⟨same, _⟩ | ⟨written, _⟩
  · rw [same]
  · rw [written]
    exact Iff.rfl

theorem met_tupleQuery (fields : Fields) (tuple : List Literal) :
    r.Met (Fragment.tupleQuery fields tuple) := by
  rw [Fragment.tupleQuery, met_select (r.uniform_met.row fields tuple)]
  simp [OnQuery, Select.row]

end Requirement

end Sql

open Sql (Requirement)

/-! ## Fragments and drafts -/

/-- The fragment meets the requirement exactly if `P` holds. -/
structure Fragment.MeetsIff (r : Requirement) (f : Fragment) (P : Prop) : Prop where
  relational : f.Relational
  own : ∀ query, f.node = .select query → ∀ e ∈ query.ownExpressions, r.Met e
  met : r.Met f.node ↔ P

/-- The query in the making meets the requirement exactly if `P` holds. -/
structure Draft.MeetsIff (r : Requirement) (d : Draft) (P : Prop) : Prop where
  own : ∀ e ∈ d.query.ownExpressions, r.Met e
  met : r.Met (.select d.query) ↔ P
  scope : d.scope.EachField r.Met

section Meets

variable {r : Requirement} {f : Fragment} {d : Draft} {P Q : Prop} {names after : Aliases}
  {requested : List Clause} {keys : List Nat}

theorem Fragment.MeetsIff.congr (meets : f.MeetsIff r P) (same : P ↔ Q) : f.MeetsIff r Q :=
  ⟨meets.relational, meets.own, meets.met.trans same⟩

theorem Fragment.MeetsIff.toSource (meets : f.MeetsIff r P) {node : Node} {sources : List Source}
    (run : f.toSource.run names = ((node, sources), after)) : r.Met node ↔ P := by
  rw [← meets.met]
  cases sourced_of_toSource meets.relational run with
  | @table parts name _ own _ =>
    have table := r.uniform_met.identifier parts
    rw [own]
    split
    · exact Iff.rfl
    · exact r.uniform_met.named _ name
  | join own => rw [own]
  | query own _ =>
    rw [own, ← Requirement.met_expandStar (meets.own _ own) f.sources f.fields]
    exact r.uniform_met.named _ _
  | setOp own _ =>
    rw [own]
    exact r.uniform_met.named _ _

theorem Fragment.MeetsIff.toQuery (meets : f.MeetsIff r P) {query : Node}
    (run : f.toQuery.run names = (query, after)) : r.Met query ↔ P := by
  rcases toQuery_cases run with ⟨own, isQuery, rfl, _⟩ | ⟨source, sources, _, taken, rfl⟩
  · rw [Requirement.met_expandStar (meets.own own isQuery), ← isQuery, meets.met]
  · rw [Requirement.met_expandStar (Select.forall_starFrom source), Requirement.met_starFrom,
      meets.toSource taken]

theorem Fragment.MeetsIff.toStatement (meets : f.MeetsIff r P) {root : Node}
    (run : f.toStatement.run names = (root, after)) : r.Met root ↔ P := by
  rcases toStatement_cases run with ⟨operator, inputs, own, rfl⟩ | complete
  · rw [← own, meets.met]
  · exact meets.toQuery complete

/-- A fragment that is no query has no expressions of its own. -/
theorem Fragment.MeetsIff.of_bare (relational : f.Relational)
    (bare : ∀ query, f.node ≠ .select query) (met : r.Met f.node ↔ P) : f.MeetsIff r P :=
  ⟨relational, fun query own => absurd own (bare query), met⟩

/-- A draft starts with what the fragment has. -/
theorem Fragment.MeetsIff.draft (meets : f.MeetsIff r P)
    (drafted : Drafted f requested keys names d after) : d.MeetsIff r P := by
  rcases drafted.fresh_or_extended with ⟨source, taken, star, columns⟩ | ⟨own, _, _, _, _, scope⟩
  · refine ⟨?_, ?_, ?_⟩
    · rw [star]
      exact Select.forall_starFrom source
    · rw [star, Requirement.met_starFrom, meets.toSource taken]
    · rw [columns]
      exact r.uniform_met.ofColumns
  · refine ⟨meets.own _ own, own ▸ meets.met, ?_⟩
    rw [scope]
    exact r.uniform_met.scope (meets.own _ own) _

theorem Draft.MeetsIff.withProjection (meets : d.MeetsIff r P) {items : List Node}
    (listed : ∀ item ∈ items, r.Met item) : (d.withProjection items).MeetsIff r P := by
  have own := Select.forall_withProjection meets.own listed
  refine ⟨own, ?_, meets.scope⟩
  rw [← meets.met, Requirement.met_select meets.own]
  exact Requirement.met_select own

theorem Draft.MeetsIff.withSelection (meets : d.MeetsIff r P) {condition : Node}
    (holds : r.Met condition) : (d.withSelection condition).MeetsIff r P := by
  have own := Select.forall_withSelection meets.own holds
  refine ⟨own, ?_, meets.scope⟩
  rw [← meets.met, Requirement.met_select meets.own]
  exact Requirement.met_select own

/-- A clause with keys adds what is required of the keys. -/
theorem Draft.MeetsIff.addKeys (meets : d.MeetsIff r P) {query : Select}
    (source : query.source = d.query.source) (own : ∀ e ∈ query.ownExpressions, r.Met e)
    (adds : r.OnQuery query ↔ Q ∧ r.OnQuery d.query) :
    ({ d with query } : Draft).MeetsIff r (Q ∧ P) := by
  refine ⟨own, ?_, meets.scope⟩
  rw [← meets.met, Requirement.met_select own, Requirement.met_select meets.own, adds, source,
    and_assoc]

theorem Draft.MeetsIff.withGroupBy (meets : d.MeetsIff r P) {groups : List Node}
    (absent : d.query.groupBy = none) (met : ∀ key ∈ groups, r.Met key) :
    (d.withGroupBy groups).MeetsIff r (r.groupBy groups ∧ P) := by
  refine meets.addKeys rfl (Select.forall_withGroupBy meets.own met) ?_
  simp [Requirement.OnQuery, absent]

theorem Draft.MeetsIff.withOrderBy (meets : d.MeetsIff r P) {items : List OrderItem}
    (absent : d.query.orderBy = none) (met : ∀ item ∈ items, r.Met item.expr) :
    (d.withOrderBy items).MeetsIff r (r.orderBy items ∧ P) := by
  refine meets.addKeys rfl (Select.forall_withOrderBy meets.own met) ?_
  simp [Requirement.OnQuery, absent, and_comm]

theorem Draft.MeetsIff.finish (meets : d.MeetsIff r P) (fields : Fields) :
    (d.finish fields).MeetsIff r P := by
  refine ⟨trivial, ?_, meets.met⟩
  intro query own
  cases own
  exact meets.own

end Meets

/-! ## Operators -/

section Operators

variable {r : Requirement} {child left right : Fragment} {draft : Draft} {P Q : Prop}
  {total : Sql.Construct → Nat} {middle taken after : Aliases} {requested : List Clause}
  {keys : List Nat} {items : List Node}

/-- A join meets what both sides do. -/
theorem Fragment.MeetsIff.join {leftNode rightNode : Node}
    {leftSources rightSources : List Source} {pairs : List (Nat × Nat)} {equalities : List Node}
    (leftMeets : left.MeetsIff r P) (rightMeets : right.MeetsIff r Q)
    (leftRun : left.toSource.run middle = ((leftNode, leftSources), taken))
    (rightRun : right.toSource.run taken = ((rightNode, rightSources), after))
    (equated : Scope.equalities (.ofColumns leftSources true) (.ofColumns rightSources true)
      pairs = .ok equalities) (kind : JoinKind) (fields : Fields) :
    Fragment.MeetsIff r
      { node := .join ⟨leftNode, kind, rightNode, Node.conjunction? equalities⟩,
        clauses := .ofList [.source], sources := leftSources ++ rightSources, fields }
      (P ∧ Q) := by
  have on := r.uniform_met.conjunction
    (r.uniform_met.ofColumns.equalities r.uniform_met.ofColumns r.uniform_met.toClosed equated)
  refine .of_bare trivial (by simp) ?_
  rw [Requirement.met_join on, leftMeets.toSource leftRun, rightMeets.toSource rightRun]

/-- Nothing is required of a condition. -/
theorem Fragment.MeetsIff.restrict {condition : Expr} {node : Node} (meets : child.MeetsIff r P)
    (drafted : Drafted child requested keys middle draft after)
    (translated : draft.scope.expression condition = .ok node) (fields : Fields) :
    ((draft.withSelection node).finish fields).MeetsIff r P := by
  have begun := meets.draft drafted
  have holds := begun.scope.expression r.uniform_met.toClosed translated
  exact (begun.withSelection holds).finish fields

/-- Nothing is required of a select list. -/
theorem Fragment.MeetsIff.list {projects : List Expr} (meets : child.MeetsIff r P)
    (drafted : Drafted child requested keys middle draft after)
    (translated : draft.scope.expressions projects = .ok items) (fields : Fields) :
    (draft.withProjection (selectList fields items)).MeetsIff r P := by
  have begun := meets.draft drafted
  have listed := begun.scope.expressions r.uniform_met.toClosed translated
  exact begun.withProjection (r.uniform_met.selectList fields listed)

theorem Fragment.MeetsIff.listWhere {projects : List Expr} {condition : Expr} {node : Node}
    (meets : child.MeetsIff r P) (drafted : Drafted child requested keys middle draft after)
    (translated : draft.scope.expressions projects = .ok items)
    (selected : draft.scope.expression condition = .ok node) (fields : Fields) :
    (((draft.withProjection (selectList fields items)).withSelection node).finish fields).MeetsIff
      r P := by
  have listed := meets.list drafted translated fields
  have holds := listed.scope.expression r.uniform_met.toClosed selected
  exact (listed.withSelection holds).finish fields

/-- The groups of a fragment add what is required of them, where `GROUP BY` is written. -/
theorem Fragment.MeetsIff.aggregate {groupSet : List Nat} {calls : List AggregateCall}
    {groups aggregates : List Node} (meets : child.MeetsIff r P) (counts : child.Counts total)
    (drafted : Drafted child requested keys middle draft after) (asked : .groupBy ∈ requested)
    (grouped : draft.scope.fields groupSet = .ok groups)
    (aggregated : draft.scope.aggregates calls = .ok aggregates) (fields : Fields)
    (alone : Bool) :
    ((if alone then draft.withProjection (selectList fields (groups ++ aggregates))
      else (draft.withProjection (selectList fields (groups ++ aggregates))).withGroupBy
        groups).finish fields).MeetsIff r ((alone = false → r.groupBy groups) ∧ P) := by
  have begun := meets.draft drafted
  have columns := begun.scope.fields grouped
  have listed := begun.withProjection (r.uniform_met.selectList fields
    (List.forall_mem_append.mpr
      ⟨columns, begun.scope.aggregates r.uniform_met.toClosed aggregated⟩))
  have absent : draft.query.groupBy = none := by
    simpa [Select.holds] using counts.absent drafted (c := .groupBy) rfl asked (Nat.le_refl _)
  cases alone with
  | true => exact (listed.finish fields).congr (by simp)
  | false => exact ((listed.withGroupBy absent columns).finish fields).congr (by simp)

/-- An order by fields of a fragment adds what is required of it. -/
theorem Fragment.MeetsIff.sort {dialect : Sql.Dialect} {sortKeys : List SortKey}
    {orderItems : List OrderItem} (meets : child.MeetsIff r P) (counts : child.Counts total)
    (drafted : Drafted child requested keys middle draft after) (asked : .orderBy ∈ requested)
    (ordered : draft.scope.ordering dialect sortKeys = .ok orderItems) (fields : Fields) :
    ((draft.withOrderBy orderItems).finish fields).MeetsIff r (r.orderBy orderItems ∧ P) := by
  have begun := meets.draft drafted
  have met := begun.scope.ordering r.uniform_met.toClosed ordered
  have absent : draft.query.orderBy = none := by
    simpa [Select.holds] using counts.absent drafted (c := .orderBy) rfl asked (Nat.le_refl _)
  exact (begun.withOrderBy absent met).finish fields

/-- A set operation adds what is required of its inputs together. -/
theorem Fragment.meetsIff_ofQueries {fields : Fields} {operator : Sql.SetOperator}
    {queries : List Node} (each : (∀ query ∈ queries, r.Met query) ↔ P) :
    (Fragment.ofQueries fields operator queries).MeetsIff r (r.inputs queries ∧ P) := by
  refine .of_bare trivial (by simp [Fragment.ofQueries]) ?_
  rw [Fragment.ofQueries, Requirement.met_setOp, each]

/-- Nothing is required of a constant row. -/
theorem Fragment.meetsIff_row (fields : Fields) (tuple : List Literal) :
    Fragment.MeetsIff r
      { node := Fragment.tupleQuery fields tuple, clauses := .ofList [.select], sources := [],
        fields } True := by
  refine ⟨trivial, ?_, iff_true_intro (Requirement.met_tupleQuery fields tuple)⟩
  intro query own
  cases own
  exact r.uniform_met.row fields tuple

end Operators

/-! ## Plans -/

/-- The property tells of each node of a plan whether what it writes is as required. -/
structure Sql.Requirement.ReadOff (r : Requirement) (dialect : Sql.Dialect)
    (P : RemotePlan → Prop) : Prop where
  aggregate : ∀ {convention fields input groupSet groupingSets calls names middle after}
    {child : Fragment} {draft : Draft} {groups},
    Gives (RemotePlan.compile dialect input) names child middle →
    Drafted child [.groupBy] groupSet middle draft after →
    draft.scope.fields groupSet = .ok groups →
    (groups.isEmpty && !calls.isEmpty) = false →
    (P ⟨convention, fields, .aggregate input groupSet groupingSets calls⟩ ↔ r.groupBy groups)
  sort : ∀ {convention fields input keys names middle after} {child : Fragment} {draft : Draft}
    {items},
    Gives (RemotePlan.compile dialect input) names child middle →
    Drafted child [.orderBy] (keys.map SortKey.field) middle draft after →
    draft.scope.ordering dialect keys = .ok items →
    (P ⟨convention, fields, .sort input keys⟩ ↔ r.orderBy items)
  set : ∀ {convention fields kind inputs all names queries after},
    QueriesOf (fun input names f after => Gives (input.compile dialect) names f after)
      inputs names queries after →
    (P ⟨convention, fields, .set kind inputs all⟩ ↔ r.inputs queries)
  rows : ∀ {convention fields first second rest},
    (P ⟨convention, fields, .values (first :: second :: rest)⟩ ↔
      r.inputs ((first :: second :: rest).map (Fragment.tupleQuery fields)))
  silent : ∀ {p : RemotePlan}, p.writes .groupBy = false → p.writes .orderBy = false →
    p.writes .setOp = false → P p

namespace RemotePlan

variable {r : Requirement} {P : RemotePlan → Prop} {Q : Prop} {p : RemotePlan}

/-- An operator on one input adds what is required of the operator. -/
theorem everywhere_of_input {input : RemotePlan} (only : p.inputs = [input]) (own : P p ↔ Q) :
    Q ∧ input.Everywhere P ↔ p.Everywhere P := by
  rw [everywhere_iff p, only, List.forall_mem_singleton, own]

theorem everywhere_of_leaf (leaf : p.inputs = []) (own : P p) : p.Everywhere P := by
  rw [everywhere_iff, leaf]
  exact ⟨own, by simp⟩

theorem everywhere_of_silent {input : RemotePlan} (only : p.inputs = [input]) (own : P p) :
    input.Everywhere P ↔ p.Everywhere P := by
  rw [← everywhere_of_input only (iff_true_intro own), true_and]

/-- What a plan compiles to meets a requirement exactly if what its nodes write does. -/
theorem compile_meets {dialect : Sql.Dialect} (readOff : r.ReadOff dialect P)
    {before after : Aliases} {f : Fragment} (run : Gives (p.compile dialect) before f after) :
    f.MeetsIff r (p.Everywhere P) := by
  refine compile_induction (motive := fun p _ f _ => f.MeetsIff r (p.Everywhere P))
    ?scan ?join ?filter ?projectSame ?project ?calculateSame ?calculateWhere ?calculateItems
    ?calculateBoth ?aggregate ?sort ?set ?row ?rows run
  case scan =>
    intro convention fields table names name after _
    refine .of_bare trivial (by simp) (iff_of_true (r.uniform_met.identifier _) ?_)
    exact everywhere_of_leaf rfl (readOff.silent rfl rfl rfl)
  case join =>
    intro convention fields left right condition kind keys names middle compiled taken after
      leftFragment rightFragment leftNode rightNode leftSources rightSources equalities
      _ leftIh _ rightIh leftTaken rightTaken equated
    have own : P ⟨convention, fields, .join left right condition kind keys⟩ :=
      readOff.silent rfl rfl rfl
    refine (leftIh.join rightIh leftTaken rightTaken equated kind fields).congr ?_
    rw [everywhere_iff ⟨convention, fields, .join left right condition kind keys⟩]
    simp [own, inputs, RemoteOp.inputs]
  case filter =>
    intro convention fields input condition names middle after child draft node _ ih drafted
      translated
    exact (ih.restrict drafted translated fields).congr
      (everywhere_of_silent rfl (readOff.silent rfl rfl rfl))
  case projectSame =>
    intro convention fields input projects names after child _ ih _
    exact ih.congr (everywhere_of_silent rfl (readOff.silent rfl rfl rfl))
  case project =>
    intro convention fields input projects names middle after child draft items _ ih _ drafted
      translated
    exact ((ih.list drafted translated fields).finish fields).congr
      (everywhere_of_silent rfl (readOff.silent rfl rfl rfl))
  case calculateSame =>
    intro convention fields input program names after child _ ih _
    exact ih.congr (everywhere_of_silent rfl (readOff.silent rfl rfl rfl))
  case calculateWhere =>
    intro convention fields input program names middle after child draft condition node _ ih _
      drafted found translated
    exact (ih.restrict drafted translated fields).congr
      (everywhere_of_silent rfl (readOff.silent rfl rfl rfl))
  case calculateItems =>
    intro convention fields input program names middle after child draft projects items _ ih _
      absent drafted _ translated
    exact ((ih.list drafted translated fields).finish fields).congr
      (everywhere_of_silent rfl (readOff.silent rfl rfl rfl))
  case calculateBoth =>
    intro convention fields input program names middle after child draft projects items condition
      node _ ih _ drafted _ translated found selected
    exact (ih.listWhere drafted translated selected fields).congr
      (everywhere_of_silent rfl (readOff.silent rfl rfl rfl))
  case aggregate =>
    intro convention fields input groupSet groupingSets calls names middle after child draft
      groups aggregates childRun ih drafted grouped aggregated
    refine (ih.aggregate (compile_counts childRun) drafted (.head _) grouped aggregated fields
      _).congr (everywhere_of_input rfl ?_)
    cases single : groups.isEmpty && !calls.isEmpty with
    | true =>
      -- A single group is left to the calls: nothing is written that could be required.
      have ungrouped := writes_groupBy convention fields input groupingSets calls grouped
      rw [single] at ungrouped
      exact iff_of_true (readOff.silent ungrouped rfl rfl) (by simp)
    | false => simpa using readOff.aggregate childRun drafted grouped single
  case sort =>
    intro convention fields input keys names middle after child draft items childRun ih drafted
      ordered
    exact (ih.sort (compile_counts childRun) drafted (.head _) ordered fields).congr
      (everywhere_of_input rfl (readOff.sort childRun drafted ordered))
  case set =>
    intro convention fields kind inputs all names queries after made
    have own : P ⟨convention, fields, .set kind inputs all⟩ ↔ r.inputs queries :=
      readOff.set (made.imp fun _ _ {_ _ _} both => both.1)
    have below : (∀ query ∈ queries, r.Met query) ↔ ∀ input ∈ inputs, input.Everywhere P :=
      made.forall_iff fun first complete => first.2.toQuery complete
    refine (Fragment.meetsIff_ofQueries below).congr ?_
    rw [← own, everywhere_iff ⟨convention, fields, .set kind inputs all⟩]
    exact Iff.rfl
  case row =>
    intro convention fields tuple names
    exact (Fragment.meetsIff_row fields tuple).congr
      (iff_of_true trivial (everywhere_of_leaf rfl (readOff.silent rfl rfl rfl)))
  case rows =>
    intro convention fields first second rest names
    have each : ∀ query ∈ (first :: second :: rest).map (Fragment.tupleQuery fields),
        r.Met query :=
      List.forall_mem_map.mpr fun tuple _ => Requirement.met_tupleQuery fields tuple
    refine (Fragment.meetsIff_ofQueries (iff_true_intro each)).congr ?_
    rw [everywhere_iff, readOff.rows]
    simp [inputs, RemoteOp.inputs]

/-- A statement meets a requirement exactly if what the nodes of its plan write does. -/
theorem statement_meets {dialect : Sql.Dialect} (readOff : r.ReadOff dialect P)
    {names after : Aliases} {s : Sql.Statement}
    (compiled : Gives (p.compileWith dialect) names s after) :
    r.Met s.root ↔ p.Everywhere P := by
  simp only [compileWith, gives_bind, gives_state, gives_pure] at compiled
  rcases compiled with ⟨f, middle, run, root, taken, stated, rfl, _⟩
  exact (compile_meets readOff run).toStatement stated

end RemotePlan

end Pushdown
