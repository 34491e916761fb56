import Pushdown.Proofs.Compile.References
import Pushdown.Proofs.Compile.Run
import Pushdown.Proofs.Naming
import Pushdown.Proofs.Relation.Conversion
import Pushdown.Proofs.Scalar.Program

/-!
# Statements are well scoped

Names of row sources are taken from those that are free, so a statement has each of them once.
`Fresh` carries this through a run of the compiler: the names that a part of the statement uses
were free before the run and are taken after it.

`Fragment.Scoped` says what the compiler keeps of a fragment: its sources are those that its node
reads from, its columns are its fields, and its names are fresh.  Every operator preserves it.
-/

namespace Pushdown

open Sql (Node Select OrderItem)

/-! ## Fresh names -/

/-- The names differ; they were free before and are taken after. -/
structure Fresh (before after : Aliases) (names : List (Option String)) : Prop where
  grows : before.taken ⊆ after.taken
  distinct : names.Nodup
  taken : ∀ name ∈ names, ∃ text, name = some text ∧ text ∈ after.taken ∧ text ∉ before.taken

namespace Fresh

variable {before middle after : Aliases} {names others : List (Option String)}

theorem nil (before : Aliases) : Fresh before before [] :=
  ⟨List.Subset.refl _, List.nodup_nil, by simp⟩

/-- Where no name was taken, no name is fresh. -/
theorem eq_nil (fresh : Fresh before before names) : names = [] := by
  refine List.eq_nil_iff_forall_not_mem.mpr fun name member => ?_
  obtain ⟨_, _, taken, free⟩ := fresh.taken name member
  exact free taken

theorem perm (fresh : Fresh before after names) (same : others.Perm names) :
    Fresh before after others :=
  ⟨fresh.grows, same.nodup_iff.mpr fresh.distinct,
    fun name member => fresh.taken name (same.mem_iff.mp member)⟩

/-- Names taken one after the other differ. -/
theorem append (first : Fresh before middle names) (second : Fresh middle after others) :
    Fresh before after (names ++ others) := by
  refine ⟨fun text member => second.grows (first.grows member), ?_, ?_⟩
  · refine List.nodup_append.mpr ⟨first.distinct, second.distinct, ?_⟩
    rintro name member _ again rfl
    obtain ⟨text, rfl, taken, _⟩ := first.taken name member
    obtain ⟨_, same, _, free⟩ := second.taken _ again
    cases same
    exact free taken
  · intro name member
    rcases List.mem_append.mp member with early | late
    · obtain ⟨text, rfl, taken, free⟩ := first.taken name early
      exact ⟨text, rfl, second.grows taken, free⟩
    · obtain ⟨text, rfl, taken, free⟩ := second.taken name late
      exact ⟨text, rfl, taken, fun mem => free (first.grows mem)⟩

theorem of_reserve {base name : String} (reserved : before.reserve base = (name, after)) :
    Fresh before after [some name] := by
  obtain ⟨free, taken⟩ := Aliases.reserve_fresh reserved
  refine ⟨?_, by simp, ?_⟩
  · rw [taken]
    exact List.subset_cons_self _ _
  · intro _ member
    obtain rfl := List.mem_singleton.mp member
    exact ⟨name, rfl, by rw [taken]; exact List.mem_cons_self, free⟩

end Fresh

/-! ## Fragments -/

/-- What the compiler keeps of the node of a fragment that it makes while it takes names from
`before` to `after`. -/
inductive Fragment.Keeps (tables : List String → Fields) (before after : Aliases) (f : Fragment) :
    Node → Prop
  | table {parts : List String} {name : String} (chosen : f.chosen = some name)
      (columns : tables parts = f.fields) (fresh : Fresh before after [some name]) :
      Keeps tables before after f (.identifier parts)
  | join {join : Sql.Join} (offers : (Node.join join).Offers tables f.sources)
      (width : (f.sources.flatMap (·.fields)).length = f.fields.length)
      (fresh : Fresh before after (Node.join join).sourceNames) :
      Keeps tables before after f (.join join)
  | query {query : Select} (unchosen : f.chosen = none) (reads : query.ReadsFrom tables f.sources)
      (lists : query.Lists f.sources f.fields) (fresh : Fresh before after query.sourceNames) :
      Keeps tables before after f (.select query)
  | setOp {operator : Sql.SetOperator} {inputs : List Node} (unchosen : f.chosen = none)
      (below : ∀ query ∈ (Node.setOp operator inputs).selects, query.WellScoped tables)
      (columns : (Node.setOp operator inputs).outputNames tables = f.fields)
      (fresh : Fresh before after (Node.setOp operator inputs).exposed) :
      Keeps tables before after f (.setOp operator inputs)

/-- The compiler keeps this of a fragment: what its node reads is in scope, under fresh names. -/
def Fragment.Scoped (tables : List String → Fields) (before after : Aliases) (f : Fragment) :
    Prop :=
  f.Keeps tables before after f.node

/-- What holds of a complete query, or of the root of a statement. -/
structure Sql.Node.Complete (tables : List String → Fields) (before after : Aliases)
    (fields : Fields) (node : Node) : Prop where
  below : ∀ query ∈ node.selects, query.WellScoped tables
  columns : node.outputNames tables = fields
  fresh : Fresh before after node.exposed

/-- The names of a `FROM` clause are those that its fragment took, and those taken since. -/
def Sql.Node.Names (before middle start after : Aliases) (node : Node) : Prop :=
  ∃ early late, node.sourceNames.Perm (early ++ late) ∧ Fresh before middle early ∧
    Fresh start after late

section Fragments

variable {tables : List String → Fields} {before middle start after : Aliases} {f : Fragment}
  {fields : Fields}

theorem Fragment.Scoped.relational (kept : f.Scoped tables before after) : f.Relational := by
  unfold Relational
  unfold Scoped at kept
  generalize f.node = node at kept ⊢
  cases kept <;> trivial

/-- A query with its star written out is complete. -/
theorem Sql.Select.ReadsFrom.complete {query : Select} {sources : List Source}
    (reads : query.ReadsFrom tables sources) (lists : query.Lists sources fields)
    (fresh : Fresh before after query.sourceNames) :
    (Node.select (expandStar query sources fields)).Complete tables before after fields := by
  have same : (expandStar query sources fields).sourceNames = query.sourceNames := by
    rw [Select.sourceNames, source_expandStar, Select.sourceNames]
  refine ⟨reads.expanded.wellScoped ?_, ?_, fresh.perm (same ▸ reads.expanded.exposed_perm)⟩
  · exact (same ▸ fresh.distinct).sublist (Select.fromItems_sublist _)
  · rw [Node.outputNames]
    exact reads.outputNames lists

/-- A complete query under a new name is a row source with the columns of the query. -/
theorem Sql.Node.Complete.derived {node : Node} {name : String}
    (complete : node.Complete tables before middle fields) (isQuery : node.isQuery = true)
    (reserved : start.reserve "t" = (name, after)) :
    (Node.named node name).Offers tables [⟨name, fields⟩] ∧
      (Node.named node name).Names before middle start after := by
  have exposed : (Node.named node name).exposed = node.exposed := by
    rw [Node.exposed, Node.selects_named, Node.exposed]
  constructor
  · refine ⟨.cons ⟨rfl, ?_⟩ .nil, by simp [Node.onConditions], ?_⟩
    · rw [← complete.columns]
      cases node <;> simp_all [Node.isQuery, Node.rowColumns]
    · rw [Node.selects_named]
      exact complete.below
  · refine ⟨node.exposed, [some name], ?_, complete.fresh, .of_reserve reserved⟩
    rw [Node.sourceNames, exposed]
    exact List.perm_append_comm

/-- A table under a name, which it may have already, is a row source with the table's columns. -/
theorem offers_table {parts : List String} (fields : Fields) (name : String)
    (columns : tables parts = fields) :
    (if parts.getLast? = some name then Node.identifier parts
      else .named (.identifier parts) name).Offers tables [⟨name, fields⟩] ∧
    (if parts.getLast? = some name then Node.identifier parts
      else .named (.identifier parts) name).sourceNames = [some name] := by
  split
  · rename_i last
    have outer : (Node.identifier parts).outputName? = some name := last
    refine ⟨⟨.cons ⟨outer, ?_⟩ .nil, by simp [Node.onConditions], by simp⟩, ?_⟩
    · rw [Node.rowColumns, columns]
    · simp [Node.sourceNames, Node.fromItems, Node.exposed, outer]
  · refine ⟨⟨.cons ⟨rfl, ?_⟩ .nil, by simp [Node.onConditions], by simp⟩, ?_⟩
    · rw [Node.rowColumns, columns]
    · simp [Node.sourceNames, Node.fromItems, Node.exposed, Node.outputName?]

/-- A fragment as a row source: its node offers its sources, which have a column
for each field. -/
theorem Fragment.Scoped.toSource {node : Node} {sources : List Source}
    (kept : f.Scoped tables before middle)
    (run : f.toSource.run start = ((node, sources), after)) :
    node.Offers tables sources ∧ (sources.flatMap (·.fields)).length = f.fields.length ∧
      node.Names before middle start after := by
  have relational := kept.relational
  unfold Scoped at kept
  cases sourced_of_toSource relational run with
  | @table parts name _ own named =>
    rw [own] at kept
    cases kept with
    | table chosen columns fresh =>
      rw [chosen] at named
      cases named
      obtain ⟨offers, exposed⟩ := offers_table (f.fields) name columns
      refine ⟨offers, by simp, [some name], [], ?_, fresh, .nil _⟩
      rw [exposed]
      exact .refl _
  | join own =>
    rw [own] at kept
    cases kept with
    | join offers width fresh =>
      exact ⟨offers, width, _, [], by rw [List.append_nil], fresh, .nil _⟩
  | query own named =>
    rw [own] at kept
    cases kept with
    | query unchosen reads lists fresh =>
      rw [unchosen] at named
      have ⟨offers, exposed⟩ := (reads.complete lists fresh).derived rfl named
      exact ⟨offers, by simp, exposed⟩
  | setOp own named =>
    rw [own] at kept
    cases kept with
    | setOp unchosen below columns fresh =>
      rw [unchosen] at named
      have ⟨offers, exposed⟩ := Node.Complete.derived ⟨below, columns, fresh⟩ rfl named
      exact ⟨offers, by simp, exposed⟩

theorem Sql.Node.Offers.starFrom {node : Node} {sources : List Source}
    (offers : node.Offers tables sources) : (Select.starFrom node).ReadsFrom tables sources :=
  ⟨by rintro _ ⟨⟩; exact offers, nofun, by simp [Select.starFrom, Select.ownExpressions]⟩

theorem Sql.Node.Names.starFrom {node : Node} (exposed : node.Names before middle middle after) :
    Fresh before after (Select.starFrom node).sourceNames := by
  obtain ⟨early, late, perm, first, second⟩ := exposed
  refine (first.append second).perm ?_
  simpa [Select.sourceNames, Select.starFrom] using perm

/-- A fragment as a complete query. -/
theorem Fragment.Scoped.toQuery {query : Node} (kept : f.Scoped tables before middle)
    (run : f.toQuery.run middle = (query, after)) :
    query.Complete tables before after f.fields := by
  rcases toQuery_cases run with ⟨own, isQuery, rfl, rfl⟩ | ⟨source, sources, _, taken, rfl⟩
  · unfold Scoped at kept
    rw [isQuery] at kept
    cases kept with
    | query _ reads lists fresh => exact reads.complete lists fresh
  · obtain ⟨offers, width, exposed⟩ := kept.toSource taken
    exact offers.starFrom.complete width exposed.starFrom

/-- A fragment as the root of a statement. -/
theorem Fragment.Scoped.toStatement {root : Node} (kept : f.Scoped tables before middle)
    (run : f.toStatement.run middle = (root, after)) :
    ∃ last, root.Complete tables before last f.fields := by
  rcases toStatement_cases run with ⟨operator, inputs, own, rfl⟩ | complete
  · unfold Scoped at kept
    rw [own] at kept
    cases kept with
    | setOp _ below columns fresh => exact ⟨middle, below, columns, fresh⟩
  · exact ⟨after, kept.toQuery complete⟩

end Fragments

/-! ## Drafts -/

/-- What holds of a draft on a fragment: it reads from its sources and gives the fragment's
fields, and so may all that is written in its scope. -/
structure Draft.Scoped (tables : List String → Fields) (before after : Aliases) (fields : Fields)
    (d : Draft) : Prop where
  reads : d.query.ReadsFrom tables d.sources
  scope : d.scope.EachField (Node.Reads (RefersTo d.sources))
  lists : d.query.Lists d.sources fields
  fresh : Fresh before after d.query.sourceNames

section Drafts

variable {tables : List String → Fields} {before middle after : Aliases}
  {f : Fragment} {d : Draft} {requested : List Clause} {keys : List Nat} {fields : Fields}

theorem Fragment.Scoped.draft (kept : f.Scoped tables before middle)
    (drafted : Drafted f requested keys middle d after) :
    d.Scoped tables before after f.fields := by
  rcases drafted.fresh_or_extended with ⟨source, taken, query, scope⟩ |
    ⟨own, _, _, rfl, sources, scope⟩
  · obtain ⟨offers, width, exposed⟩ := kept.toSource taken
    refine ⟨query ▸ offers.starFrom, scope ▸ Scope.reads_ofSources, ?_, query ▸ exposed.starFrom⟩
    rw [query]
    exact width
  · unfold Fragment.Scoped at kept
    rw [own] at kept
    cases kept with
    | query _ reads lists fresh =>
      rw [← sources] at reads lists
      refine ⟨reads, ?_, lists, fresh⟩
      rw [scope]
      unfold Select.scope
      split
      · rename_i items listed
        refine Scope.reads_ofItems fun item member => reads.clauses item ?_
        simp [Select.ownExpressions, listed, member]
      · exact Scope.reads_ofSources

theorem Draft.Scoped.finish (kept : d.Scoped tables before after fields) :
    (d.finish fields).Scoped tables before after :=
  .query rfl kept.reads kept.lists kept.fresh

theorem Draft.Scoped.withSelection (kept : d.Scoped tables before after fields) {condition : Node}
    (reads : condition.Reads (RefersTo d.sources)) :
    (d.withSelection condition).Scoped tables before after fields := by
  refine ⟨kept.reads.congr rfl ?_, kept.scope, kept.lists, kept.fresh⟩
  exact Select.forall_withSelection kept.reads.clauses reads

/-- A new select list gives the fields under which it was written. -/
theorem Draft.Scoped.withProjection (kept : d.Scoped tables before after fields)
    {fields' : Fields} {nodes : List Node}
    (reads : ∀ node ∈ nodes, node.Reads (RefersTo d.sources))
    (even : nodes.length = fields'.length) :
    (d.withProjection (selectList fields' nodes)).Scoped tables before after fields' := by
  refine ⟨kept.reads.congr rfl ?_, kept.scope, map_outputName?_selectList even, kept.fresh⟩
  exact Select.forall_withProjection kept.reads.clauses (reads_selectList fields' reads)

theorem Draft.Scoped.withGroupBy (kept : d.Scoped tables before after fields) {keys : List Node}
    (reads : ∀ key ∈ keys, key.Reads (RefersTo d.sources)) :
    (d.withGroupBy keys).Scoped tables before after fields := by
  refine ⟨kept.reads.congr rfl ?_, kept.scope, kept.lists, kept.fresh⟩
  exact Select.forall_withGroupBy kept.reads.clauses reads

theorem Draft.Scoped.withOrderBy (kept : d.Scoped tables before after fields)
    {items : List OrderItem} (reads : ∀ item ∈ items, item.expr.Reads (RefersTo d.sources)) :
    (d.withOrderBy items).Scoped tables before after fields := by
  refine ⟨kept.reads.congr rfl ?_, kept.scope, kept.lists, kept.fresh⟩
  exact Select.forall_withOrderBy kept.reads.clauses reads

end Drafts

/-! ## Joins, set operations and constant rows -/

section Parts

variable {tables : List String → Fields} {before after : Aliases}

/-- A join of two row sources offers the sources of both. -/
theorem offers_join {left right : Node} (kind : JoinKind) {leftSources rightSources : List Source}
    {keys : List (Nat × Nat)} {equalities : List Node}
    (leftOffers : left.Offers tables leftSources) (rightOffers : right.Offers tables rightSources)
    (equated : Scope.equalities (.ofColumns leftSources true) (.ofColumns rightSources true)
      keys = .ok equalities) :
    (Node.join ⟨left, kind, right, Node.conjunction? equalities⟩).Offers tables
        (leftSources ++ rightSources) ∧
      (Node.join ⟨left, kind, right, Node.conjunction? equalities⟩).sourceNames.Perm
        (left.sourceNames ++ right.sourceNames) := by
  have equal : ∀ condition ∈ (Node.conjunction? equalities).toList,
      condition.Reads (NamesColumn (leftSources ++ rightSources)) := by
    have leftFields : (Scope.ofColumns leftSources true).EachField
        (Node.Reads (NamesColumn (leftSources ++ rightSources))) := fun ordinal node found =>
      (Scope.reads_qualified ordinal node found).imp fun _ =>
        NamesColumn.mono (List.subset_append_left _ _)
    have rightFields : (Scope.ofColumns rightSources true).EachField
        (Node.Reads (NamesColumn (leftSources ++ rightSources))) := fun ordinal node found =>
      (Scope.reads_qualified ordinal node found).imp fun _ =>
        NamesColumn.mono (List.subset_append_right _ _)
    exact (Scope.closed_reads _).conjunction
      (leftFields.equalities rightFields (Scope.closed_reads _) equated)
  have none : (Node.conjunction? equalities).toList.flatMap Node.selects = [] :=
    List.flatMap_eq_nil_iff.mpr fun condition member => (equal condition member).1
  constructor
  · refine ⟨?_, ?_, ?_⟩
    · rw [Node.fromItems]
      exact List.rel_append leftOffers.items rightOffers.items
    · rw [Node.onConditions, List.forall_mem_append, List.forall_mem_append]
      refine ⟨⟨fun condition member => ?_, fun condition member => ?_⟩, equal⟩
      · exact (leftOffers.conditions condition member).imp fun _ =>
          NamesColumn.mono (List.subset_append_left _ _)
      · exact (rightOffers.conditions condition member).imp fun _ =>
          NamesColumn.mono (List.subset_append_right _ _)
    · rw [Node.selects_join, none, List.append_nil]
      exact List.forall_mem_append.mpr ⟨leftOffers.below, rightOffers.below⟩
  · simp only [Node.sourceNames, Node.exposed, Node.fromItems, Node.selects_join, none,
      List.append_nil, List.map_append, List.flatMap_append, List.append_assoc]
    exact (List.perm_append_comm_assoc _ _ _).append_left _

/-- The queries of a set operation: together they are well scoped and their names are fresh, and
the first gives the names of the columns. -/
theorem queries_complete {inputs : List RemotePlan} {queries : List Node}
    (made : QueriesOf (fun input before f after =>
      f.fields = input.fields ∧ f.Scoped tables before after) inputs before queries after) :
    (∀ node ∈ queries, ∀ query ∈ node.selects, query.WellScoped tables) ∧
      Node.firstNames tables queries = (inputs.head?.map RemotePlan.fields).getD [] ∧
      Fresh before after (queries.flatMap Node.exposed) := by
  induction made with
  | nil => exact ⟨by simp, by simp [Node.firstNames], .nil _⟩
  | cons first complete _ ih =>
    obtain ⟨same, kept⟩ := first
    obtain ⟨below, _, fresh⟩ := ih
    have done := kept.toQuery complete
    refine ⟨List.forall_mem_cons.mpr ⟨done.below, below⟩, ?_, ?_⟩
    · simp [Node.firstNames, done.columns, same]
    · rw [List.flatMap_cons]
      exact done.fresh.append fresh

theorem exposed_setOp (operator : Sql.SetOperator) (inputs : List Node) :
    (Node.setOp operator inputs).exposed = inputs.flatMap Node.exposed := by
  rw [Node.exposed, Node.selects_setOp, List.flatMap_assoc]
  rfl

theorem tupleQuery_complete {fields : Fields} {tuple : List Literal}
    (even : tuple.length = fields.length) :
    (Fragment.tupleQuery fields tuple).Complete tables before before fields := by
  have whole := (tupleQuery_reads tables).complete (tupleQuery_lists even) (.nil before)
  rwa [expandStar_of_some rfl] at whole

end Parts

/-! ## The operators -/

theorem append_append_perm {α : Type} (a b c d : List α) :
    ((a ++ b) ++ (c ++ d)).Perm ((a ++ c) ++ (b ++ d)) := by
  simp only [List.append_assoc]
  exact (List.perm_append_comm_assoc _ _ _).append_left a

section Operators

variable {tables : List String → Fields} {before middle compiled taken after : Aliases}
  {left right child : Fragment} {draft : Draft} {requested : List Clause} {keys : List Nat}
  {fields : Fields} {items : List Node}

/-- A join has the sources of both sides, and takes their names in turn. -/
theorem Fragment.Scoped.join {leftNode rightNode : Node} {leftSources rightSources : List Source}
    {pairs : List (Nat × Nat)} {equalities : List Node}
    (keptLeft : left.Scoped tables before middle)
    (keptRight : right.Scoped tables middle compiled)
    (leftRun : left.toSource.run compiled = ((leftNode, leftSources), taken))
    (rightRun : right.toSource.run taken = ((rightNode, rightSources), after))
    (equated : Scope.equalities (.ofColumns leftSources true) (.ofColumns rightSources true)
      pairs = .ok equalities)
    (width : fields.length = left.fields.length + right.fields.length) (kind : JoinKind) :
    Fragment.Scoped tables before after
      { node := .join ⟨leftNode, kind, rightNode, Node.conjunction? equalities⟩,
        clauses := .ofList [.source], sources := leftSources ++ rightSources, fields } := by
  obtain ⟨leftOffers, leftWidth, leftNames⟩ := keptLeft.toSource leftRun
  obtain ⟨rightOffers, rightWidth, rightNames⟩ := keptRight.toSource rightRun
  obtain ⟨offers, exposed⟩ := offers_join kind leftOffers rightOffers equated
  refine Fragment.Keeps.join offers ?_ ?_
  · rw [List.flatMap_append, List.length_append, leftWidth, rightWidth, width]
  · obtain ⟨leftEarly, leftLate, leftPerm, first, third⟩ := leftNames
    obtain ⟨rightEarly, rightLate, rightPerm, second, fourth⟩ := rightNames
    refine ((first.append second).append (third.append fourth)).perm (exposed.trans ?_)
    exact (leftPerm.append rightPerm).trans (append_append_perm _ _ _ _)

/-- A condition over the fields of a fragment. -/
theorem Fragment.Scoped.restrict {condition : Expr} {node : Node}
    (kept : child.Scoped tables before middle)
    (drafted : Drafted child requested keys middle draft after)
    (translated : draft.scope.expression condition = .ok node) (same : fields = child.fields) :
    ((draft.withSelection node).finish fields).Scoped tables before after := by
  have draftKept := kept.draft drafted
  rw [← same] at draftKept
  exact (draftKept.withSelection
    (draftKept.scope.expression (Scope.closed_reads _) translated)).finish

/-- A select list over the fields of a fragment. -/
theorem Fragment.Scoped.list {projects : List Expr} (kept : child.Scoped tables before middle)
    (drafted : Drafted child requested keys middle draft after)
    (translated : draft.scope.expressions projects = .ok items)
    (even : items.length = fields.length) :
    (draft.withProjection (selectList fields items)).Scoped tables before after fields := by
  have draftKept := kept.draft drafted
  exact draftKept.withProjection
    (draftKept.scope.expressions (Scope.closed_reads _) translated) even

/-- A select list and a condition, both over the fields of a fragment. -/
theorem Fragment.Scoped.listWhere {projects : List Expr} {condition : Expr} {node : Node}
    (kept : child.Scoped tables before middle)
    (drafted : Drafted child requested keys middle draft after)
    (translated : draft.scope.expressions projects = .ok items)
    (selected : draft.scope.expression condition = .ok node)
    (even : items.length = fields.length) :
    (((draft.withProjection (selectList fields items)).withSelection node).finish fields).Scoped
      tables before after :=
  ((kept.list drafted translated even).withSelection
    ((kept.draft drafted).scope.expression (Scope.closed_reads _) selected)).finish

/-- The groups of a fragment: its select list holds the group columns and the calls, and the group
columns are repeated in `GROUP BY` if that is written. -/
theorem Fragment.Scoped.aggregate {groupSet : List Nat} {calls : List AggregateCall}
    {groups aggregates : List Node} (kept : child.Scoped tables before middle)
    (drafted : Drafted child requested keys middle draft after)
    (grouped : draft.scope.fields groupSet = .ok groups)
    (aggregated : draft.scope.aggregates calls = .ok aggregates)
    (even : (groups ++ aggregates).length = fields.length) (alone : Bool) :
    ((if alone then draft.withProjection (selectList fields (groups ++ aggregates))
      else (draft.withProjection (selectList fields (groups ++ aggregates))).withGroupBy
        groups).finish fields).Scoped tables before after := by
  have draftKept := kept.draft drafted
  have columns := draftKept.scope.fields grouped
  have listed := draftKept.withProjection (List.forall_mem_append.mpr
    ⟨columns, draftKept.scope.aggregates (Scope.closed_reads _) aggregated⟩) even
  cases alone with
  | true => exact listed.finish
  | false => exact (listed.withGroupBy columns).finish

/-- An order by fields of a fragment. -/
theorem Fragment.Scoped.sort {dialect : Sql.Dialect} {sortKeys : List SortKey}
    {orderItems : List OrderItem} (kept : child.Scoped tables before middle)
    (drafted : Drafted child requested keys middle draft after)
    (ordered : draft.scope.ordering dialect sortKeys = .ok orderItems)
    (same : fields = child.fields) :
    ((draft.withOrderBy orderItems).finish fields).Scoped tables before after := by
  have draftKept := kept.draft drafted
  rw [← same] at draftKept
  exact (draftKept.withOrderBy
    (draftKept.scope.ordering (Scope.closed_reads _) ordered)).finish

/-- A set operation has the columns of its first query, and the names of all of them. -/
theorem Fragment.scoped_ofQueries {inputs : List RemotePlan} {queries : List Node}
    (made : QueriesOf (fun input before f after =>
      f.fields = input.fields ∧ f.Scoped tables before after) inputs before queries after)
    (first : fields = (inputs.head?.map RemotePlan.fields).getD [])
    (operator : Sql.SetOperator) :
    (Fragment.ofQueries fields operator queries).Scoped tables before after := by
  obtain ⟨below, columns, fresh⟩ := queries_complete made
  refine .setOp rfl ?_ ?_ ?_
  · rw [Node.selects_setOp]
    intro query member
    obtain ⟨node, mem, within⟩ := List.mem_flatMap.mp member
    exact below node mem query within
  · rw [Node.outputNames, columns]
    exact first.symm
  · rw [exposed_setOp]
    exact fresh

/-- One constant row. -/
theorem Fragment.scoped_row {tuple : List Literal} (even : tuple.length = fields.length) :
    Fragment.Scoped tables before before
      { node := Fragment.tupleQuery fields tuple, clauses := .ofList [.select], sources := [],
        fields } :=
  .query rfl (tupleQuery_reads tables) (tupleQuery_lists even) (.nil before)

/-- Constant rows, each of a query of its own, take no names. -/
theorem Fragment.scoped_rows {first : List Literal} {rest : List (List Literal)}
    (even : ∀ tuple ∈ first :: rest, tuple.length = fields.length) (operator : Sql.SetOperator) :
    (Fragment.ofQueries fields operator
      ((first :: rest).map (Fragment.tupleQuery fields))).Scoped tables before before := by
  have complete (tuple : List Literal) (member : tuple ∈ first :: rest) :
      (Fragment.tupleQuery fields tuple).Complete tables before before fields :=
    tupleQuery_complete (even tuple member)
  refine .setOp rfl ?_ ?_ ?_
  · rw [Node.selects_setOp]
    intro query member
    obtain ⟨node, mem, within⟩ := List.mem_flatMap.mp member
    obtain ⟨tuple, among, rfl⟩ := List.mem_map.mp mem
    exact (complete tuple among).below query within
  · rw [Node.outputNames]
    exact (complete first (.head _)).columns
  · rw [exposed_setOp, List.flatMap_eq_nil_iff.mpr]
    · exact .nil before
    · intro node mem
      obtain ⟨tuple, among, rfl⟩ := List.mem_map.mp mem
      exact (complete tuple among).fresh.eq_nil

end Operators

/-! ## Every plan -/

namespace RemotePlan

/-- The program of the node, if it has one, was checked and is one for rows of the
node's input. -/
def ProgramFits (p : RemotePlan) : Prop :=
  match p.op with
  | .calculate input program => program.Built ∧ program.input = input.fields
  | _ => True

/-- The table of the node, if it scans one, has the columns that `tables` gives. -/
def TableFits (tables : List String → Fields) (p : RemotePlan) : Prop :=
  ∀ table ∈ p.scanned?, tables table.name = table.fields

/-- What a plan has to be at each node for its names to be right. -/
def NamesFit (tables : List String → Fields) (p : RemotePlan) : Prop :=
  p.Sound ∧ p.ProgramFits ∧ p.TableFits tables

variable {dialect : Sql.Dialect} {tables : List String → Fields}

theorem output_of_isStar {program : Program} (star : program.isStar = true) :
    program.output = program.input := by
  simp only [Program.isStar, Bool.and_eq_true, beq_iff_eq] at star
  exact star.1.2

/-- The select list of a checked program has an item for each field. -/
theorem items_length {convention : Convention} {fields : Fields} {input : RemotePlan}
    {program : Program} {scope : Scope} {projects : List Expr} {items : List Node}
    (fits : NamesFit tables ⟨convention, fields, .calculate input program⟩)
    (expanded : program.projectExprs = .ok projects)
    (translated : scope.expressions projects = .ok items) : items.length = fields.length := by
  obtain ⟨⟨output, _⟩, ⟨built, _⟩, _⟩ := fits
  dsimp only at output
  rw [Scope.length_of_expressions translated, Program.length_of_projectExprs expanded,
    built.length_eq, output]

/-- The select list of an aggregate has an item for each field. -/
theorem aggregateItems_length {fields inputFields : Fields} {scope : Scope} {groupSet : List Nat}
    {calls : List AggregateCall} {groups aggregates : List Node}
    (named : fields = aggregateFields inputFields groupSet calls)
    (grouped : scope.fields groupSet = .ok groups)
    (aggregated : scope.aggregates calls = .ok aggregates) :
    (groups ++ aggregates).length = fields.length := by
  rw [named, aggregateFields_length, List.length_append, Scope.length_of_fields grouped,
    Scope.length_of_aggregates aggregated]

/-- The compiler gives a fragment of the plan's fields that keeps to the names of its sources. -/
theorem compile_scoped {p : RemotePlan} {before after : Aliases} {f : Fragment}
    (run : Gives (p.compile dialect) before f after) (fits : p.Everywhere (NamesFit tables)) :
    f.fields = p.fields ∧ f.Scoped tables before after := by
  refine compile_induction (motive := fun p before f after => p.Everywhere (NamesFit tables) →
    f.fields = p.fields ∧ f.Scoped tables before after)
    ?scan ?join ?filter ?projectSame ?project ?calculateSame ?calculateWhere ?calculateItems
    ?calculateBoth ?aggregate ?sort ?set ?row ?rows run fits
  case scan =>
    intro convention fields table names name after reserved fits
    obtain ⟨same, _, columns⟩ := fits.root
    exact ⟨rfl, .table rfl ((columns table rfl).trans same.symm) (.of_reserve reserved)⟩
  case join =>
    intro convention fields left right condition kind keys names middle compiled taken after
      leftFragment rightFragment leftNode rightNode leftSources rightSources equalities
      _ leftIh _ rightIh leftRun rightRun equated fits
    obtain ⟨sameLeft, keptLeft⟩ := leftIh (fits.input (.head _))
    obtain ⟨sameRight, keptRight⟩ := rightIh (fits.input (.tail _ (.head _)))
    obtain ⟨⟨joined, _⟩, _⟩ := fits.root
    dsimp only at joined
    refine ⟨rfl, keptLeft.join keptRight leftRun rightRun equated ?_ kind⟩
    rw [joined, Fields.joined_length, sameLeft, sameRight]
  case filter =>
    intro convention fields input condition names middle after child draft node _ ih drafted
      translated fits
    obtain ⟨same, kept⟩ := ih (fits.input (.head _))
    obtain ⟨⟨unchanged, _⟩, _⟩ := fits.root
    exact ⟨rfl, kept.restrict drafted translated (unchanged.trans same.symm)⟩
  case projectSame =>
    intro convention fields input projects names after child _ ih identity fits
    obtain ⟨same, kept⟩ := ih (fits.input (.head _))
    rw [Bool.and_eq_true, beq_iff_eq] at identity
    exact ⟨same.trans identity.2.symm, kept⟩
  case project =>
    intro convention fields input projects names middle after child draft items _ ih _ drafted
      translated fits
    obtain ⟨_, kept⟩ := ih (fits.input (.head _))
    obtain ⟨⟨named, _⟩, _⟩ := fits.root
    have even : items.length = fields.length :=
      (Scope.length_of_expressions translated).trans named
    exact ⟨rfl, (kept.list drafted translated even).finish⟩
  case calculateSame =>
    intro convention fields input program names after child _ ih star fits
    obtain ⟨same, kept⟩ := ih (fits.input (.head _))
    obtain ⟨⟨output, _⟩, ⟨_, row⟩, _⟩ := fits.root
    rw [Bool.and_eq_true] at star
    exact ⟨same.trans (row.symm.trans ((output_of_isStar star.1).symm.trans output.symm)), kept⟩
  case calculateWhere =>
    intro convention fields input program names middle after child draft condition node _ ih star
      drafted found translated fits
    obtain ⟨same, kept⟩ := ih (fits.input (.head _))
    obtain ⟨⟨output, _⟩, ⟨_, row⟩, _⟩ := fits.root
    dsimp only at output
    have unchanged : fields = child.fields := by rw [output, output_of_isStar star, row, same]
    exact ⟨rfl, kept.restrict drafted translated unchanged⟩
  case calculateItems =>
    intro convention fields input program names middle after child draft projects items _ ih _ _
      drafted expanded translated fits
    obtain ⟨_, kept⟩ := ih (fits.input (.head _))
    have even := items_length fits.root expanded translated
    exact ⟨rfl, (kept.list drafted translated even).finish⟩
  case calculateBoth =>
    intro convention fields input program names middle after child draft projects items condition
      node _ ih _ drafted expanded translated found selected fits
    obtain ⟨_, kept⟩ := ih (fits.input (.head _))
    have even := items_length fits.root expanded translated
    exact ⟨rfl, kept.listWhere drafted translated selected even⟩
  case aggregate =>
    intro convention fields input groupSet groupingSets calls names middle after child draft
      groups aggregates _ ih drafted grouped aggregated fits
    obtain ⟨_, kept⟩ := ih (fits.input (.head _))
    obtain ⟨⟨named, _⟩, _⟩ := fits.root
    have even := aggregateItems_length named grouped aggregated
    exact ⟨rfl, kept.aggregate drafted grouped aggregated even _⟩
  case sort =>
    intro convention fields input keys names middle after child draft items _ ih drafted ordered
      fits
    obtain ⟨same, kept⟩ := ih (fits.input (.head _))
    obtain ⟨⟨unchanged, _⟩, _⟩ := fits.root
    exact ⟨rfl, kept.sort drafted ordered (unchanged.trans same.symm)⟩
  case set =>
    intro convention fields kind inputs all names queries after made fits
    have kept : QueriesOf (fun input before f after =>
        f.fields = input.fields ∧ f.Scoped tables before after) inputs names queries after :=
      made.imp fun input member _ _ _ done => done.2 (fits.input member)
    obtain ⟨⟨first, _⟩, _⟩ := fits.root
    exact ⟨rfl, Fragment.scoped_ofQueries kept first _⟩
  case row =>
    intro convention fields tuple names fits
    exact ⟨rfl, Fragment.scoped_row (fits.root.1 tuple (.head _))⟩
  case rows =>
    intro convention fields first second rest names fits
    exact ⟨rfl, Fragment.scoped_rows fits.root.1 _⟩

/-- The columns of the tables that a plan scans, by the name of the table. -/
def catalog (p : RemotePlan) (name : List String) : Fields :=
  ((p.tables.find? fun table => table.name = name).map (·.fields)).getD []

theorem catalog_eq {p : RemotePlan} {table : Table} (member : table ∈ p.tables)
    (tables : ∀ t ∈ p.tables, ∀ u ∈ p.tables, t.name = u.name → t.fields = u.fields) :
    p.catalog table.name = table.fields := by
  unfold catalog
  cases found : p.tables.find? fun other => other.name = table.name with
  | none => exact absurd (decide_eq_true rfl) (List.find?_eq_none.mp found table member)
  | some other =>
    have named : other.name = table.name := by simpa using List.find?_some found
    exact tables other (List.mem_of_find?_eq_some found) table member named

/-- Where tables of one name have the same columns, all scans have those of the catalog. -/
theorem everywhere_tableFits {p : RemotePlan}
    (tables : ∀ t ∈ p.tables, ∀ u ∈ p.tables, t.name = u.name → t.fields = u.fields) :
    p.Everywhere (TableFits p.catalog) :=
  fun part member _ scans =>
    catalog_eq (List.mem_filterMap.mpr ⟨part, member, scans⟩) tables

end RemotePlan

/-- The names of the row sources of a statement differ, and every column reference of a query
names a column of one item of the query's `FROM` clause. -/
theorem RuleSet.statement_wellScoped {rs : RuleSet} {plan : Plan} {p : RemotePlan}
    {s : Sql.Statement} (converted : rs.convert plan = .ok (some p))
    (programs : p.Everywhere RemotePlan.ProgramFits)
    (tables : ∀ t ∈ p.tables, ∀ u ∈ p.tables, t.name = u.name → t.fields = u.fields)
    (compiled : p.toSql = .ok s) :
    (s.root.exposed.Nodup ∧ ∀ name ∈ s.root.exposed, name.isSome) ∧
      ∀ query ∈ s.root.selects, query.WellScoped p.catalog := by
  obtain ⟨f, middle, after, run, stated⟩ := RemotePlan.fragment_of_toSql compiled
  have fits : p.Everywhere (RemotePlan.NamesFit p.catalog) := fun part member =>
    ⟨RuleSet.convert_sound converted part member, programs part member,
      RemotePlan.everywhere_tableFits tables part member⟩
  obtain ⟨_, kept⟩ := RemotePlan.compile_scoped run fits
  obtain ⟨last, complete⟩ := kept.toStatement stated
  refine ⟨⟨complete.fresh.distinct, fun name member => ?_⟩, complete.below⟩
  obtain ⟨text, rfl, _⟩ := complete.fresh.taken name member
  rfl

namespace Staff

/-- A database of employees. -/
def database : Convention := ⟨"hr", .ofProduct .ansi⟩

def employees : Table := { name := ["hr", "emp"], fields := ["id", "boss"], host := some "hr" }

/-- Of an employee next to their boss, the employee and the boss's boss. -/
def secondBosses : Program where
  input := ["id", "boss", "id0", "boss0"]
  exprs := [.input 0, .input 3]
  projects := [0, 1]
  condition := none
  output := ["id", "top"]

/-- A program over an ordered join of a table with itself. -/
def hierarchy : Plan :=
  .calculate
    (.sort
      (.join (.scan employees) (.scan employees) (.scalarCall .eq [.input 1, .input 2]) .inner)
      [⟨0, .ascending, .unspecified⟩] none none)
    secondBosses

theorem hierarchy_programFits :
    (hierarchy.boundTo database).Everywhere RemotePlan.ProgramFits := by
  have built : secondBosses.Built := .checked (p := secondBosses) rfl
  simp only [RemotePlan.Everywhere, hierarchy, Plan.boundTo, RemotePlan.parts,
    List.forall_mem_cons, RemotePlan.ProgramFits]
  exact ⟨⟨built, rfl⟩, trivial, trivial, by simp⟩

end Staff

open Staff in
theorem RuleSet.statement_wellScoped_hierarchy :
    ∃ p s, (RuleSet.full database).convert hierarchy = .ok (some p) ∧
      p.Everywhere RemotePlan.ProgramFits ∧
      (∀ t ∈ p.tables, ∀ u ∈ p.tables, t.name = u.name → t.fields = u.fields) ∧
      p.toSql = .ok s ∧ s.root.exposed = [some "t", some "emp", some "emp0"] ∧
      ((s.root.exposed.Nodup ∧ ∀ name ∈ s.root.exposed, name.isSome) ∧
        ∀ query ∈ s.root.selects, query.WellScoped p.catalog) := by
  have converted :
      (RuleSet.full database).convert hierarchy = .ok (some (hierarchy.boundTo database)) := rfl
  have tables : ∀ t ∈ (hierarchy.boundTo database).tables,
      ∀ u ∈ (hierarchy.boundTo database).tables, t.name = u.name → t.fields = u.fields := by
    have both : (hierarchy.boundTo database).tables = [employees, employees] := rfl
    simp [both]
  exact ⟨_, _, converted, hierarchy_programFits, tables, rfl, by decide +kernel,
    RuleSet.statement_wellScoped converted hierarchy_programFits tables rfl⟩

end Pushdown
