import Pushdown.Proofs.Compile.Expressions
import Pushdown.Proofs.Meaning.Select

/-!
# Statements compute the rows of their plans

`Fragment.Yields` says what the node of a fragment computes, as far as the compiler can still
build on it: a table or a join gives a frame, an open query is a `Select.Plain`, and of a query
that is closed to new clauses only the rows matter.  `Fragment.Carries` adds the names and widths
from the other invariants.

`RemotePlan.compile_yields` is the induction over the compiler.  The statement of a plan then
computes the rows of the plan, in every interpretation and over every database.
-/

namespace Pushdown

open Sql (Node Select)

variable {V : Type} {I : Interpretation V}

/-! ## Join conditions -/

section JoinConditions

variable {columns : List (String × String)} {row : Row V}

/-- A conjunction is true when all its parts are. -/
theorem exists_scalar?_conjunction {α : Type} {entries : List α} {nodes : List Node}
    {holds : α → Bool} (each : List.Forall₂ (fun entry node => ∃ value,
      node.scalar? I columns = some value ∧ I.isTrue (value row) = holds entry) entries nodes)
    {first : Node} {value : Row V → V} (head : first.scalar? I columns = some value) :
    ∃ whole,
      (nodes.foldl (fun left right => .scalarCall .and [left, right]) first).scalar? I columns =
        some whole ∧
      I.isTrue (whole row) = (I.isTrue (value row) && entries.all holds) := by
  induction each generalizing first value with
  | nil => exact ⟨value, head, by simp⟩
  | @cons entry node _ _ next _ ih =>
    obtain ⟨nextValue, computed, agrees⟩ := next
    have both : (Node.scalarCall .and [first, node]).scalar? I columns =
        some fun row => I.sqlCall .and [value row, nextValue row] := by
      rw [Node.scalarCall, Node.scalar?, Node.scalars?, Node.scalars?, Node.scalars?,
        head, computed]
      rfl
    obtain ⟨whole, done, truth⟩ := ih both
    refine ⟨whole, done, ?_⟩
    rw [truth, I.isTrue_and]
    simp [agrees, Bool.and_assoc]

/-- The condition between two scopes holds on a row that shows a left and a right row at the keys
when these are equal there. -/
theorem exists_condition?_equalities {left right : Scope} {keys : List (Nat × Nat)}
    {equalities : List Node} (equated : Scope.equalities left right keys = .ok equalities)
    {l r : Row V} (shown : ∀ key ∈ keys, left.Shows I columns row key.1 (l.getD key.1 I.null) ∧
      right.Shows I columns row key.2 (r.getD key.2 I.null)) :
    ∃ test, Sql.condition? I columns (Node.conjunction? equalities) = some test ∧
      test row = keys.all (JoinKeys.matched I l r) := by
  have each : List.Forall₂ (fun key node => ∃ value, node.scalar? I columns = some value ∧
      I.isTrue (value row) = JoinKeys.matched I l r key) keys equalities := by
    refine forall₂_imp_of_mem (Except.mapM_eq_ok_iff.mp equated) fun key member node done => ?_
    obtain ⟨leftNode, leftFound, done⟩ := Except.bind_eq_ok_iff.mp done
    obtain ⟨rightNode, rightFound, built⟩ := Except.bind_eq_ok_iff.mp done
    cases built
    obtain ⟨leftValue, leftRead, leftShown⟩ :=
      (shown key member).1 leftNode (Scope.field_eq_ok_iff.mp leftFound)
    obtain ⟨rightValue, rightRead, rightShown⟩ :=
      (shown key member).2 rightNode (Scope.field_eq_ok_iff.mp rightFound)
    refine ⟨fun row => I.sqlCall .eq [leftValue row, rightValue row], ?_, ?_⟩
    · rw [Node.scalarCall, Node.scalar?, Node.scalars?, Node.scalars?, Node.scalars?, leftRead,
        rightRead]
      rfl
    · dsimp only
      rw [leftShown, rightShown, JoinKeys.matched]
  cases each with
  | nil => exact ⟨_, rfl, rfl⟩
  | cons first rest =>
    obtain ⟨value, head, agrees⟩ := first
    obtain ⟨whole, done, truth⟩ := exists_scalar?_conjunction rest head
    rw [Node.conjunction?, Sql.condition?, done]
    refine ⟨_, rfl, ?_⟩
    dsimp only
    rw [truth, agrees, List.all_cons]

/-- The condition of a join holds when the fields are equal at each pair of keys. -/
theorem condition?_equalities {left right : List Source} {keys : List (Nat × Nat)}
    {equalities : List Node} (distinct : (columnsOf (left ++ right)).Nodup)
    (equated : Scope.equalities (.ofColumns left true) (.ofColumns right true) keys =
      .ok equalities) :
    Sql.condition? I (columnsOf (left ++ right)) (Node.conjunction? equalities) =
      some fun row => keys.all (JoinKeys.equal I (columnsOf left).length row) := by
  have leftFields : (Scope.ofColumns left true).Denotes I (columnsOf (left ++ right)) id := by
    rw [columnsOf_append] at distinct ⊢
    exact Scope.denotes_qualified [] (columnsOf right) distinct
  have rightFields : (Scope.ofColumns right true).Denotes I (columnsOf (left ++ right))
      fun row => row.drop (columnsOf left).length := by
    rw [columnsOf_append] at distinct ⊢
    have denotes := Scope.denotes_qualified (I := I) (columnsOf left) [] (by simpa using distinct)
    rwa [List.append_nil] at denotes
  have onRow (row : Row V) := exists_condition?_equalities equated (I := I) (l := row)
    fun key _ => ⟨leftFields.shows row key.1, rightFields.shows row key.2⟩
  -- The test does not depend on the row that it is found with.
  obtain ⟨test, computed, _⟩ := onRow []
  rw [computed]
  congr
  funext row
  obtain ⟨_, same, truth⟩ := onRow row
  rw [computed] at same
  cases same
  rw [truth]
  refine congrArg keys.all (funext fun key => ?_)
  simp [JoinKeys.equal, JoinKeys.matched, List.getD_eq_getElem?_getD]

end JoinConditions

/-! ## Fragments -/

variable [DecidableEq V] {tables : List String → Fields} {db : List String → Bag V}

/-- The node of the fragment computes the rows. -/
inductive Fragment.Yields (I : Interpretation V) (tables : List String → Fields)
    (db : List String → Bag V) (f : Fragment) (result : Bag V) : Node → Prop
  | table {parts : List String} (rows : db parts = result) :
      Yields I tables db f result (.identifier parts)
  | join {join : Sql.Join}
      (frame : (Node.join join).frame? I tables db = some ⟨columnsOf f.sources, result⟩)
      (distinct : ∀ source ∈ f.sources, source.fields.Nodup) :
      Yields I tables db f result (.join join)
  /-- A query without groups; it has a condition only if it can take no other. -/
  | plain {query : Select} {rows : Bag V} {test : Row V → Bool} {read : Row V → Row V}
      (plain : query.Plain I tables db f.sources rows test read)
      (free : f.clauses.conflicts .selection = false → query.selection = none)
      (rows : (rows.filter fun row => test row).map read = result) :
      Yields I tables db f result (.select query)
  /-- A query that takes no condition, select list or groups any more. -/
  | closed {query : Select} (used : f.clauses.conflicts .groupBy = true)
      (relation : (Node.select (expandStar query f.sources f.fields)).relation? I tables db =
        some ⟨f.fields, result⟩) :
      Yields I tables db f result (.select query)
  | setOp {operator : Sql.SetOperator} {inputs : List Node}
      (relation : (Node.setOp operator inputs).relation? I tables db = some ⟨f.fields, result⟩) :
      Yields I tables db f result (.setOp operator inputs)

/-- A query that takes no other condition may have one. -/
theorem Fragment.Yields.restricted {f : Fragment} {query : Select} {source result : Bag V}
    {test : Row V → Bool} {read : Row V → Row V} (used : f.clauses.conflicts .selection = true)
    (plain : query.Plain I tables db f.sources source test read)
    (rows : (source.filter fun row => test row).map read = result) :
    f.Yields I tables db result (.select query) := by
  refine .plain plain (fun unused => ?_) rows
  rw [used] at unused
  cases unused

/-- The fragment, made while names were taken from `before` to `after`, computes rows of its
fields. -/
structure Fragment.Carries (I : Interpretation V) (tables : List String → Fields)
    (db : List String → Bag V) (before after : Aliases) (f : Fragment) (result : Bag V) :
    Prop where
  names : f.Scoped tables before after
  distinct : f.fields.Nodup
  typed : ∀ row ∈ result, row.length = f.fields.length
  yields : f.Yields I tables db result f.node

/-- The columns of a `FROM` clause differ when its names do and so do the columns of
each source. -/
theorem Sql.Node.Offers.columnsOf_nodup {node : Node} {sources : List Source}
    (offers : node.Offers tables sources) (names : node.sourceNames.Nodup)
    (fields : ∀ source ∈ sources, source.fields.Nodup) : (columnsOf sources).Nodup := by
  have same : node.fromItems.map Node.outputName? = (sources.map (·.name)).map some := by
    rw [List.map_map]
    exact map_eq_map_iff_forall₂.mpr (offers.items.imp fun _ _ same => same.1)
  have distinct : ((sources.map (·.name)).map some).Nodup := same ▸ (List.nodup_append.mp names).1
  exact Pushdown.columnsOf_nodup (List.Nodup.of_map some distinct) fields

/-- A table under a name, which it may have already, gives the rows of the table. -/
theorem frame?_table {parts : List String} {fields : Fields} (name : String)
    (columns : tables parts = fields) :
    (if parts.getLast? = some name then Node.identifier parts
      else .named (.identifier parts) name).frame? I tables db =
      some ⟨columnsOf [⟨name, fields⟩], db parts⟩ := by
  subst columns
  split
  · rename_i last
    rw [Node.frame?, last]
    simp [columnsOf]
  · rw [Node.frame?]
    simp [columnsOf]

/-- A query under a name gives the rows of the query. -/
theorem frame?_derived {node : Node} {fields : Fields} {result : Bag V} (name : String)
    (isQuery : node.isQuery = true)
    (relation : node.relation? I tables db = some ⟨fields, result⟩) :
    (Node.named node name).frame? I tables db = some ⟨columnsOf [⟨name, fields⟩], result⟩ := by
  cases node with
  | select query =>
    rw [Node.frame?, relation]
    · simp [columnsOf]
    · intro parts same
      cases same
  | setOp operator inputs =>
    rw [Node.frame?, relation]
    · simp [columnsOf]
    · intro parts same
      cases same
  | _ => cases isQuery

namespace Fragment.Carries

variable {before middle start after : Aliases} {f : Fragment} {result : Bag V} {node : Node}
  {sources : List Source} {requested : List Clause} {keys : List Nat} {d : Draft}

/-- The fragment's own query, with its star written out. -/
theorem relation {query : Select} (carries : f.Carries I tables db before middle result)
    (own : f.node = .select query) :
    (Node.select (expandStar query f.sources f.fields)).relation? I tables db =
      some ⟨f.fields, result⟩ := by
  have names := carries.names
  have yields := carries.yields
  unfold Fragment.Scoped at names
  rw [own] at names yields
  cases names with
  | query _ _ lists _ =>
    cases yields with
    | plain plain _ rows => rw [plain.relation? lists, rows]
    | closed _ relation => exact relation

/-- The fragment as a row source. -/
theorem frame (carries : f.Carries I tables db before middle result)
    (run : f.toSource.run start = ((node, sources), after)) :
    node.frame? I tables db = some ⟨columnsOf sources, result⟩ ∧
      ∀ source ∈ sources, source.fields.Nodup := by
  have single (name : String) : ∀ source ∈ [Source.mk name f.fields], source.fields.Nodup :=
    List.forall_mem_singleton.mpr carries.distinct
  have names := carries.names
  have yields := carries.yields
  unfold Fragment.Scoped at names
  cases sourced_of_toSource carries.names.relational run with
  | table own named =>
    rw [own] at names yields
    cases names with
    | table chosen columns fresh =>
      cases yields with
      | table rows => exact ⟨rows ▸ frame?_table _ columns, single _⟩
  | join own =>
    rw [own] at yields
    cases yields with
    | join frame distinct => exact ⟨frame, distinct⟩
  | query own named => exact ⟨frame?_derived _ rfl (carries.relation own), single _⟩
  | setOp own named =>
    rw [own] at yields
    cases yields with
    | setOp relation => exact ⟨frame?_derived _ rfl relation, single _⟩

/-- A new query over the fragment. -/
theorem starFrom (carries : f.Carries I tables db before middle result)
    (run : f.toSource.run middle = ((node, sources), after)) :
    (Select.starFrom node).Plain I tables db sources result (fun _ => true) id := by
  obtain ⟨offers, width, exposed⟩ := carries.names.toSource run
  obtain ⟨frame, distinct⟩ := carries.frame run
  have names : node.sourceNames.Nodup := by
    simpa [Select.sourceNames, Select.starFrom] using exposed.starFrom.distinct
  refine .starFrom frame (offers.columnsOf_nodup names distinct) fun row member => ?_
  rw [carries.typed row member, columnsOf_length, width]

/-- The query of any draft, with its star written out. -/
theorem draft_relation (carries : f.Carries I tables db before middle result)
    (drafted : Drafted f requested keys middle d after) :
    (Node.select (expandStar d.query d.sources f.fields)).relation? I tables db =
      some ⟨f.fields, result⟩ := by
  have lists := (carries.names.draft drafted).lists
  rcases drafted.fresh_or_extended with ⟨source, taken, query, _⟩ | ⟨own, _, _, _, sources, _⟩
  · rw [query] at lists ⊢
    rw [(carries.starFrom taken).relation? lists]
    simp
  · rw [sources]
    exact carries.relation own

/-- A draft for groups or an earlier clause is a query without groups.  For a condition or an
earlier clause it has no condition. -/
theorem draft (carries : f.Carries I tables db before middle result)
    (drafted : Drafted f requested keys middle d after) {c : Clause} (asked : c ∈ requested)
    (early : c.rank ≤ Clause.groupBy.rank) :
    ∃ rows test read, d.query.Plain I tables db d.sources rows test read ∧
      (rows.filter fun row => test row).map read = result ∧
      (c.rank ≤ Clause.selection.rank → d.query.selection = none) := by
  rcases drafted.fresh_or_extended with ⟨source, taken, query, _⟩ | ⟨own, _, free, _, sources, _⟩
  · rw [query]
    exact ⟨result, _, _, carries.starFrom taken, by simp, fun _ => rfl⟩
  · have yields := carries.yields
    rw [own] at yields
    rw [sources]
    cases yields with
    | plain plain unrestricted rows =>
      refine ⟨_, _, _, plain, rows, fun order => unrestricted ?_⟩
      by_contra conflict
      have earlier := ClauseSet.conflicts_of_le (Bool.not_eq_false _ ▸ conflict) order
      rw [ClauseSet.conflicts_of_needsWrap free asked] at earlier
      cases earlier
    | closed used relation =>
      have earlier := ClauseSet.conflicts_of_le used early
      rw [ClauseSet.conflicts_of_needsWrap free asked] at earlier
      cases earlier

/-- A condition on a draft that was asked for one. -/
theorem draft_where (carries : f.Carries I tables db before middle result)
    (drafted : Drafted f requested keys middle d after) (asked : .selection ∈ requested)
    {condition : Expr} (translated : d.scope.expression condition = .ok node) :
    d.clauses.conflicts .selection = true ∧
      ∃ rows test read, (d.withSelection node).query.Plain I tables db d.sources rows test read ∧
        (rows.filter fun row => test row).map read =
          result.filter fun row => I.isTrue (condition.valueOn I row) := by
  obtain ⟨rows, test, read, plain, same, free⟩ := carries.draft drafted asked (by decide)
  rw [drafted.scope_eq] at translated
  obtain ⟨test', restricted, kept⟩ := plain.restrict_rows (free (by decide)) translated
  rw [same] at kept
  exact ⟨ClauseSet.conflicts_of_contains (drafted.contains asked) (Nat.le_refl _),
    rows, test', read, restricted, kept⟩

/-- The fragment as a complete query. -/
theorem toQuery (carries : f.Carries I tables db before middle result)
    (run : f.toQuery.run middle = (node, after)) :
    node.relation? I tables db = some ⟨f.fields, result⟩ := by
  rcases toQuery_cases run with ⟨own, isQuery, rfl, _⟩ | ⟨source, sources, _, taken, rfl⟩
  · exact carries.relation isQuery
  · obtain ⟨_, width, _⟩ := carries.names.toSource taken
    rw [(carries.starFrom taken).relation? width]
    simp

/-- The fragment as the root of a statement. -/
theorem toStatement (carries : f.Carries I tables db before middle result)
    (run : f.toStatement.run middle = (node, after)) :
    node.relation? I tables db = some ⟨f.fields, result⟩ := by
  rcases toStatement_cases run with ⟨operator, inputs, own, rfl⟩ | complete
  · have yields := carries.yields
    rw [own] at yields
    cases yields with
    | setOp relation => exact relation
  · exact carries.toQuery complete

end Fragment.Carries

/-! ## Set operations and constant rows -/

theorem SetKind.combine_toSql (kind : SetKind) (all : Bool) (bags : List (Bag V)) :
    (kind.toSql all).combine bags = kind.combine all bags := by
  cases kind <;> cases all <;> rfl

/-- Each query of a set operation gives the rows of its input. -/
theorem forall₂_relation? {inputs : List RemotePlan} {before after : Aliases}
    {queries : List Node}
    (made : QueriesOf (fun input before f after => f.fields = input.fields ∧
      f.Carries I tables db before after (input.eval I db)) inputs before queries after) :
    List.Forall₂ (fun (input : RemotePlan) query =>
      query.relation? I tables db = some ⟨input.fields, input.eval I db⟩) inputs queries := by
  induction made with
  | nil => exact .nil
  | cons first complete _ ih => exact .cons (first.1 ▸ first.2.toQuery complete) ih

theorem relations?_eq_some {α : Type} {entries : List α} {queries : List Node}
    {relation : α → Sql.Relation V}
    (each : List.Forall₂ (fun entry query => query.relation? I tables db = some (relation entry))
      entries queries) :
    Node.relations? I tables db queries = some (entries.map relation) := by
  induction each with
  | nil =>
    rw [Node.relations?]
    rfl
  | cons head _ ih =>
    rw [Node.relations?, head, ih]
    rfl

/-- A set operation over relations of the same width. -/
theorem relation?_setOp {α : Type} (operator : Sql.SetOperator) {first : α} {rest : List α}
    {queries : List Node} {fields : α → Fields} {rows : α → Bag V}
    (each : List.Forall₂ (fun entry query =>
      query.relation? I tables db = some ⟨fields entry, rows entry⟩) (first :: rest) queries)
    (even : ∀ entry ∈ rest, (fields entry).length = (fields first).length) :
    (Node.setOp operator queries).relation? I tables db =
      some ⟨fields first, operator.combine ((first :: rest).map rows)⟩ := by
  have all : ((rest.map fun entry => Sql.Relation.mk (fields entry) (rows entry)).all fun other =>
      other.columns.length == (fields first).length) = true := by
    rw [List.all_map, List.all_eq_true]
    exact fun entry member => beq_iff_eq.mpr (even entry member)
  rw [Node.relation?, relations?_eq_some each]
  simp only [List.map_cons, all, if_true, List.map_map]
  rfl

/-- A constant row is read off the one row of nothing. -/
theorem plain_tupleQuery {fields : Fields} {tuple : List Literal}
    (even : tuple.length = fields.length) :
    (Select.row (List.zipWith (fun literal name => Node.named (.literal literal) name) tuple
      fields)).Plain I tables db [] {[]} (fun _ => true) fun _ => tuple.map I.literal where
  source := rfl
  width := by simp [columnsOf]
  selection := rfl
  groupBy := rfl
  having := rfl
  scope := by
    rw [← selectList_literals even]
    exact Scope.denotes_selectList fields (Node.scalars?_literals _ tuple)
  length _ _ := by simp [Select.row, even]
  star := nofun

theorem relation?_tupleQuery {fields : Fields} {tuple : List Literal}
    (even : tuple.length = fields.length) :
    (Fragment.tupleQuery fields tuple).relation? I tables db =
      some ⟨fields, {tuple.map I.literal}⟩ := by
  have computed := (plain_tupleQuery even : Select.Plain I tables db _ _ _ _ _).relation?
    (tupleQuery_lists even)
  rw [expandStar_of_some rfl] at computed
  exact computed.trans (by simp)

/-- Constant rows, each of a query of its own, are put together as they are. -/
theorem combine_singletons (first : Row V) (rest : List (Row V)) :
    Sql.SetOperator.unionAll.combine ((first :: rest).map fun row => ({row} : Bag V)) =
      ((first :: rest : List (Row V)) : Bag V) := by
  have added (start : Bag V) :
      (rest.map fun row => ({row} : Bag V)).foldl (· + ·) start = start + (rest : Bag V) := by
    induction rest generalizing start with
    | nil => simp
    | cons row rest ih =>
      rw [List.map_cons, List.foldl_cons, ih, add_assoc, ← Multiset.cons_coe,
        Multiset.singleton_add]
  exact (added {first}).trans (by rw [Multiset.singleton_add, Multiset.cons_coe])

/-! ## The operators -/

section Operators

variable {before middle compiled taken after : Aliases} {left right child : Fragment}
  {draft : Draft} {requested : List Clause} {keys : List Nat} {c : Clause} {fields : Fields}
  {result : Bag V} {items : List Node}

/-- A join has the pairs of rows that are equal at the keys. -/
theorem Fragment.Carries.join {l r : Bag V} {leftNode rightNode : Node}
    {leftSources rightSources : List Source} {pairs : List (Nat × Nat)} {equalities : List Node}
    (carriesLeft : left.Carries I tables db before middle l)
    (carriesRight : right.Carries I tables db middle compiled r)
    (leftRun : left.toSource.run compiled = ((leftNode, leftSources), taken))
    (rightRun : right.toSource.run taken = ((rightNode, rightSources), after))
    (equated : Scope.equalities (.ofColumns leftSources true) (.ofColumns rightSources true)
      pairs = .ok equalities)
    (width : fields.length = left.fields.length + right.fields.length) (kind : JoinKind) :
    Fragment.Yields I tables db
      { node := .join ⟨leftNode, kind, rightNode, Node.conjunction? equalities⟩,
        clauses := .ofList [.source], sources := leftSources ++ rightSources, fields }
      (Bag.join I.null kind left.fields.length right.fields.length
        (fun row => pairs.all (JoinKeys.equal I left.fields.length row)) l r)
      (.join ⟨leftNode, kind, rightNode, Node.conjunction? equalities⟩) := by
  obtain ⟨leftFrame, leftDistinct⟩ := carriesLeft.frame leftRun
  obtain ⟨rightFrame, rightDistinct⟩ := carriesRight.frame rightRun
  have leftWidth : (columnsOf leftSources).length = left.fields.length := by
    rw [columnsOf_length, (carriesLeft.names.toSource leftRun).2.1]
  have rightWidth : (columnsOf rightSources).length = right.fields.length := by
    rw [columnsOf_length, (carriesRight.names.toSource rightRun).2.1]
  have distinct : ∀ source ∈ leftSources ++ rightSources, source.fields.Nodup :=
    List.forall_mem_append.mpr ⟨leftDistinct, rightDistinct⟩
  -- The names of all sources differ by the invariant on names, at the join.
  have columns : (columnsOf (leftSources ++ rightSources)).Nodup := by
    cases carriesLeft.names.join carriesRight.names leftRun rightRun equated width kind with
    | join offers _ fresh => exact offers.columnsOf_nodup fresh.distinct distinct
  refine .join ?_ distinct
  rw [Node.frame?, leftFrame, rightFrame]
  simp only [Option.bind_eq_bind, Option.bind_some]
  rw [← columnsOf_append, condition?_equalities columns equated, leftWidth, rightWidth]
  rfl

/-- A condition keeps the rows on which it is true. -/
theorem Fragment.Carries.restrict {condition : Expr} {node : Node}
    (carries : child.Carries I tables db before middle result)
    (drafted : Drafted child requested keys middle draft after) (asked : .selection ∈ requested)
    (translated : draft.scope.expression condition = .ok node) :
    ((draft.withSelection node).finish fields).Yields I tables db
      (result.filter fun row => I.isTrue (condition.valueOn I row))
      ((draft.withSelection node).finish fields).node := by
  obtain ⟨used, _, _, _, plain, kept⟩ := carries.draft_where drafted asked translated
  exact .restricted used plain kept

/-- A select list computes its expressions on each row. -/
theorem Fragment.Carries.list {projects : List Expr}
    (carries : child.Carries I tables db before middle result)
    (drafted : Drafted child requested keys middle draft after) (asked : c ∈ requested)
    (early : c.rank ≤ Clause.selection.rank)
    (translated : draft.scope.expressions projects = .ok items) :
    ((draft.withProjection (selectList fields items)).finish fields).Yields I tables db
      (result.map fun row => projects.map (Expr.valueOn I row))
      ((draft.withProjection (selectList fields items)).finish fields).node := by
  obtain ⟨_, _, _, plain, same, free⟩ :=
    carries.draft drafted asked (Nat.le_trans early (by decide))
  rw [drafted.scope_eq] at translated
  obtain ⟨_, listed, values⟩ := plain.select_rows fields translated
  rw [same] at values
  exact .plain listed (fun _ => free early) values

/-- A select list with a condition computes its expressions on the rows that are kept. -/
theorem Fragment.Carries.listWhere {projects : List Expr} {condition : Expr} {node : Node}
    (carries : child.Carries I tables db before middle result)
    (drafted : Drafted child requested keys middle draft after) (asked : .selection ∈ requested)
    (translated : draft.scope.expressions projects = .ok items)
    (selected : draft.scope.expression condition = .ok node) :
    (((draft.withProjection (selectList fields items)).withSelection node).finish fields).Yields
      I tables db ((result.filter fun row => I.isTrue (condition.valueOn I row)).map
        fun row => projects.map (Expr.valueOn I row))
      (((draft.withProjection (selectList fields items)).withSelection node).finish
        fields).node := by
  obtain ⟨used, _, _, _, plain, kept⟩ := carries.draft_where drafted asked selected
  rw [drafted.scope_eq] at translated
  obtain ⟨_, listed, values⟩ := plain.select_rows fields translated
  rw [kept] at values
  exact .restricted used listed values

/-- Groups have a row each; without group columns there is one group, also where no `GROUP BY` is
written because a call makes the query one group. -/
theorem Fragment.Carries.aggregate {groupSet : List Nat} {calls : List AggregateCall}
    {groups aggregates : List Node} (carries : child.Carries I tables db before middle result)
    (drafted : Drafted child [.groupBy] groupSet middle draft after)
    (grouped : draft.scope.fields groupSet = .ok groups)
    (aggregated : draft.scope.aggregates calls = .ok aggregates)
    (even : (groups ++ aggregates).length = fields.length) {f : Fragment}
    (made : f = (if groups.isEmpty && !calls.isEmpty then
        draft.withProjection (selectList fields (groups ++ aggregates))
      else (draft.withProjection (selectList fields (groups ++ aggregates))).withGroupBy
        groups).finish fields) :
    f.Yields I tables db
      ((if groupSet.isEmpty then {([], result)}
        else Bag.groups (fun row => groupSet.map fun column => row.getD column I.null) result).map
        fun group => group.1 ++ calls.map fun call => call.value I group.2) f.node := by
  obtain ⟨_, _, _, plain, rfl, _⟩ := carries.draft drafted (.head _) (by decide)
  have varying := drafted.isLiteral_of_fields grouped
  rw [drafted.scope_eq] at grouped aggregated
  have used : draft.clauses.conflicts .groupBy = true :=
    ClauseSet.conflicts_of_contains (drafted.contains (.head _)) (Nat.le_refl _)
  subst made
  split
  · rename_i alone
    rw [Bool.and_eq_true, List.isEmpty_iff, Bool.not_eq_true', List.isEmpty_eq_false_iff] at alone
    refine .closed used ?_
    rw [expandStar_of_some rfl, Node.relation?]
    exact plain.aggregate grouped aggregated varying even (.inr ⟨plain.groupBy, alone.1, alone.2⟩)
  · refine .closed used ?_
    rw [expandStar_of_some rfl, Node.relation?]
    exact plain.aggregate grouped aggregated varying even (.inl rfl)

/-- An order leaves the rows as they are. -/
theorem Fragment.Carries.sort (carries : child.Carries I tables db before middle result)
    (drafted : Drafted child requested keys middle draft after) (asked : .orderBy ∈ requested)
    (same : fields = child.fields) (orderItems : List Sql.OrderItem) :
    ((draft.withOrderBy orderItems).finish fields).Yields I tables db result
      ((draft.withOrderBy orderItems).finish fields).node := by
  have relation := carries.draft_relation drafted
  rw [← same] at relation
  refine .closed (ClauseSet.conflicts_of_contains (drafted.contains asked) (by decide)) ?_
  exact (relation?_withOrder _ _ _ _).trans relation

/-- A set operation combines the rows of its inputs under the names of the first. -/
theorem Fragment.yields_ofQueries {first : RemotePlan} {rest : List RemotePlan}
    {queries : List Node}
    (made : QueriesOf (fun input before f after => f.fields = input.fields ∧
      f.Carries I tables db before after (input.eval I db)) (first :: rest) before queries after)
    (even : ∀ input ∈ rest, input.fields.length = first.fields.length)
    (same : fields = first.fields) (kind : SetKind) (all : Bool) :
    (Fragment.ofQueries fields (kind.toSql all) queries).Yields I tables db
      (kind.combine all ((first :: rest).map (RemotePlan.eval I db)))
      (.setOp (kind.toSql all) queries) := by
  refine .setOp ?_
  rw [relation?_setOp _ (forall₂_relation? made) even, SetKind.combine_toSql]
  exact congrArg (fun columns => some (Sql.Relation.mk columns _)) same.symm

/-- Constant rows, each of a query of its own. -/
theorem Fragment.yields_rows {first : List Literal} {rest : List (List Literal)}
    (even : ∀ tuple ∈ first :: rest, tuple.length = fields.length) :
    (Fragment.ofQueries fields .unionAll
      ((first :: rest).map (Fragment.tupleQuery fields))).Yields I tables db
      ((first :: rest).map fun tuple => tuple.map I.literal : List (Row V))
      (.setOp .unionAll ((first :: rest).map (Fragment.tupleQuery fields))) := by
  have each : List.Forall₂ (fun tuple query => query.relation? I tables db =
      some ⟨fields, {tuple.map I.literal}⟩) (first :: rest)
      ((first :: rest).map (Fragment.tupleQuery fields)) :=
    List.forall₂_map_right_iff.mpr (List.forall₂_same.mpr fun tuple member =>
      relation?_tupleQuery (even tuple member))
  have whole := combine_singletons (first.map I.literal)
    (rest.map fun tuple => tuple.map I.literal)
  refine .setOp ?_
  rw [relation?_setOp _ each fun _ _ => rfl]
  rw [← List.map_cons (f := fun tuple : List Literal => tuple.map I.literal),
    List.map_map] at whole
  exact congrArg (fun rows => some (Sql.Relation.mk fields rows)) whole

end Operators

/-! ## Every plan -/

namespace RemotePlan

variable {dialect : Sql.Dialect} {convention : Convention} {fields : Fields} {input : RemotePlan}

/-- What is known of a fragment whose node computes the rows of its plan. -/
theorem carries_of_yields {p : RemotePlan} {before after : Aliases} {f : Fragment}
    (run : Gives (p.compile dialect) before f after) (fits : p.Everywhere (RowsFit tables db))
    (yields : f.Yields I tables db (p.eval I db) f.node) :
    f.fields = p.fields ∧ f.Carries I tables db before after (p.eval I db) := by
  obtain ⟨same, kept⟩ := compile_scoped run fun part member => (fits part member).names
  refine ⟨same, kept, ?_, fun row member => ?_, yields⟩
  · rw [same]
    exact fields_nodup fits
  · rw [same]
    exact length_of_mem_eval fits row member

/-- A projection to all fields leaves the rows as they are. -/
theorem eval_project_of_isIdentity {projects : List Expr}
    (below : input.Everywhere (RowsFit tables db))
    (identity : Expr.isIdentity projects input.fields.length = true) :
    (⟨convention, fields, .project input projects⟩ : RemotePlan).eval I db = input.eval I db := by
  rw [eval]
  exact (Multiset.map_congr rfl fun row member =>
    map_valueOn_of_isIdentity identity (length_of_mem_eval below row member)).trans
    (Multiset.map_id' _)

/-- A program that returns its input row keeps some of the rows as they are. -/
theorem eval_calculate_of_isStar {program : Program}
    (below : input.Everywhere (RowsFit tables db)) (star : program.isStar = true)
    (row : program.input = input.fields) :
    (⟨convention, fields, .calculate input program⟩ : RemotePlan).eval I db =
      (input.eval I db).filter fun values => program.keeps I values := by
  rw [eval]
  refine (Multiset.map_congr rfl fun values member => ?_).trans (Multiset.map_id' _)
  exact Program.outputRow_of_isStar star
    (row ▸ length_of_mem_eval below values (Multiset.mem_of_mem_filter member))

/-- A calculation gives the values of its projections, expanded. -/
theorem eval_calculate_of_projects {program : Program} {projects : List Expr}
    (expanded : program.projectExprs = .ok projects) :
    (⟨convention, fields, .calculate input program⟩ : RemotePlan).eval I db =
      ((input.eval I db).filter fun row => program.keeps I row).map fun row =>
        projects.map (Expr.valueOn I row) := by
  rw [eval]
  exact Multiset.map_congr rfl fun _ _ => Program.outputRow_eq expanded

/-- The compiler gives a fragment that computes the rows of the plan. -/
theorem compile_yields {p : RemotePlan} {before after : Aliases} {f : Fragment}
    (run : Gives (p.compile dialect) before f after) (fits : p.Everywhere (RowsFit tables db)) :
    f.Yields I tables db (p.eval I db) f.node := by
  refine compile_induction (motive := fun p _ f _ => p.Everywhere (RowsFit tables db) →
      f.Yields I tables db (p.eval I db) f.node)
    ?scan ?join ?filter ?projectSame ?project ?calculateSame ?calculateWhere ?calculateItems
    ?calculateBoth ?aggregate ?sort ?set ?row ?rows run fits
  case scan =>
    intro convention fields table names name after _ _
    rw [eval]
    exact .table rfl
  case join =>
    intro convention fields left right condition kind keys names middle compiled taken after
      leftFragment rightFragment leftNode rightNode leftSources rightSources equalities
      leftRun leftIh rightRun rightIh leftTaken rightTaken equated fits
    have leftBelow := fits.input (.head _)
    have rightBelow := fits.input (.tail _ (.head _))
    obtain ⟨sameLeft, carriesLeft⟩ := carries_of_yields leftRun leftBelow (leftIh leftBelow)
    obtain ⟨sameRight, carriesRight⟩ := carries_of_yields rightRun rightBelow (rightIh rightBelow)
    obtain ⟨joined, rfl, equi, _⟩ := fits.root.names.1
    dsimp only at joined
    have width : fields.length = leftFragment.fields.length + rightFragment.fields.length := by
      rw [joined, Fields.joined_length, sameLeft, sameRight]
    have yields := carriesLeft.join carriesRight leftTaken rightTaken equated width kind
    rw [sameLeft, sameRight] at yields
    simpa only [eval, JoinKeys.isTrue_of_isEqui equi] using yields
  case filter =>
    intro convention fields input condition names middle after child draft node childRun ih
      drafted translated fits
    have below := fits.input (.head _)
    obtain ⟨_, carries⟩ := carries_of_yields childRun below (ih below)
    rw [eval]
    exact carries.restrict drafted (.head _) translated
  case projectSame =>
    intro convention fields input projects names after child _ ih identity fits
    have below := fits.input (.head _)
    rw [Bool.and_eq_true] at identity
    rw [eval_project_of_isIdentity below identity.1]
    exact ih below
  case project =>
    intro convention fields input projects names middle after child draft items childRun ih _
      drafted translated fits
    have below := fits.input (.head _)
    obtain ⟨_, carries⟩ := carries_of_yields childRun below (ih below)
    rw [eval]
    exact carries.list drafted (.head _) (by decide) translated
  case calculateSame =>
    intro convention fields input program names after child _ ih star fits
    have below := fits.input (.head _)
    obtain ⟨_, ⟨_, row⟩, _⟩ := fits.root.names
    rw [Bool.and_eq_true, Option.isNone_iff_eq_none] at star
    rw [eval_calculate_of_isStar below star.1 row, Program.filter_keeps_of_none star.2]
    exact ih below
  case calculateWhere =>
    intro convention fields input program names middle after child draft condition node childRun
      ih star drafted found translated fits
    have below := fits.input (.head _)
    obtain ⟨_, ⟨_, row⟩, _⟩ := fits.root.names
    obtain ⟨_, carries⟩ := carries_of_yields childRun below (ih below)
    rw [eval_calculate_of_isStar below star row]
    simp only [Program.keeps_eq found]
    exact carries.restrict drafted (.tail _ (.head _)) translated
  case calculateItems =>
    intro convention fields input program names middle after child draft projects items childRun
      ih _ absent drafted expanded translated fits
    have below := fits.input (.head _)
    obtain ⟨_, carries⟩ := carries_of_yields childRun below (ih below)
    rw [eval_calculate_of_projects expanded, Program.filter_keeps_of_none absent]
    exact carries.list drafted (.head _) (by decide) translated
  case calculateBoth =>
    intro convention fields input program names middle after child draft projects items condition
      node childRun ih _ drafted expanded translated found selected fits
    have below := fits.input (.head _)
    obtain ⟨_, carries⟩ := carries_of_yields childRun below (ih below)
    rw [eval_calculate_of_projects expanded]
    simp only [Program.keeps_eq found]
    exact carries.listWhere drafted (.tail _ (.head _)) translated selected
  case aggregate =>
    intro convention fields input groupSet groupingSets calls names middle after child draft
      groups aggregates childRun ih drafted grouped aggregated fits
    have below := fits.input (.head _)
    obtain ⟨_, carries⟩ := carries_of_yields childRun below (ih below)
    obtain ⟨named, valid⟩ := fits.root.names.1
    have even := aggregateItems_length named grouped aggregated
    rw [eval, Bag.aggregate_eq valid]
    exact carries.aggregate drafted grouped aggregated even rfl
  case sort =>
    intro convention fields input keys names middle after child draft items childRun ih drafted
      _ fits
    have below := fits.input (.head _)
    obtain ⟨same, carries⟩ := carries_of_yields childRun below (ih below)
    obtain ⟨unchanged, _⟩ := fits.root.names.1
    rw [eval]
    exact carries.sort drafted (.head _) (unchanged.trans same.symm) items
  case set =>
    intro convention fields kind inputs all names queries after made fits
    have carried : QueriesOf (fun input before f after => f.fields = input.fields ∧
        f.Carries I tables db before after (input.eval I db)) inputs names queries after :=
      made.imp fun input member _ _ _ done =>
        carries_of_yields done.1 (fits.input member) (done.2 (fits.input member))
    obtain ⟨first, _⟩ := fits.root.names.1
    obtain ⟨nonempty, even⟩ := fits.root.sets
    rw [eval, evalAll_eq_map]
    cases inputs with
    | nil => exact absurd rfl nonempty
    | cons input others =>
      refine Fragment.yields_ofQueries carried (fun other member => ?_) first kind all
      exact (even other (.tail _ member)).trans (even input (.head _)).symm
  case row =>
    intro convention fields tuple names fits
    rw [eval]
    exact .plain (plain_tupleQuery (fits.root.names.1 tuple (.head _))) (fun _ => rfl) (by simp)
  case rows =>
    intro convention fields first second rest names fits
    rw [eval]
    exact Fragment.yields_rows fits.root.names.1

end RemotePlan

/-! ## Statements -/

/-- The statement of a converted plan computes the rows of the plan under the names of its fields,
whatever scalars and aggregate functions mean and whatever the tables hold. -/
theorem RuleSet.statement_computes_rows {rs : RuleSet} {plan : Plan} {p : RemotePlan}
    {s : Sql.Statement} (admissible : plan.Admissible)
    (converted : rs.convert plan = .ok (some p)) (compiled : p.toSql = .ok s)
    (I : Interpretation V) (db : List String → Bag V)
    (typed : ∀ table ∈ plan.tables, ∀ row ∈ db table.name, row.length = table.fields.length) :
    s.root.relation? I p.catalog db = some ⟨p.fields, p.eval I db⟩ := by
  obtain ⟨_, pushable, rfl⟩ := (rs.convert_eq_some_iff plan p).mp converted
  have fits := admissible.rowsFit pushable typed
  obtain ⟨f, middle, after, run, stated⟩ := RemotePlan.fragment_of_toSql compiled
  obtain ⟨same, carries⟩ :=
    RemotePlan.carries_of_yields (I := I) run fits (RemotePlan.compile_yields run fits)
  rw [← same]
  exact carries.toStatement stated

namespace Staff

/-- Equality and conjunction over numbers; an equality with a null is null. -/
def numberCall : ScalarOp → List (Option Int) → Option Int
  | .eq, [some v, some w] => some (if v = w then 1 else 0)
  | .and, operands => some (if operands.all (· == some 1) then 1 else 0)
  | _, _ => none

/-- Numbers and a null as values; a condition gives 1 where it holds, and aggregates count. -/
def numbers : Interpretation (Option Int) where
  literal
    | .boolean value => some (if value then 1 else 0)
    | .integer value => some value.toInt
    | _ => none
  isTrue value := value == some 1
  planCall
    | .scalar op => numberCall op
    | .multiset op => numberCall (.function op.functionName)
  sqlCall := numberCall
  planAggregate _ _ rows := some rows.card
  sqlAggregate _ _ rows := some rows.card
  isTrue_true := rfl
  isTrue_and operands := by
    rw [numberCall]
    cases operands.all (· == some 1) <;> rfl
  eq_symm v w := by
    cases v <;> cases w <;> simp [numberCall, eq_comm]
  planCall_eq op image operands same := by
    cases op <;> cases same <;> rfl
  planAggregate_eq _ _ _ := rfl

/-- Three employees in a row. -/
def staff : List String → Bag (Option Int)
  | ["hr", "emp"] => {[some 1, none], [some 2, some 1], [some 3, some 2]}
  | _ => 0

theorem hierarchy_admissible : hierarchy.Admissible := by
  have built : secondBosses.Built := .checked (p := secondBosses) rfl
  have tables : hierarchy.tables = [employees, employees] := rfl
  refine ⟨?_, ?_, ?_, by simp [tables]⟩
  · simp only [hierarchy, Plan.parts, List.forall_mem_cons, Plan.FieldsDistinct]
    exact ⟨by decide, trivial, trivial, by simp [employees]⟩
  · simp only [hierarchy, Plan.parts, List.forall_mem_cons, Plan.ProgramFits]
    exact ⟨⟨built, rfl⟩, trivial, trivial, by simp⟩
  · simp [hierarchy, Plan.parts, Plan.SetFits]

end Staff

open Staff in
theorem RuleSet.statement_computes_rows_hierarchy :
    ∃ p s, hierarchy.Admissible ∧ (RuleSet.full database).convert hierarchy = .ok (some p) ∧
      p.toSql = .ok s ∧
      (∀ table ∈ hierarchy.tables, ∀ row ∈ staff table.name, row.length = table.fields.length) ∧
      p.eval numbers staff = {[some 2, none], [some 3, some 1]} ∧
      s.root.relation? numbers p.catalog staff = some ⟨p.fields, p.eval numbers staff⟩ := by
  have converted :
      (RuleSet.full database).convert hierarchy = .ok (some (hierarchy.boundTo database)) := rfl
  have typed : ∀ table ∈ hierarchy.tables, ∀ row ∈ staff table.name,
      row.length = table.fields.length := by
    have tables : hierarchy.tables = [employees, employees] := rfl
    simp [tables, staff, employees]
  exact ⟨_, _, hierarchy_admissible, converted, rfl, typed, by decide +kernel,
    RuleSet.statement_computes_rows hierarchy_admissible converted rfl numbers staff typed⟩

end Pushdown
