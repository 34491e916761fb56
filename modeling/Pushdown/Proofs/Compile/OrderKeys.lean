import Pushdown.Proofs.Compile.Outline
import Pushdown.Proofs.Compile.Scoping

/-!
# Keys of an order and the names of a select list

A bare name in an `ORDER BY` clause stands for the select item of that name, if there is one, and
only else for a column of the `FROM` clause.  A sort that extends a query writes its keys as the
columns that the select items are made of, so that a key can be taken for another item.

`RuleSet.orderKeys_free_iff` tells from the plan when this happens: exactly when some sort has a
key that is a column by its bare name, in a query which gives that name to another item.
-/

namespace Pushdown

open Sql (Node Select OrderItem)

/-! ## Queries -/

namespace Sql

/-- A bare name among the keys of the order is the name of no item but the column itself. -/
def Select.OrderKeysFree (query : Select) : Prop :=
  ∀ items ∈ query.projection, ∀ key ∈ query.orderBy.getD [], ∀ name,
    key.expr = .identifier [name] →
    ∀ item ∈ items, item.outputName? = some name → item.unnamed = .identifier [name]

/-- The same of every query in the tree. -/
def Node.OrderKeysFree (node : Node) : Prop := ∀ query ∈ node.selects, query.OrderKeysFree

theorem Select.orderKeysFree_of_none {query : Select} (unordered : query.orderBy = none) :
    query.OrderKeysFree := by
  intro _ _ key member
  rw [unordered] at member
  exact (List.not_mem_nil member).elim

/-- A query without queries in its clauses is free of such keys if it is by itself and below. -/
theorem Node.orderKeysFree_select {query : Select}
    (own : ∀ e ∈ query.ownExpressions, e.selects = []) :
    (Node.select query).OrderKeysFree ↔
      query.OrderKeysFree ∧ ∀ node ∈ query.source, node.OrderKeysFree := by
  have none : query.ownExpressions.flatMap Node.selects = [] := List.flatMap_eq_nil_iff.mpr own
  unfold Node.OrderKeysFree
  simp only [(Node.selects_select query).mem_iff, none, List.append_nil, List.forall_mem_cons,
    List.mem_flatMap, Option.mem_toList]
  exact and_congr_right fun _ =>
    ⟨fun all node read below member => all below ⟨node, read, member⟩,
    fun all below ⟨node, read, member⟩ => all node read below member⟩

/-- Of the keys that order by an expression, only the expression itself can be a bare name. -/
theorem Dialect.exists_orderItems_iff {dialect : Dialect} {node : Node} {descending : Bool}
    {nulls : Option NullsOrder} {name : String} :
    (∃ item ∈ dialect.orderItems node descending nulls, item.expr = .identifier [name]) ↔
      node = .identifier [name] := by
  have flag (key : Node) (found : dialect.nullKey? node = some key) :
      key ≠ .identifier [name] := by
    unfold Dialect.nullKey? Node.scalarCall at found
    rintro rfl
    split at found <;> cases found
  unfold Dialect.orderItems
  split
  · simp
  · split
    · simp
    · rename_i key found
      simp [flag key found]

end Sql

/-- The bare names among the keys of a sort are those of its fields. -/
theorem Scope.exists_ordering_iff {scope : Scope} {dialect : Sql.Dialect} {keys : List SortKey}
    {items : List OrderItem} (ordered : scope.ordering dialect keys = .ok items) (name : String) :
    (∃ item ∈ items, item.expr = .identifier [name]) ↔
      ∃ key ∈ keys, scope.field? key.field = some (.identifier [name]) := by
  obtain ⟨lists, each, built⟩ := Except.bind_eq_ok_iff.mp ordered
  cases built
  have paired := Except.mapM_eq_ok_iff.mp each
  clear each ordered
  induction paired with
  | nil => simp
  | @cons key list _ _ head _ ih =>
    obtain ⟨node, found, listed⟩ := Except.bind_eq_ok_iff.mp head
    cases listed
    have first : scope.field? key.field = some (.identifier [name]) ↔
        node = .identifier [name] := by
      rw [field_eq_ok_iff.mp found, Option.some.injEq]
    simp only [List.flatten_cons, List.mem_append, List.mem_cons, or_and_right, exists_or, ih,
      Sql.Dialect.exists_orderItems_iff, exists_eq_left, first]

/-! ## Select lists as written -/

namespace Outline

/-- No field at the keys is a column by its bare name while another item has the name. -/
def keepsKeys (o : Outline) (keys : List Nat) : Bool :=
  keys.all fun key =>
    match o.items[key]? with
    | some (.column name) =>
      o.written.all fun entry => entry.1 != some name || entry.2 == .column name
    | _ => true

theorem keepsKeys_iff {o : Outline} {keys : List Nat} :
    o.keepsKeys keys = true ↔ ∀ key ∈ keys, ∀ name, o.items[key]? = some (.column name) →
      ∀ entry ∈ o.written, entry.1 = some name → entry.2 = .column name := by
  unfold keepsKeys
  rw [List.all_eq_true]
  refine forall₂_congr fun key _ => ?_
  split
  · rename_i name found
    simp only [found, Option.some.injEq, Item.column.injEq, forall_eq', List.all_eq_true]
    refine forall₂_congr fun entry _ => ?_
    by_cases same : entry.1 = some name <;> simp [same]
  · rename_i other
    simp only [true_iff]
    exact fun name found => absurd found (other name)

end Outline

/-- The items of a select list have the names and are what the list was made of. -/
theorem map_selectList_eq_entries (names : Fields) {nodes : List Node}
    (scalar : ∀ node ∈ nodes, node.IsScalar) :
    (selectList names nodes).map (fun item => (item.outputName?, Item.ofNode item.unnamed)) =
      Outline.entries names (nodes.map Item.ofNode) := by
  refine List.ext_getElem (by simp [selectList, Outline.entries]) fun position bound _ => ?_
  have within : position < nodes.length := by simpa [selectList] using bound
  have own := scalar _ (List.getElem_mem within)
  simp only [selectList, Outline.entries, List.getElem_map, List.getElem_mapIdx,
    unnamed_selectItem names position own, Item.name?_ofNode own.2]
  refine Prod.ext ?_ rfl
  dsimp only
  unfold selectItem
  cases names[position]? with
  | none => rfl
  | some name =>
    dsimp only
    split
    · assumption
    · rfl

section Written

variable {query : Select} {sources : List Source} {o : Outline}

/-- What holds of the items of a query with its star written out holds of the outline's list. -/
theorem Sql.Select.Fits.forall_written_iff (fits : query.Fits sources o)
    (P : Option String → Item → Prop) :
    (∀ items ∈ (expandStar query sources o.fields).projection, ∀ item ∈ items,
        P item.outputName? (Item.ofNode item.unnamed)) ↔
      ∀ entry ∈ o.written, P entry.1 entry.2 := by
  have list (names : Fields) {nodes : List Node} (scalar : ∀ node ∈ nodes, node.IsScalar) :
      (∀ item ∈ selectList names nodes, P item.outputName? (Item.ofNode item.unnamed)) ↔
        ∀ entry ∈ Outline.entries names (nodes.map Item.ofNode), P entry.1 entry.2 := by
    rw [← map_selectList_eq_entries names scalar, List.forall_mem_map]
  have listed := fits.listed
  generalize projected : query.projection = projection at listed
  generalize outlined : o.list = outline at listed
  unfold Outline.written
  rw [outlined]
  cases listed with
  | items scalar =>
    rw [expandStar_of_some projected, projected]
    simpa using list _ scalar
  | star =>
    by_cases kept : o.columns.length ≠ o.fields.length ∨ o.columns = o.fields
    · have same : expandStar query sources o.fields = query := by
        unfold expandStar
        dsimp only
        rw [if_pos (.inr (fits.columns ▸ kept))]
      rw [same, projected, if_pos kept]
      simp
    · rw [if_neg kept, ← columnItems_eq fits.several fits.columns]
      rcases expandStar_cases query sources o.fields with ⟨_, given⟩ | ⟨same, _, _⟩
      · rw [projected, ← fits.columns] at given
        exact absurd (given.resolve_left nofun) kept
      · rw [same]
        simpa using list o.fields Scope.isScalar_columns

/-- With its star written out, the query holds no query in its clauses either. -/
theorem Sql.Select.Fits.own_expanded (fits : query.Fits sources o) (fields : Fields) :
    ∀ e ∈ (expandStar query sources fields).ownExpressions, e.selects = [] := by
  rcases expandStar_cases query sources fields with ⟨same, _⟩ | ⟨same, _, _⟩
  · rw [same]
    exact fits.own
  · rw [same]
    exact (fits.withList fields Scope.isScalar_columns).own

/-- An ordered query is free when the outline keeps the keys. -/
theorem Sql.Select.Fits.orderKeysFree_iff (fits : query.Fits sources o) {dialect : Sql.Dialect}
    {keys : List SortKey} {items : List OrderItem}
    (ordered : (query.scope sources).ordering dialect keys = .ok items) :
    (expandStar { query with orderBy := some items } sources o.fields).OrderKeysFree ↔
      o.keepsKeys (keys.map (·.field)) = true := by
  have named (name : String) : (∃ item ∈ items, item.expr = .identifier [name]) ↔
      ∃ key ∈ keys.map (·.field), o.items[key]? = some (.column name) := by
    rw [Scope.exists_ordering_iff ordered name]
    simp only [← fits.field?, Option.map_eq_some_iff, Item.ofNode_eq_column_iff, exists_eq_right,
      List.mem_map, exists_exists_and_eq_and]
  have written (name : String) :=
    (fits.withOrderBy (fits.eachField.ordering Scope.closed_isScalar ordered)).forall_written_iff
      fun label item => label = some name → item = .column name
  have order : (expandStar { query with orderBy := some items } sources o.fields).orderBy =
      some items := by
    rcases expandStar_cases { query with orderBy := some items } sources o.fields with
      ⟨same, _⟩ | ⟨same, _, _⟩ <;> rw [same]
  rw [Outline.keepsKeys_iff]
  constructor
  · intro free key member name found
    obtain ⟨item, mem, same⟩ := (named name).mpr ⟨key, member, found⟩
    refine (written name).mp fun list listed entry within label => ?_
    rw [Item.ofNode_eq_column_iff]
    exact free list listed item (by rw [order]; exact mem) name same entry within label
  · intro keeps list listed item mem name same entry within label
    rw [order] at mem
    obtain ⟨key, member, found⟩ := (named name).mp ⟨item, mem, same⟩
    rw [← Item.ofNode_eq_column_iff]
    exact (written name).mpr (keeps key member name found) list listed entry within label

end Written

/-! ## Fragments -/

/-- The fragment, with its star written out, is free of such keys. -/
def Fragment.OrderKeysFree (f : Fragment) : Prop :=
  match f.node with
  | .select query => (Node.select (expandStar query f.sources f.fields)).OrderKeysFree
  | node => node.OrderKeysFree

section Fragments

variable {f : Fragment} {o : Outline} {names after : Aliases} {node : Node}
  {sources : List Source} {requested : List Clause} {keys : List Nat} {d : Draft}

/-- An unordered query is free if it reads from what is. -/
theorem Sql.Select.Fits.orderKeysFree_of_none {query : Select} (fits : query.Fits sources o)
    (unordered : query.orderBy = none) (fields : Fields) :
    (Node.select (expandStar query sources fields)).OrderKeysFree ↔
      ∀ node ∈ query.source, node.OrderKeysFree := by
  have order : (expandStar query sources fields).orderBy = none := by
    rcases expandStar_cases query sources fields with ⟨same, _⟩ | ⟨same, _, _⟩ <;>
      rw [same] <;> exact unordered
  rw [Node.orderKeysFree_select (fits.own_expanded fields), source_expandStar]
  exact and_iff_right (Select.orderKeysFree_of_none order)

theorem Fragment.Outlined.source_orderKeysFree (outlined : f.Outlined o)
    (run : f.toSource.run names = ((node, sources), after)) :
    node.OrderKeysFree ↔ f.OrderKeysFree := by
  unfold Fragment.OrderKeysFree
  cases sourced_of_toSource outlined.relational run with
  | table own _ =>
    rw [own]
    unfold Node.OrderKeysFree
    split <;> simp
  | join own => rw [own]
  | query own _ =>
    rw [own]
    unfold Node.OrderKeysFree
    rw [Node.selects_named]
  | setOp own _ =>
    rw [own]
    unfold Node.OrderKeysFree
    rw [Node.selects_named]

/-- A draft reads from what is free if the fragment is. -/
theorem Fragment.Outlined.draft_orderKeysFree (outlined : f.Outlined o)
    (drafted : Drafted f requested keys names d after) (unordered : d.query.orderBy = none) :
    (∀ node ∈ d.query.source, node.OrderKeysFree) ↔ f.OrderKeysFree := by
  rcases drafted.fresh_or_extended with ⟨source, taken, query, _⟩ | ⟨own, _, _, _, _, _⟩
  · rw [query, ← outlined.source_orderKeysFree taken]
    simp [Select.starFrom]
  · have fits := outlined.node
    rw [own] at fits
    unfold Fragment.OrderKeysFree
    rw [own]
    cases fits with
    | query fits _ => exact (fits.orderKeysFree_of_none unordered f.fields).symm

theorem Fragment.Outlined.query_orderKeysFree (outlined : f.Outlined o)
    (run : f.toQuery.run names = (node, after)) : node.OrderKeysFree ↔ f.OrderKeysFree := by
  rcases toQuery_cases run with ⟨own, isQuery, rfl, _⟩ | ⟨source, sources, _, taken, rfl⟩
  · unfold Fragment.OrderKeysFree
    rw [isQuery]
  · rw [← outlined.source_orderKeysFree taken,
      (outlined.starFrom taken .empty).orderKeysFree_of_none rfl]
    simp [Select.starFrom]

theorem Fragment.Outlined.statement_orderKeysFree (outlined : f.Outlined o)
    (run : f.toStatement.run names = (node, after)) : node.OrderKeysFree ↔ f.OrderKeysFree := by
  rcases toStatement_cases run with ⟨operator, inputs, own, rfl⟩ | complete
  · unfold Fragment.OrderKeysFree
    rw [own]
  · exact outlined.query_orderKeysFree complete

/-- A query made of a draft without an order is free if the fragment is. -/
theorem Fragment.Outlined.finish_orderKeysFree {made : Draft} {fields : Fields} {own : Outline}
    (outlined : f.Outlined o) (finished : (made.finish fields).Outlined own)
    (drafted : Drafted f requested keys names d after)
    (source : made.query.source = d.query.source) (same : made.query.orderBy = d.query.orderBy)
    (unordered : d.query.orderBy = none) :
    (made.finish fields).OrderKeysFree ↔ f.OrderKeysFree := by
  rw [← outlined.draft_orderKeysFree drafted unordered, ← source]
  have fits := finished.node
  cases fits with
  | query fits _ => exact fits.orderKeysFree_of_none (same.trans unordered) fields

/-- A sort of a fragment is free if the fragment is and the outline keeps the keys. -/
theorem Fragment.Outlined.sort_orderKeysFree {dialect : Sql.Dialect} {sortKeys : List SortKey}
    {items : List OrderItem} {own : Outline} (outlined : f.Outlined o)
    (drafted : Drafted f requested keys names d after) (unordered : d.query.orderBy = none)
    (fits : d.query.Fits d.sources own)
    (ordered : d.scope.ordering dialect sortKeys = .ok items) :
    ((d.withOrderBy items).finish own.fields).OrderKeysFree ↔
      own.keepsKeys (sortKeys.map (·.field)) = true ∧ f.OrderKeysFree := by
  rw [drafted.scope_eq] at ordered
  have held := fits.withOrderBy (fits.eachField.ordering Scope.closed_isScalar ordered)
  refine (Node.orderKeysFree_select (held.own_expanded own.fields)).trans ?_
  rw [source_expandStar]
  exact and_congr (fits.orderKeysFree_iff ordered)
    (outlined.draft_orderKeysFree drafted unordered)

end Fragments

/-! ## Joins, set operations and constant rows -/

/-- A join is free when both sides are. -/
theorem orderKeysFree_join {left right : Node} (kind : JoinKind)
    {leftSources rightSources : List Source} {keys : List (Nat × Nat)} {equalities : List Node}
    (equated : Scope.equalities (.ofColumns leftSources true) (.ofColumns rightSources true)
      keys = .ok equalities) :
    (Node.join ⟨left, kind, right, Node.conjunction? equalities⟩).OrderKeysFree ↔
      left.OrderKeysFree ∧ right.OrderKeysFree := by
  have fields (sources : List Source) :
      (Scope.ofColumns sources true).EachField Node.IsScalar := by
    intro ordinal node found
    rw [Scope.field?, Scope.column?_eq_getElem?] at found
    exact Scope.isScalar_columns node (List.mem_of_getElem? found)
  have scalar := (fields leftSources).equalities
    (fields rightSources) Scope.closed_isScalar equated
  have none : (Node.conjunction? equalities).toList.flatMap Node.selects = [] :=
    List.flatMap_eq_nil_iff.mpr fun condition member =>
      (Scope.closed_isScalar.conjunction scalar condition member).1
  unfold Node.OrderKeysFree
  rw [Node.selects_join, none, List.append_nil, List.forall_mem_append]

/-- A join of fragments is free when both are. -/
theorem Fragment.Outlined.join_orderKeysFree {f g : Fragment} {o other : Outline}
    {before middle after : Aliases} {left right : Node} {leftSources rightSources : List Source}
    {keys : List (Nat × Nat)} {equalities : List Node} (outlined : f.Outlined o)
    (second : g.Outlined other) (leftRun : f.toSource.run before = ((left, leftSources), middle))
    (rightRun : g.toSource.run middle = ((right, rightSources), after))
    (equated : Scope.equalities (.ofColumns leftSources true) (.ofColumns rightSources true)
      keys = .ok equalities) (kind : JoinKind) (fields : Fields) :
    Fragment.OrderKeysFree
      { node := .join ⟨left, kind, right, Node.conjunction? equalities⟩,
        clauses := .ofList [.source], sources := leftSources ++ rightSources, fields } ↔
      f.OrderKeysFree ∧ g.OrderKeysFree := by
  rw [← outlined.source_orderKeysFree leftRun, ← second.source_orderKeysFree rightRun]
  exact orderKeysFree_join kind equated

theorem orderKeysFree_setOp (operator : Sql.SetOperator) (inputs : List Node) :
    (Node.setOp operator inputs).OrderKeysFree ↔ ∀ input ∈ inputs, input.OrderKeysFree := by
  unfold Node.OrderKeysFree
  simp only [Node.selects_setOp, List.mem_flatMap]
  exact ⟨fun all input member query mem => all query ⟨input, member, mem⟩,
    fun all query ⟨input, member, mem⟩ => all input member query mem⟩

/-- The queries of a set operation are free when its inputs are. -/
theorem orderKeysFree_queries {inputs : List RemotePlan} {before after : Aliases}
    {queries : List Node} {P : RemotePlan → Prop}
    (made : QueriesOf (fun input _ f _ => f.Outlined input.outline ∧ (f.OrderKeysFree ↔ P input))
      inputs before queries after) :
    (∀ query ∈ queries, query.OrderKeysFree) ↔ ∀ input ∈ inputs, P input :=
  made.forall_iff fun first complete => (first.1.query_orderKeysFree complete).trans first.2

theorem orderKeysFree_tupleQuery (fields : Fields) (tuple : List Literal) :
    (Fragment.tupleQuery fields tuple).OrderKeysFree := by
  refine (Node.orderKeysFree_select fun e member => ?_).mpr
    ⟨Select.orderKeysFree_of_none rfl, nofun⟩
  exact ((tupleQuery_reads fun _ => []).clauses e member).1

theorem Fragment.orderKeysFree_row (fields : Fields) (tuple : List Literal) :
    Fragment.OrderKeysFree
      { node := Fragment.tupleQuery fields tuple, clauses := .ofList [.select], sources := [],
        fields } := by
  unfold Fragment.OrderKeysFree Fragment.tupleQuery
  dsimp only
  rw [expandStar_of_some rfl]
  exact orderKeysFree_tupleQuery fields tuple

theorem Fragment.orderKeysFree_ofQueries {fields : Fields} {operator : Sql.SetOperator}
    {queries : List Node} :
    (Fragment.ofQueries fields operator queries).OrderKeysFree ↔
      ∀ query ∈ queries, query.OrderKeysFree :=
  orderKeysFree_setOp operator queries

/-! ## Every operator -/

namespace RemotePlan

/-- The node, if it is a sort, has no key that another item has the name of. -/
def sortKeepsKeys (p : RemotePlan) : Bool :=
  match p.op with
  | .sort _ keys => p.outline.keepsKeys (keys.map (·.field))
  | _ => true

variable {dialect : Sql.Dialect}

/-- A node that is no sort adds nothing to what its input keeps. -/
theorem everywhere_sortKeepsKeys_iff {convention : Convention} {fields : Fields} {op : RemoteOp}
    {input : RemotePlan} (inputs : op.inputs = [input])
    (other : (RemotePlan.mk convention fields op).sortKeepsKeys = true) :
    (input.Everywhere fun part => part.sortKeepsKeys = true) ↔
      (RemotePlan.mk convention fields op).Everywhere fun part => part.sortKeepsKeys = true := by
  rw [everywhere_iff ⟨convention, fields, op⟩, RemotePlan.inputs, inputs]
  simp [other]

theorem everywhere_sortKeepsKeys_of_leaf {convention : Convention} {fields : Fields}
    {op : RemoteOp} (leaf : op.inputs = [])
    (other : (RemotePlan.mk convention fields op).sortKeepsKeys = true) :
    (RemotePlan.mk convention fields op).Everywhere fun part => part.sortKeepsKeys = true := by
  rw [everywhere_iff, RemotePlan.inputs, leaf]
  exact ⟨other, List.forall_mem_nil _⟩

/-- A node that finishes a draft on its input, and that gives it no order. -/
theorem finish_orderKeysFree_iff {convention : Convention} {fields : Fields} {op : RemoteOp}
    {input : RemotePlan} {before middle after : Aliases} {child : Fragment} {d made : Draft}
    {requested : List Clause} {keys : List Nat} {c : Clause} (inputs : op.inputs = [input])
    (other : (RemotePlan.mk convention fields op).sortKeepsKeys = true)
    (run : Gives ((RemotePlan.mk convention fields op).compile dialect) before
      (made.finish fields) after)
    (sound : (RemotePlan.mk convention fields op).Everywhere Sound)
    (childRun : Gives (input.compile dialect) before child middle)
    (free : child.OrderKeysFree ↔ input.Everywhere fun part => part.sortKeepsKeys = true)
    (drafted : Drafted child requested keys middle d after) (asked : c ∈ requested)
    (early : c.rank ≤ Clause.orderBy.rank) (source : made.query.source = d.query.source)
    (order : made.query.orderBy = d.query.orderBy) :
    (made.finish fields).OrderKeysFree ↔
      (RemotePlan.mk convention fields op).Everywhere fun part => part.sortKeepsKeys = true := by
  have below : input.Everywhere Sound := sound.input (by rw [RemotePlan.inputs, inputs]; simp)
  have outlined := compile_fits childRun below
  obtain ⟨_, _, unordered⟩ := outlined.draft drafted asked early
  have kept := outlined.finish_orderKeysFree (compile_fits run sound) drafted source
    order unordered
  exact kept.trans (free.trans (everywhere_sortKeepsKeys_iff inputs other))

/-- The compiler gives a fragment that is free of such keys if the sorts of the plan are. -/
theorem compile_orderKeysFree {p : RemotePlan} {before after : Aliases} {f : Fragment}
    (run : Gives (p.compile dialect) before f after) (sound : p.Everywhere Sound) :
    f.OrderKeysFree ↔ p.Everywhere fun part => part.sortKeepsKeys = true := by
  refine compile_induction (motive := fun p before f after =>
    Gives (p.compile dialect) before f after → p.Everywhere Sound →
      (f.OrderKeysFree ↔ p.Everywhere fun part => part.sortKeepsKeys = true))
    ?scan ?join ?filter ?projectSame ?project ?calculateSame ?calculateWhere ?calculateItems
    ?calculateBoth ?aggregate ?sort ?set ?row ?rows run run sound
  case scan =>
    intro convention fields table names name after _ _ _
    refine iff_of_true ?_ (everywhere_sortKeepsKeys_of_leaf rfl rfl)
    unfold Fragment.OrderKeysFree Node.OrderKeysFree
    simp
  case join =>
    intro convention fields left right condition kind keys names middle compiled taken after
      leftFragment rightFragment leftNode rightNode leftSources rightSources equalities
      leftRun leftIh rightRun rightIh leftTaken rightTaken equated _ sound
    have leftBelow := sound.input (.head _)
    have rightBelow := sound.input (.tail _ (.head _))
    have both := (compile_fits leftRun leftBelow).join_orderKeysFree
      (compile_fits rightRun rightBelow) leftTaken rightTaken equated kind fields
    rw [both, leftIh leftRun leftBelow, rightIh rightRun rightBelow,
      everywhere_iff ⟨convention, fields, .join left right condition kind keys⟩]
    simp [RemotePlan.inputs, RemoteOp.inputs, sortKeepsKeys]
  case filter =>
    intro convention fields input condition names middle after child draft node childRun ih
      drafted translated run sound
    have free := ih childRun (sound.input (.head _))
    exact finish_orderKeysFree_iff rfl rfl run sound childRun free drafted (.head _) (by decide)
      rfl rfl
  case projectSame =>
    intro convention fields input projects names after child childRun ih identity _ sound
    exact (ih childRun (sound.input (.head _))).trans (everywhere_sortKeepsKeys_iff rfl rfl)
  case project =>
    intro convention fields input projects names middle after child draft items childRun ih _
      drafted translated run sound
    have free := ih childRun (sound.input (.head _))
    exact finish_orderKeysFree_iff rfl rfl run sound childRun free drafted (.head _) (by decide)
      rfl rfl
  case calculateSame =>
    intro convention fields input program names after child childRun ih star _ sound
    exact (ih childRun (sound.input (.head _))).trans (everywhere_sortKeepsKeys_iff rfl rfl)
  case calculateWhere =>
    intro convention fields input program names middle after child draft condition node childRun
      ih star drafted found translated run sound
    have free := ih childRun (sound.input (.head _))
    exact finish_orderKeysFree_iff rfl rfl run sound childRun free drafted (.head _) (by decide)
      rfl rfl
  case calculateItems =>
    intro convention fields input program names middle after child draft projects items childRun
      ih _ absent drafted expanded translated run sound
    have free := ih childRun (sound.input (.head _))
    exact finish_orderKeysFree_iff rfl rfl run sound childRun free drafted (.head _) (by decide)
      rfl rfl
  case calculateBoth =>
    intro convention fields input program names middle after child draft projects items condition
      node childRun ih _ drafted expanded translated found selected run sound
    have free := ih childRun (sound.input (.head _))
    exact finish_orderKeysFree_iff rfl rfl run sound childRun free drafted (.head _) (by decide)
      rfl rfl
  case aggregate =>
    intro convention fields input groupSet groupingSets calls names middle after child draft
      groups aggregates childRun ih drafted grouped aggregated run sound
    have free := ih childRun (sound.input (.head _))
    exact finish_orderKeysFree_iff rfl rfl run sound childRun free drafted (.head _) (by decide)
      (by split <;> rfl) (by split <;> rfl)
  case sort =>
    intro convention fields input keys names middle after child draft items childRun ih drafted
      ordered run sound
    have below := sound.input (.head _)
    have outlined := compile_fits childRun below
    obtain ⟨fits, _, unordered⟩ := outlined.draft drafted (.head _) (by decide)
    have own : draft.query.Fits draft.sources
        (⟨convention, fields, .sort input keys⟩ : RemotePlan).outline := by
      rw [outline]
      exact ⟨fits.form, fits.several, fits.columns, fits.listed, fits.own⟩
    have named : (⟨convention, fields, .sort input keys⟩ : RemotePlan).outline.fields =
        fields := by
      rw [outline]
    have keeps := outlined.sort_orderKeysFree drafted unordered own ordered
    rw [named, ih childRun below] at keeps
    rw [keeps, everywhere_iff ⟨convention, fields, .sort input keys⟩]
    simp [RemotePlan.inputs, RemoteOp.inputs, sortKeepsKeys]
  case set =>
    intro convention fields kind inputs all names queries after made _ sound
    have each : QueriesOf (fun input _ f _ => f.Outlined input.outline ∧
        (f.OrderKeysFree ↔ input.Everywhere fun part => part.sortKeepsKeys = true))
        inputs names queries after :=
      made.imp fun input member _ _ _ done =>
        ⟨compile_fits done.1 (sound.input member), done.2 done.1 (sound.input member)⟩
    rw [Fragment.orderKeysFree_ofQueries, orderKeysFree_queries each,
      everywhere_iff ⟨convention, fields, .set kind inputs all⟩]
    simp [RemotePlan.inputs, RemoteOp.inputs, sortKeepsKeys]
  case row =>
    intro convention fields tuple names _ _
    exact iff_of_true (Fragment.orderKeysFree_row fields tuple)
      (everywhere_sortKeepsKeys_of_leaf rfl rfl)
  case rows =>
    intro convention fields first second rest names _ _
    refine iff_of_true (Fragment.orderKeysFree_ofQueries.mpr ?_)
      (everywhere_sortKeepsKeys_of_leaf rfl rfl)
    exact List.forall_mem_map.mpr fun tuple _ => orderKeysFree_tupleQuery fields tuple

end RemotePlan

/-- No key of an order in the statement of a converted plan can be taken for another select item,
exactly when every sort of the plan keeps its keys. -/
theorem RuleSet.orderKeys_free_iff {rs : RuleSet} {plan : Plan} {p : RemotePlan}
    {s : Sql.Statement} (converted : rs.convert plan = .ok (some p))
    (compiled : p.toSql = .ok s) :
    (∀ query ∈ s.root.selects, query.OrderKeysFree) ↔
      ∀ part ∈ p.parts, part.sortKeepsKeys = true := by
  obtain ⟨f, middle, after, run, stated⟩ := RemotePlan.fragment_of_toSql compiled
  have sound := RuleSet.convert_sound converted
  exact ((RemotePlan.compile_fits run sound).statement_orderKeysFree stated).trans
    (RemotePlan.compile_orderKeysFree run sound)

namespace Staff

/-- Employees by their boss, who is called something else. -/
def byChief : Plan :=
  .sort (.project (.scan employees) [.input 1, .input 0] ["chief", "id"])
    [⟨0, .ascending, .unspecified⟩] none none

/-- Employees with their two columns under each other's name, by the first. -/
def swapped : Plan :=
  .sort (.project (.scan employees) [.input 0, .input 1] ["boss", "id"])
    [⟨0, .ascending, .unspecified⟩] none none

end Staff

open Staff in
theorem RuleSet.orderKeys_free_iff_byChief :
    ∃ p s, (RuleSet.full database).convert byChief = .ok (some p) ∧ p.toSql = .ok s ∧
      (∀ part ∈ p.parts, part.sortKeepsKeys = true) ∧
      ∀ query ∈ s.root.selects, query.OrderKeysFree := by
  have converted :
      (RuleSet.full database).convert byChief = .ok (some (byChief.boundTo database)) := rfl
  have keeps : ∀ part ∈ (byChief.boundTo database).parts, part.sortKeepsKeys = true :=
    List.all_eq_true.mp (by decide +kernel)
  exact ⟨_, _, converted, rfl, keeps, (RuleSet.orderKeys_free_iff converted rfl).mpr keeps⟩

open Staff in
/-- A sort by the first of two columns that have traded names is written with the name that the
select list gives to the second. -/
theorem RuleSet.orderKeys_captured_swapped :
    ∃ p s query, (RuleSet.full database).convert swapped = .ok (some p) ∧ p.toSql = .ok s ∧
      s.root = .select query ∧
      query.projection =
        some [.named (.identifier ["id"]) "boss", .named (.identifier ["boss"]) "id"] ∧
      query.orderBy = some [⟨.identifier ["id"], false, none⟩] ∧
      ¬ ∀ query ∈ s.root.selects, query.OrderKeysFree := by
  refine ⟨_, _, _, rfl, rfl, rfl, rfl, rfl, fun free => ?_⟩
  have own := free _ List.mem_cons_self _ rfl _ List.mem_cons_self "id" rfl
  have same : Sql.Node.identifier ["boss"] = .identifier ["id"] :=
    own (.named (.identifier ["boss"]) "id") (.tail _ (.head _)) rfl
  simp at same

end Pushdown
