import Pushdown.Proofs.Compile.References
import Pushdown.Proofs.Compile.Run
import Pushdown.Proofs.Relation.Conversion

/-!
# Outlines of queries

What the query of a plan looks like, told from the plan alone: whether it is extended or wrapped,
what its columns are called, and which items of its select list are constants or plain columns.
Names of row sources and the expressions themselves are left out.

`RemotePlan.compile_fits`: the fragment that the compiler makes of a plan fits the plan's outline.
-/

namespace Pushdown

open Sql (Node Select)

/-! ## Items -/

/-- What an item of a select list is, apart from its name. -/
inductive Item where
  | constant
  | column (name : String)
  /-- A column with the name of its source in front. -/
  | qualified (name : String)
  | computed
  deriving DecidableEq

namespace Item

/-- What kind of item the node makes in a select list. -/
def ofNode : Node → Item
  | .literal _ => .constant
  | .identifier [name] => .column name
  | .identifier parts => (parts.getLast?.map .qualified).getD .computed
  | _ => .computed

/-- The name of the item when nothing else is said. -/
def name? : Item → Option String
  | .column name | .qualified name => some name
  | _ => none

theorem ofNode_eq_column_iff {node : Node} {name : String} :
    ofNode node = .column name ↔ node = .identifier [name] := by
  constructor
  · intro same
    unfold ofNode at same
    split at same
    · cases same
    · cases same
      rfl
    · rename_i parts _
      cases last : parts.getLast? <;> simp [last] at same
    · cases same
  · rintro rfl
    rfl

theorem ofNode_eq_constant_iff {node : Node} :
    ofNode node = .constant ↔ node.isLiteral = true := by
  constructor
  · intro same
    unfold ofNode at same
    split at same
    · rfl
    · cases same
    · rename_i parts _
      cases last : parts.getLast? <;> simp [last] at same
    · cases same
  · intro literal
    cases node with
    | literal value => rfl
    | _ => cases literal

theorem name?_ofNode {node : Node} (bare : node.unnamed = node) :
    (ofNode node).name? = node.outputName? := by
  cases node with
  | identifier parts =>
    match parts with
    | [] => rfl
    | [name] => rfl
    | first :: second :: rest =>
      have last : (first :: second :: rest).getLast? =
          some ((second :: rest).getLast (by simp)) := by
        simp [List.getLast?_eq_some_getLast]
      simp [ofNode, Node.outputName?, last, name?]
  | named expr name => cases expr <;> cases bare
  | _ => rfl

end Item

/-! ## Outlines -/

/-- What a fragment is as a row source: a join stays open, all else has one name. -/
inductive Form where
  | relation
  | join
  | query
  deriving DecidableEq

/-- What can be told of a fragment from its plan. -/
structure Outline where
  form : Form
  fields : Fields
  clauses : ClauseSet
  /-- The columns of its row sources, and whether there are several of these. -/
  columns : Fields := []
  several : Bool := false
  /-- Its select list, if it has one: the names that its items were given, and the items. -/
  list : Option (Fields × List Item) := none

namespace Outline

/-- The columns of the row sources as items. -/
def columnItems (o : Outline) : List Item :=
  o.columns.map (if o.several then .qualified else .column)

/-- The items that the fields of a query in the making are. -/
def items (o : Outline) : List Item :=
  match o.list with
  | some (_, items) => items
  | none => o.columnItems

/-- What an expression over the fields is. -/
def itemOf (o : Outline) : Expr → Item
  | .literal _ => .constant
  | .input ordinal => o.items.getD ordinal .computed
  | _ => .computed

/-- A new query over the fragment. -/
def wrapped (o : Outline) (clauses : ClauseSet) : Outline :=
  match o.form with
  | .join => { o with form := .query, clauses, list := none }
  | _ => { form := .query, fields := o.fields, clauses, columns := o.fields }

/-- A draft for some clauses, which repeat the fields at `keys`. -/
def draft (o : Outline) (requested : List Clause) (keys : List Nat) : Outline :=
  if keys.any (fun key => o.items[key]? == some .constant) || o.clauses.needsWrap requested then
    o.wrapped ((ClauseSet.ofList [.source]).insertAll requested)
  else
    match o.form with
    | .query => { o with clauses := o.clauses.insertAll requested }
    | _ => o.wrapped (o.clauses.insertAll requested)

/-- The query with a new select list, which names the fields. -/
def withList (o : Outline) (fields : Fields) (items : List Item) : Outline :=
  { o with fields, list := some (fields, items) }

/-- The items of a select list, each with its name. -/
def entries (names : Fields) (items : List Item) : List (Option String × Item) :=
  items.mapIdx fun position item => (names[position]?.or item.name?, item)

/-- The select list as it is written.  A star is written out where the columns do not have the
names of the fields. -/
def written (o : Outline) : List (Option String × Item) :=
  match o.list with
  | some (names, items) => entries names items
  | none =>
    if o.columns.length ≠ o.fields.length ∨ o.columns = o.fields then []
    else entries o.fields o.columnItems

end Outline

namespace RemotePlan

/-- The outline of the query of a plan. -/
def outline : RemotePlan → Outline
  | ⟨_, fields, op⟩ =>
    match op with
    | .scan _ => { form := .relation, fields, clauses := .ofList [.source] }
    | .join left right _ _ _ =>
      { form := .join, fields, clauses := .ofList [.source], several := true
        columns := (left.outline.wrapped .empty).columns ++
          (right.outline.wrapped .empty).columns }
    | .filter input _ => { input.outline.draft [.selection] [] with fields }
    | .project input projects =>
      if Expr.isIdentity projects input.fields.length && fields == input.fields then input.outline
      else
        let draft := input.outline.draft [.select] []
        draft.withList fields (projects.map draft.itemOf)
    | .calculate input program =>
      if program.isStar && program.condition.isNone then input.outline
      else
        let draft := input.outline.draft
          (if program.condition.isSome then [.source, .selection] else [.source]) []
        if program.isStar then { draft with fields }
        else draft.withList fields ((program.projectExprs.toOption.getD []).map draft.itemOf)
    | .aggregate input groupSet _ calls =>
      let draft := input.outline.draft [.groupBy] groupSet
      draft.withList fields
        (groupSet.map (draft.items.getD · .computed) ++ calls.map fun _ => .computed)
    | .sort input keys => { input.outline.draft [.orderBy] (keys.map (·.field)) with fields }
    | .values [tuple] =>
      { form := .query, fields, clauses := .ofList [.select]
        list := some (fields, tuple.map fun _ => .constant) }
    | .set .. | .values _ | .modify .. =>
      { form := .relation, fields, clauses := .ofList [.setOp] }

end RemotePlan

/-! ## Queries that fit -/

/-- The node is an expression that carries no name and holds no query. -/
def Sql.Node.IsScalar (node : Node) : Prop := node.selects = [] ∧ node.unnamed = node

theorem Scope.closed_isScalar : Scope.Closed Node.IsScalar where
  literal value := ⟨by simp, rfl⟩
  call operator operands each := by
    refine ⟨?_, rfl⟩
    rw [Node.selects_call, List.flatMap_eq_nil_iff]
    exact fun operand member => (each operand member).1

theorem Scope.isScalar_columns {qualified : Bool} {sources : List Source} :
    ∀ node ∈ Scope.columns qualified sources, node.IsScalar := by
  intro node member
  obtain ⟨_, _, _, _, rfl⟩ := Scope.mem_columns_iff.mp member
  exact ⟨by simp, rfl⟩

theorem unnamed_selectItem (fields : Fields) (position : Nat) {node : Node}
    (scalar : node.IsScalar) :
    (selectItem fields position node).unnamed = node := by
  rcases selectItem_cases fields position node with same | ⟨name, same⟩
  · rw [same, scalar.2]
  · rw [same]
    rfl

/-- The select list was made of the items under the names. -/
inductive Listed : Option (List Node) → Option (Fields × List Item) → Prop
  | star : Listed none none
  | items {names : Fields} {nodes : List Node} (scalar : ∀ node ∈ nodes, node.IsScalar) :
      Listed (some (selectList names nodes)) (some (names, nodes.map Item.ofNode))

/-- The query over the sources is as the outline says. -/
structure Sql.Select.Fits (query : Select) (sources : List Source) (o : Outline) : Prop where
  form : o.form = .query
  several : o.several = decide (1 < sources.length)
  columns : o.columns = sources.flatMap (·.fields)
  listed : Listed query.projection o.list
  own : ∀ e ∈ query.ownExpressions, e.selects = []

section Fits

variable {query : Select} {sources : List Source} {o : Outline}

theorem columnItems_eq (several : o.several = decide (1 < sources.length))
    (columns : o.columns = sources.flatMap (·.fields)) :
    (Scope.columns (decide (1 < sources.length)) sources).map Item.ofNode = o.columnItems := by
  rw [Outline.columnItems, columns, several, Scope.columns]
  by_cases many : 1 < sources.length
  · simp [many, List.map_flatMap, Function.comp_def, Item.ofNode]
  · simp [many, List.map_flatMap, Function.comp_def, Item.ofNode]

/-- The fields in the scope of the query are the items of the outline. -/
theorem Sql.Select.Fits.field? (fits : query.Fits sources o) (ordinal : Nat) :
    ((query.scope sources).field? ordinal).map Item.ofNode = o.items[ordinal]? := by
  have listed := fits.listed
  unfold Select.scope Outline.items
  generalize query.projection = projection at listed ⊢
  generalize o.list = list at listed ⊢
  cases listed with
  | star =>
    dsimp only
    rw [Scope.ofSources, Scope.field?, Scope.column?_eq_getElem?,
      ← columnItems_eq fits.several fits.columns, List.getElem?_map]
  | @items names nodes scalar =>
    dsimp only
    rw [Scope.field?, selectList, List.getElem?_mapIdx, List.getElem?_map]
    cases entry : nodes[ordinal]? with
    | none => rfl
    | some node =>
      simp [unnamed_selectItem names ordinal (scalar node (List.mem_of_getElem? entry))]

theorem Sql.Select.Fits.eachField (fits : query.Fits sources o) :
    (query.scope sources).EachField Node.IsScalar := by
  have listed := fits.listed
  unfold Select.scope
  generalize query.projection = projection at listed ⊢
  generalize o.list = list at listed
  intro ordinal node found
  cases listed with
  | star =>
    dsimp only at found
    rw [Scope.ofSources, Scope.field?, Scope.column?_eq_getElem?] at found
    exact Scope.isScalar_columns node (List.mem_of_getElem? found)
  | @items names nodes scalar =>
    dsimp only at found
    rw [Scope.field?, selectList, List.getElem?_mapIdx] at found
    obtain ⟨item, entry, rfl⟩ := Option.map_eq_some_iff.mp found
    obtain ⟨own, place, rfl⟩ := Option.map_eq_some_iff.mp entry
    have holds := scalar own (List.mem_of_getElem? place)
    rw [unnamed_selectItem names ordinal holds]
    exact holds

theorem Sql.Select.Fits.getD_items (fits : query.Fits sources o) {ordinal : Nat} {node : Node}
    (found : (query.scope sources).field ordinal = .ok node) :
    o.items.getD ordinal .computed = Item.ofNode node := by
  rw [List.getD_eq_getElem?_getD, ← fits.field? ordinal, Scope.field_eq_ok_iff.mp found]
  rfl

/-- An expression is written as the item that the outline says. -/
theorem Sql.Select.Fits.itemOf (fits : query.Fits sources o) {e : Expr} {node : Node}
    (translated : (query.scope sources).expression e = .ok node) :
    o.itemOf e = Item.ofNode node := by
  cases e with
  | literal value =>
    cases translated
    rfl
  | input ordinal => exact fits.getD_items translated
  | shared index => cases translated
  | call op operands =>
    simp only [Scope.expression] at translated
    obtain ⟨nodes, _, built⟩ := Except.bind_eq_ok_iff.mp translated
    cases built
    rfl

theorem Sql.Select.Fits.map_itemOf (fits : query.Fits sources o) {es : List Expr}
    {nodes : List Node} (translated : (query.scope sources).expressions es = .ok nodes) :
    nodes.map Item.ofNode = es.map o.itemOf := by
  rw [Scope.expressions_eq_mapM] at translated
  exact (map_eq_map_iff_forall₂.mpr ((Except.mapM_eq_ok_iff.mp translated).imp fun _ _ done =>
    fits.itemOf done)).symm

/-- A clause other than the select list leaves the outline as it is. -/
theorem Sql.Select.Fits.congr (fits : query.Fits sources o) {other : Select}
    (same : other.projection = query.projection)
    (own : ∀ e ∈ other.ownExpressions, e.selects = []) :
    other.Fits sources o :=
  ⟨fits.form, fits.several, fits.columns, same ▸ fits.listed, own⟩

theorem Sql.Select.Fits.withSelection (fits : query.Fits sources o) {condition : Node}
    (scalar : condition.IsScalar) :
    ({ query with selection := some condition } : Select).Fits sources o := by
  exact fits.congr rfl (Select.forall_withSelection fits.own scalar.1)

theorem Sql.Select.Fits.withGroupBy (fits : query.Fits sources o) {keys : List Node}
    (scalar : ∀ key ∈ keys, key.IsScalar) :
    ({ query with groupBy := some keys } : Select).Fits sources o := by
  refine fits.congr rfl (Select.forall_withGroupBy fits.own ?_)
  exact fun key member => (scalar key member).1

theorem Sql.Select.Fits.withOrderBy (fits : query.Fits sources o) {items : List Sql.OrderItem}
    (scalar : ∀ item ∈ items, item.expr.IsScalar) :
    ({ query with orderBy := some items } : Select).Fits sources o := by
  refine fits.congr rfl (Select.forall_withOrderBy fits.own ?_)
  exact fun item member => (scalar item member).1

theorem selects_selectList {nodes : List Node} (names : Fields)
    (scalar : ∀ node ∈ nodes, node.IsScalar) :
    ∀ item ∈ selectList names nodes, item.selects = [] := by
  refine forall_selectList (fun node name none => ?_) names fun node member =>
    (scalar node member).1
  rw [Node.selects_named, none]

theorem Sql.Select.Fits.withList (fits : query.Fits sources o) (fields : Fields)
    {nodes : List Node} (scalar : ∀ node ∈ nodes, node.IsScalar) :
    ({ query with projection := some (selectList fields nodes) } : Select).Fits sources
      (o.withList fields (nodes.map Item.ofNode)) := by
  refine ⟨fits.form, fits.several, fits.columns, .items scalar, ?_⟩
  exact Select.forall_withProjection fits.own (selects_selectList fields scalar)

end Fits

/-! ## Fragments that fit -/

/-- The node of the fragment is as the outline says. -/
inductive Fragment.Fits (f : Fragment) (o : Outline) : Node → Prop
  | table {parts : List String} (form : o.form = .relation) (bare : o.items = []) :
      Fits f o (.identifier parts)
  | join {join : Sql.Join} (form : o.form = .join) (several : o.several = true)
      (many : 1 < f.sources.length) (columns : o.columns = f.sources.flatMap (·.fields))
      (star : o.list = none) : Fits f o (.join join)
  | query {query : Select} (fits : query.Fits f.sources o)
      (order : f.clauses.conflicts .orderBy = false → query.orderBy = none) :
      Fits f o (.select query)
  | setOp {operator : Sql.SetOperator} {inputs : List Node} (form : o.form = .relation)
      (bare : o.items = []) : Fits f o (.setOp operator inputs)

/-- The outline tells the fields, the clauses and the items of the fragment. -/
structure Fragment.Outlined (f : Fragment) (o : Outline) : Prop where
  fields : f.fields = o.fields
  clauses : f.clauses = o.clauses
  node : f.Fits o f.node

section Fragments

variable {f : Fragment} {o : Outline} {names after : Aliases} {node : Node}
  {sources : List Source} {requested : List Clause} {keys : List Nat} {d : Draft}

theorem Fragment.Outlined.relational (outlined : f.Outlined o) : f.Relational := by
  have fits := outlined.node
  unfold Relational
  generalize f.node = node at fits ⊢
  cases fits <;> trivial

/-- The fragment as a row source. -/
theorem Fragment.Outlined.toSource (outlined : f.Outlined o)
    (run : f.toSource.run names = ((node, sources), after)) (clauses : ClauseSet) :
    (o.wrapped clauses).several = decide (1 < sources.length) ∧
      (o.wrapped clauses).columns = sources.flatMap (·.fields) ∧ sources ≠ [] := by
  have single (form : o.form ≠ .join) (name : String) :
      (o.wrapped clauses).several = decide (1 < [Source.mk name f.fields].length) ∧
        (o.wrapped clauses).columns = [Source.mk name f.fields].flatMap (·.fields) ∧
        [Source.mk name f.fields] ≠ [] := by
    unfold Outline.wrapped
    split
    · rename_i join
      exact absurd join form
    · simp [outlined.fields]
  have fits := outlined.node
  cases sourced_of_toSource outlined.relational run with
  | table own _ =>
    rw [own] at fits
    cases fits with
    | table form _ => exact single (by simp [form]) _
  | join own =>
    rw [own] at fits
    cases fits with
    | join form several many columns =>
      refine ⟨?_, ?_, fun none => ?_⟩
      · simp [Outline.wrapped, form, several, many]
      · simp [Outline.wrapped, form, columns]
      · rw [none] at many
        exact absurd many (Nat.not_lt_zero _)
  | query own _ =>
    rw [own] at fits
    cases fits with
    | query fits _ => exact single (by simp [fits.form]) _
  | setOp own _ =>
    rw [own] at fits
    cases fits with
    | setOp form _ => exact single (by simp [form]) _

/-- A new query over the fragment. -/
theorem Fragment.Outlined.starFrom (outlined : f.Outlined o)
    (run : f.toSource.run names = ((node, sources), after)) (clauses : ClauseSet) :
    (Select.starFrom node).Fits sources (o.wrapped clauses) := by
  obtain ⟨several, columns, _⟩ := outlined.toSource run clauses
  refine ⟨?_, several, columns, ?_, by simp [Select.starFrom, Select.ownExpressions]⟩
  · unfold Outline.wrapped
    split <;> rfl
  · have star : (o.wrapped clauses).list = none := by
      unfold Outline.wrapped
      split <;> rfl
    rw [star]
    exact .star

/-- A field is a constant where the outline says so. -/
theorem Fragment.Outlined.isConstant (outlined : f.Outlined o) (key : Nat) :
    f.isConstant key = (o.items[key]? == some .constant) := by
  have fits := outlined.node
  unfold Fragment.isConstant
  generalize f.node = node at fits ⊢
  cases fits with
  | table _ bare => simp [bare]
  | join form several many columns star =>
    simp [Outline.items, star, Outline.columnItems, several]
  | setOp _ bare => simp [bare]
  | @query query fits _ =>
    have literal (node : Node) :
        node.isLiteral = (some (Item.ofNode node) == some .constant) := by
      rw [Bool.eq_iff_iff, beq_iff_eq, Option.some.injEq, Item.ofNode_eq_constant_iff]
    rw [← fits.field? key]
    unfold Select.scope
    dsimp only
    cases query.projection with
    | none =>
      cases found : (Scope.ofSources f.sources).field? key with
      | none => simp
      | some node => simpa [found, Scope.isLiteral_ofSources found] using literal node
    | some items =>
      cases entry : items[key]? with
      | none => simp [Scope.field?, entry]
      | some item => simpa [Scope.field?, entry] using literal item.unnamed

/-- A draft on the fragment is as the outline's; it has no order yet. -/
theorem Fragment.Outlined.draft (outlined : f.Outlined o)
    (drafted : Drafted f requested keys names d after) {c : Clause} (asked : c ∈ requested)
    (early : c.rank ≤ Clause.orderBy.rank) :
    d.query.Fits d.sources (o.draft requested keys) ∧
      d.clauses = (o.draft requested keys).clauses ∧ d.query.orderBy = none := by
  have same : (keys.any f.isConstant || f.clauses.needsWrap requested) =
      (keys.any (fun key => o.items[key]? == some .constant) ||
        o.clauses.needsWrap requested) := by
    rw [outlined.clauses, funext outlined.isConstant]
  have clauses (own : ClauseSet) : (o.wrapped own).clauses = own := by
    unfold Outline.wrapped
    split <;> rfl
  unfold Outline.draft
  cases drafted with
  | wrapped blocked taken =>
    rw [same] at blocked
    rw [if_pos blocked]
    exact ⟨outlined.starFrom taken _, (clauses _).symm, rfl⟩
  | opened free bare taken =>
    rw [same] at free
    rw [if_neg (Bool.eq_false_iff.mp free)]
    have form : o.form ≠ .query := by
      have fits := outlined.node
      intro isQuery
      generalize own : f.node = node at fits
      cases fits with
      | query _ _ => exact bare _ own
      | table form _ => simp [form] at isQuery
      | join form _ _ _ _ => simp [form] at isQuery
      | setOp form _ => simp [form] at isQuery
    split
    · rename_i isQuery
      exact absurd isQuery form
    · dsimp only
      rw [outlined.clauses]
      exact ⟨outlined.starFrom taken _, (clauses _).symm, rfl⟩
  | extended free own =>
    have fits := outlined.node
    rw [own] at fits
    cases fits with
    | query fits order =>
      have unused : f.clauses.conflicts .orderBy = false := by
        by_contra conflict
        have earlier := ClauseSet.conflicts_of_le (Bool.not_eq_false _ ▸ conflict) early
        rw [ClauseSet.conflicts_of_needsWrap (Bool.or_eq_false_iff.mp free).2 asked] at earlier
        cases earlier
      rw [same] at free
      rw [if_neg (Bool.eq_false_iff.mp free), fits.form, outlined.clauses]
      exact ⟨⟨rfl, fits.several, fits.columns, fits.listed, fits.own⟩, rfl, order unused⟩

theorem Draft.finish_outlined (fits : d.query.Fits d.sources o) (clauses : d.clauses = o.clauses)
    (order : d.clauses.conflicts .orderBy = false → d.query.orderBy = none) (fields : Fields) :
    (d.finish fields).Outlined { o with fields } :=
  ⟨rfl, clauses, .query ⟨fits.form, fits.several, fits.columns, fits.listed, fits.own⟩ order⟩

end Fragments

/-! ## The operators -/

section Operators

variable {left right child : Fragment} {o : Outline} {middle compiled taken after : Aliases}
  {draft : Draft} {requested : List Clause} {keys : List Nat} {c : Clause} {fields : Fields}
  {items : List Node}

/-- A join is open: it has the columns of both sides. -/
theorem Fragment.Outlined.join {l r : Outline} {leftNode rightNode : Node}
    {leftSources rightSources : List Source} (outlinedLeft : left.Outlined l)
    (outlinedRight : right.Outlined r)
    (leftRun : left.toSource.run compiled = ((leftNode, leftSources), taken))
    (rightRun : right.toSource.run taken = ((rightNode, rightSources), after)) (kind : JoinKind)
    (condition : Option Node) :
    Fragment.Outlined
      { node := .join ⟨leftNode, kind, rightNode, condition⟩, clauses := .ofList [.source],
        sources := leftSources ++ rightSources, fields }
      { form := .join, fields, clauses := .ofList [.source], several := true
        columns := (l.wrapped .empty).columns ++ (r.wrapped .empty).columns } := by
  obtain ⟨_, leftColumns, leftSome⟩ := outlinedLeft.toSource leftRun .empty
  obtain ⟨_, rightColumns, rightSome⟩ := outlinedRight.toSource rightRun .empty
  refine ⟨rfl, rfl, .join rfl rfl ?_ ?_ rfl⟩
  · have leftLength := List.length_pos_iff.mpr leftSome
    have rightLength := List.length_pos_iff.mpr rightSome
    rw [List.length_append]
    omega
  · rw [List.flatMap_append, ← leftColumns, ← rightColumns]

/-- A condition does not show in the outline. -/
theorem Fragment.Outlined.restrict {condition : Expr} {node : Node} (outlined : child.Outlined o)
    (drafted : Drafted child requested keys middle draft after) (asked : c ∈ requested)
    (early : c.rank ≤ Clause.orderBy.rank)
    (translated : draft.scope.expression condition = .ok node) :
    ((draft.withSelection node).finish fields).Outlined
      { o.draft requested keys with fields } := by
  obtain ⟨fits, clauses, unordered⟩ := outlined.draft drafted asked early
  rw [drafted.scope_eq] at translated
  have scalar := fits.eachField.expression Scope.closed_isScalar translated
  exact Draft.finish_outlined (d := draft.withSelection node) (fits.withSelection scalar) clauses
    (fun _ => unordered) fields

/-- A select list of expressions over the fields. -/
theorem Fragment.Outlined.list {projects : List Expr} (outlined : child.Outlined o)
    (drafted : Drafted child requested keys middle draft after) (asked : c ∈ requested)
    (early : c.rank ≤ Clause.orderBy.rank)
    (translated : draft.scope.expressions projects = .ok items) :
    ((draft.withProjection (selectList fields items)).finish fields).Outlined
      ((o.draft requested keys).withList fields
        (projects.map (o.draft requested keys).itemOf)) := by
  obtain ⟨fits, clauses, unordered⟩ := outlined.draft drafted asked early
  rw [drafted.scope_eq] at translated
  have scalar := fits.eachField.expressions Scope.closed_isScalar translated
  rw [← fits.map_itemOf translated]
  exact Draft.finish_outlined (d := draft.withProjection (selectList fields items))
    (fits.withList fields scalar) clauses (fun _ => unordered) fields

/-- A select list with a condition over the same fields. -/
theorem Fragment.Outlined.listWhere {projects : List Expr} {condition : Expr} {node : Node}
    (outlined : child.Outlined o) (drafted : Drafted child requested keys middle draft after)
    (asked : c ∈ requested) (early : c.rank ≤ Clause.orderBy.rank)
    (translated : draft.scope.expressions projects = .ok items)
    (selected : draft.scope.expression condition = .ok node) :
    (((draft.withProjection (selectList fields items)).withSelection node).finish fields).Outlined
      ((o.draft requested keys).withList fields
        (projects.map (o.draft requested keys).itemOf)) := by
  obtain ⟨fits, clauses, unordered⟩ := outlined.draft drafted asked early
  rw [drafted.scope_eq] at translated selected
  have scalar := fits.eachField.expressions Scope.closed_isScalar translated
  have condition := fits.eachField.expression Scope.closed_isScalar selected
  rw [← fits.map_itemOf translated]
  exact Draft.finish_outlined
    (d := (draft.withProjection (selectList fields items)).withSelection node)
    ((fits.withList fields scalar).withSelection condition) clauses (fun _ => unordered) fields

/-- The select list of an aggregate: the group columns are the items that they are in the draft,
and the calls are computed. -/
theorem Sql.Select.Fits.map_groups {query : Select} {sources : List Source}
    (fits : query.Fits sources o) {groupSet : List Nat} {calls : List AggregateCall}
    {groups aggregates : List Node} (grouped : (query.scope sources).fields groupSet = .ok groups)
    (aggregated : (query.scope sources).aggregates calls = .ok aggregates) :
    (groups ++ aggregates).map Item.ofNode =
      groupSet.map (o.items.getD · .computed) ++ calls.map fun _ => .computed := by
  rw [List.map_append]
  congr 1
  · exact (map_eq_map_iff_forall₂.mpr ((Except.mapM_eq_ok_iff.mp grouped).imp fun _ _ found =>
      fits.getD_items found)).symm
  · refine (map_eq_map_iff_forall₂.mpr ((Except.mapM_eq_ok_iff.mp aggregated).imp
      fun _ _ done => ?_)).symm
    obtain ⟨_, _, built⟩ := Except.bind_eq_ok_iff.mp done
    cases built
    rfl

/-- The groups of a fragment, with `GROUP BY` or without. -/
theorem Fragment.Outlined.aggregate {groupSet : List Nat} {calls : List AggregateCall}
    {groups aggregates : List Node} (outlined : child.Outlined o)
    (drafted : Drafted child requested keys middle draft after) (asked : c ∈ requested)
    (early : c.rank ≤ Clause.orderBy.rank) (grouped : draft.scope.fields groupSet = .ok groups)
    (aggregated : draft.scope.aggregates calls = .ok aggregates) (alone : Bool) :
    ((if alone then draft.withProjection (selectList fields (groups ++ aggregates))
      else (draft.withProjection (selectList fields (groups ++ aggregates))).withGroupBy
        groups).finish fields).Outlined
      ((o.draft requested keys).withList fields
        (groupSet.map ((o.draft requested keys).items.getD · .computed) ++
          calls.map fun _ => .computed)) := by
  obtain ⟨fits, clauses, unordered⟩ := outlined.draft drafted asked early
  rw [drafted.scope_eq] at grouped aggregated
  have columns := fits.eachField.fields grouped
  have listed := fits.withList fields (List.forall_mem_append.mpr
    ⟨columns, fits.eachField.aggregates Scope.closed_isScalar aggregated⟩)
  rw [← fits.map_groups grouped aggregated]
  cases alone with
  | true =>
    exact Draft.finish_outlined
      (d := draft.withProjection (selectList fields (groups ++ aggregates))) listed clauses
      (fun _ => unordered) fields
  | false =>
    exact Draft.finish_outlined
      (d := (draft.withProjection (selectList fields (groups ++ aggregates))).withGroupBy groups)
      (listed.withGroupBy columns) clauses (fun _ => unordered) fields

/-- An order does not show in the outline; the clause that it takes does. -/
theorem Fragment.Outlined.sort {dialect : Sql.Dialect} {sortKeys : List SortKey}
    {orderItems : List Sql.OrderItem} (outlined : child.Outlined o)
    (drafted : Drafted child requested keys middle draft after) (asked : .orderBy ∈ requested)
    (ordered : draft.scope.ordering dialect sortKeys = .ok orderItems) :
    ((draft.withOrderBy orderItems).finish fields).Outlined
      { o.draft requested keys with fields } := by
  obtain ⟨fits, clauses, _⟩ := outlined.draft drafted asked (Nat.le_refl _)
  rw [drafted.scope_eq] at ordered
  have scalar := fits.eachField.ordering Scope.closed_isScalar ordered
  have used : draft.clauses.conflicts .orderBy = true :=
    ClauseSet.conflicts_of_contains (drafted.contains asked) (Nat.le_refl _)
  exact Draft.finish_outlined (d := draft.withOrderBy orderItems)
    (fits.withOrderBy scalar) clauses
    (fun unused => nomatch used.symm.trans unused) fields

/-- One constant row is a select list of constants. -/
theorem Fragment.outlined_row {tuple : List Literal} (even : tuple.length = fields.length) :
    Fragment.Outlined
      { node := Fragment.tupleQuery fields tuple, clauses := .ofList [.select], sources := [],
        fields }
      { form := .query, fields, clauses := .ofList [.select]
        list := some (fields, tuple.map fun _ => .constant) } := by
  have scalar : ∀ node ∈ tuple.map Node.literal, node.IsScalar :=
    List.forall_mem_map.mpr fun literal _ => Scope.closed_isScalar.literal literal
  have constants : (tuple.map Node.literal).map Item.ofNode = tuple.map fun _ => .constant := by
    rw [List.map_map]
    rfl
  rw [Fragment.tupleQuery, ← selectList_literals even, ← constants]
  refine ⟨rfl, rfl, .query ⟨rfl, rfl, rfl, .items scalar, ?_⟩ fun _ => rfl⟩
  exact Select.forall_ownExpressions_iff.mpr
    ⟨selects_selectList fields scalar, nofun, nofun, nofun, nofun⟩

end Operators

/-! ## Every plan -/

namespace RemotePlan

variable {dialect : Sql.Dialect}

/-- The compiler gives a fragment that fits the outline of the plan. -/
theorem compile_fits {p : RemotePlan} {before after : Aliases} {f : Fragment}
    (run : Gives (p.compile dialect) before f after) (sound : p.Everywhere Sound) :
    f.Outlined p.outline := by
  refine compile_induction (motive := fun p _ f _ => p.Everywhere Sound → f.Outlined p.outline)
    ?scan ?join ?filter ?projectSame ?project ?calculateSame ?calculateWhere ?calculateItems
    ?calculateBoth ?aggregate ?sort ?set ?row ?rows run sound
  case scan =>
    intro convention fields table names name after _ _
    exact ⟨rfl, rfl, .table rfl rfl⟩
  case join =>
    intro convention fields left right condition kind keys names middle compiled taken after
      leftFragment rightFragment leftNode rightNode leftSources rightSources equalities
      _ leftIh _ rightIh leftTaken rightTaken _ sound
    rw [outline]
    exact (leftIh (sound.input (.head _))).join (rightIh (sound.input (.tail _ (.head _))))
      leftTaken rightTaken kind _
  case filter =>
    intro convention fields input condition names middle after child draft node _ ih drafted
      translated sound
    rw [outline]
    exact (ih (sound.input (.head _))).restrict drafted (.head _) (by decide) translated
  case projectSame =>
    intro convention fields input projects names after child _ ih identity sound
    rw [outline, if_pos identity]
    exact ih (sound.input (.head _))
  case project =>
    intro convention fields input projects names middle after child draft items _ ih other drafted
      translated sound
    rw [outline, if_neg (Bool.eq_false_iff.mp other)]
    exact (ih (sound.input (.head _))).list drafted (.head _) (by decide) translated
  case calculateSame =>
    intro convention fields input program names after child _ ih star sound
    rw [outline, if_pos star]
    exact ih (sound.input (.head _))
  case calculateWhere =>
    intro convention fields input program names middle after child draft condition node _ ih star
      drafted found translated sound
    have present := conditionExpr_isSome found
    rw [outline, if_neg (by simp [Option.isSome_iff_ne_none.mp present]), if_pos present,
      if_pos star]
    exact (ih (sound.input (.head _))).restrict drafted (.head _) (by decide) translated
  case calculateItems =>
    intro convention fields input program names middle after child draft projects items _ ih other
      absent drafted expanded translated sound
    have same : (program.projectExprs.toOption.getD []) = projects := by rw [expanded]; rfl
    have unconditional : program.condition.isSome = false := by rw [absent]; rfl
    rw [outline, if_neg (by simp [other])]
    simp only [other, unconditional, Bool.false_eq_true, if_false]
    rw [same]
    exact (ih (sound.input (.head _))).list drafted (.head _) (by decide) translated
  case calculateBoth =>
    intro convention fields input program names middle after child draft projects items condition
      node _ ih other drafted expanded translated found selected sound
    have same : (program.projectExprs.toOption.getD []) = projects := by rw [expanded]; rfl
    rw [outline, if_neg (by simp [other]), if_pos (conditionExpr_isSome found),
      if_neg (Bool.eq_false_iff.mp other), same]
    exact (ih (sound.input (.head _))).listWhere drafted (.head _) (by decide) translated selected
  case aggregate =>
    intro convention fields input groupSet groupingSets calls names middle after child draft
      groups aggregates _ ih drafted grouped aggregated sound
    rw [outline]
    exact (ih (sound.input (.head _))).aggregate drafted (.head _)
      (by decide) grouped aggregated _
  case sort =>
    intro convention fields input keys names middle after child draft items _ ih drafted ordered
      sound
    rw [outline]
    exact (ih (sound.input (.head _))).sort drafted (.head _) ordered
  case set =>
    intro convention fields kind inputs all names queries after _ _
    exact ⟨rfl, rfl, .setOp rfl rfl⟩
  case row =>
    intro convention fields tuple names sound
    rw [outline]
    exact Fragment.outlined_row (sound.root tuple (.head _))
  case rows =>
    intro convention fields first second rest names _
    exact ⟨rfl, rfl, .setOp rfl rfl⟩

end RemotePlan

end Pushdown
