import Pushdown.Proofs.Meaning.Rows
import Pushdown.Proofs.Meaning.Scalars

/-!
# Queries in the making and their rows

`Select.Plain` describes a query that has not been grouped: its rows are those of its `FROM`
clause that pass a test, each read in a certain way.  Such a query can take a condition, a select
list or groups, and the rows of the result follow.
-/

namespace Pushdown

open Sql (Node Select)

variable {V : Type} [DecidableEq V] {I : Interpretation V} {tables : List String → Fields}
  {db : List String → Bag V}

/-- The query has no groups.  It gives the rows of its frame that pass the test, and the fields in
its scope are those of the row that is read. -/
structure Sql.Select.Plain (I : Interpretation V) (tables : List String → Fields)
    (db : List String → Bag V) (query : Select) (sources : List Source) (rows : Bag V)
    (test : Row V → Bool) (read : Row V → Row V) : Prop where
  source : Node.source? I tables db query.projection.isSome query.source =
    some ⟨columnsOf sources, rows⟩
  width : ∀ row ∈ rows, row.length = (columnsOf sources).length
  selection : Sql.condition? I (columnsOf sources) query.selection = some test
  groupBy : query.groupBy = none
  having : query.having = none
  scope : (query.scope sources).Denotes I (columnsOf sources) read
  length : ∀ row, query.projection.isSome → (read row).length = (query.projection.getD []).length
  star : query.projection = none → read = id

section Plain

variable {query : Select} {sources : List Source} {rows : Bag V} {test : Row V → Bool}
  {read : Row V → Row V} {fields : Fields}

/-- The query over a `FROM` clause as it is. -/
theorem Sql.Select.Plain.starFrom {node : Node}
    (frame : node.frame? I tables db = some ⟨columnsOf sources, rows⟩)
    (distinct : (columnsOf sources).Nodup)
    (width : ∀ row ∈ rows, row.length = (columnsOf sources).length) :
    (Select.starFrom node).Plain I tables db sources rows (fun _ => true) id where
  source := frame
  width := width
  selection := rfl
  groupBy := rfl
  having := rfl
  scope := Scope.denotes_ofSources distinct
  length _ listed := nomatch listed
  star _ := rfl

/-- The query with a condition, where it had none. -/
theorem Sql.Select.Plain.restrict (plain : query.Plain I tables db sources rows test read)
    {condition : Node} {value : Row V → V}
    (computed : condition.scalar? I (columnsOf sources) = some value) :
    ({ query with selection := some condition } : Select).Plain I tables db sources rows
      (fun row => I.isTrue (value row)) read where
  source := plain.source
  width := plain.width
  selection := by rw [Sql.condition?, computed]; rfl
  groupBy := plain.groupBy
  having := plain.having
  scope := plain.scope
  length := plain.length
  star := plain.star

theorem Sql.Node.source?_listed {source : Option Node} {frame : Sql.Frame V} {listed : Bool}
    (found : Node.source? I tables db listed source = some frame) :
    Node.source? I tables db true source = some frame := by
  cases source with
  | some node => exact found
  | none =>
    cases listed with
    | true => exact found
    | false => cases found

/-- The query with a new select list. -/
theorem Sql.Select.Plain.select (plain : query.Plain I tables db sources rows test read)
    {nodes : List Node} {values : Row V → List V} (fields : Fields)
    (computed : Node.scalars? I (columnsOf sources) nodes = some values) :
    ({ query with projection := some (selectList fields nodes) } : Select).Plain
      I tables db sources rows test values where
  source := Node.source?_listed plain.source
  width := plain.width
  selection := plain.selection
  groupBy := plain.groupBy
  having := plain.having
  scope := Scope.denotes_selectList fields computed
  length row _ := by
    simp [selectList, Node.length_of_scalars? computed row]
  star := nofun

/-- A condition in the scope of a query that had none keeps the rows for which it holds. -/
theorem Sql.Select.Plain.restrict_rows (plain : query.Plain I tables db sources rows test read)
    (free : query.selection = none) {condition : Expr} {node : Node}
    (translated : (query.scope sources).expression condition = .ok node) :
    ∃ test',
      ({ query with selection := some node } : Select).Plain I tables db sources rows test' read ∧
      (rows.filter fun row => test' row).map read =
        ((rows.filter fun row => test row).map read).filter fun row =>
          I.isTrue (condition.valueOn I row) := by
  refine ⟨_, plain.restrict (plain.scope.expression translated), ?_⟩
  have all : test = fun _ => true := by
    have selection := plain.selection
    rw [free] at selection
    exact (Option.some.inj selection).symm
  rw [all, Multiset.filter_map]
  simp

/-- A select list in the scope of a query gives the values of its expressions. -/
theorem Sql.Select.Plain.select_rows (plain : query.Plain I tables db sources rows test read)
    (fields : Fields) {projects : List Expr} {items : List Node}
    (translated : (query.scope sources).expressions projects = .ok items) :
    ∃ read',
      ({ query with projection := some (selectList fields items) } : Select).Plain
        I tables db sources rows test read' ∧
      (rows.filter fun row => test row).map read' =
        ((rows.filter fun row => test row).map read).map fun row =>
          projects.map fun e => e.valueOn I row := by
  refine ⟨_, plain.select fields (plain.scope.expressions translated), ?_⟩
  rw [Multiset.map_map]
  rfl

/-- The rows of a query with a select list. -/
theorem Sql.Select.Plain.relation?_of_listed
    (plain : query.Plain I tables db sources rows test read) {items : List Node}
    (listed : query.projection = some items)
    (named : items.map Node.outputName? = fields.map some) :
    query.relation? I tables db =
      some ⟨fields, (rows.filter fun row => test row).map read⟩ := by
  have names : items.mapM Node.outputName? = some fields :=
    Option.mapM_eq_some_iff.mpr (map_eq_map_iff_forall₂.mp named)
  have computed : Node.scalars? I (columnsOf sources) (items.map Node.unnamed) = some read := by
    have scope := plain.scope
    have even := plain.length
    rw [Select.scope, listed] at scope
    rw [listed] at even
    refine Node.scalars?_of_positions (fun row => ?_) fun position node entry => ?_
    · rw [even row rfl, List.length_map]
      rfl
    · exact scope position node (by rw [Scope.field?, ← List.getElem?_map, entry])
  have scalar : (items.map Node.unnamed).any Node.hasAggregate = false := by
    refine List.any_eq_false.mpr fun node member => ?_
    obtain ⟨value, own⟩ := Node.exists_scalar?_of_mem computed member
    simp [Node.hasAggregate_of_scalar? own]
  have source := plain.source
  have selection := plain.selection
  have groupBy := plain.groupBy
  have having' := plain.having
  rcases query with ⟨projection, from', condition, keys, having, order⟩
  dsimp only at listed source selection groupBy having'
  subst listed groupBy having'
  rw [Select.relation?, source]
  simp only [Option.bind_eq_bind, Option.bind_some]
  rw [Sql.result?, selection]
  simp only [Option.bind_eq_bind, Option.bind_some, names, scalar, Option.isSome_none,
    Bool.or_self, Bool.false_eq_true, if_false, computed]
  rfl

/-- The rows of a query whose star is kept. -/
theorem Sql.Select.Plain.relation?_of_star
    (plain : query.Plain I tables db sources rows test read) (star : query.projection = none) :
    query.relation? I tables db =
      some ⟨sources.flatMap (·.fields), rows.filter fun row => test row⟩ := by
  have source := plain.source
  have selection := plain.selection
  have groupBy := plain.groupBy
  have having' := plain.having
  rcases query with ⟨projection, reads, condition, keys, having, order⟩
  dsimp only at star source selection groupBy having'
  subst star groupBy having'
  rw [Select.relation?, source]
  simp only [Option.bind_eq_bind, Option.bind_some]
  rw [Sql.result?, selection]
  simp only [Option.bind_eq_bind, Option.bind_some, Option.isSome_none, Bool.or_self,
    Bool.false_eq_true, if_false, map_snd_columnsOf]
  rfl

/-- With its star written out where need be, a query gives its rows under the names
of the fields. -/
theorem Sql.Select.Plain.relation? (plain : query.Plain I tables db sources rows test read)
    (lists : query.Lists sources fields) :
    (Node.select (expandStar query sources fields)).relation? I tables db =
      some ⟨fields, (rows.filter fun row => test row).map read⟩ := by
  unfold Select.Lists at lists
  rw [Node.relation?]
  rcases expandStar_cases query sources fields with ⟨same, kept⟩ | ⟨same, star, even⟩
  · rw [same]
    cases listed : query.projection with
    | some items =>
      rw [listed] at lists
      exact plain.relation?_of_listed listed lists
    | none =>
      rw [listed] at lists kept
      have whole : sources.flatMap (·.fields) = fields :=
        (kept.resolve_left nofun).resolve_left fun uneven => uneven lists
      rw [plain.relation?_of_star listed, whole, plain.star listed, Multiset.map_id]
  · -- The columns written out give back each row as it is.
    have scope := plain.scope
    rw [Select.scope, star] at scope
    rw [plain.star star] at scope ⊢
    have computed : Node.scalars? I (columnsOf sources)
        (Scope.columns (decide (1 < sources.length)) sources) = some fun row =>
          (List.range (columnsOf sources).length).map fun position =>
            row.getD position I.null := by
      refine Node.scalars?_of_positions (fun row => ?_) fun position node entry => ?_
      · rw [List.length_map, List.length_range, Scope.columns_length, columnsOf_length]
      · have bound : position < (columnsOf sources).length := by
          rw [columnsOf_length, ← Scope.columns_length (decide (1 < sources.length))]
          exact (List.getElem?_eq_some_iff.mp entry).1
        have found : (Scope.ofSources sources).field? position = some node := by
          rw [Scope.ofSources, Scope.field?, Scope.column?_eq_getElem?, entry]
        rw [scope position node found]
        simp [List.getD_eq_getElem?_getD, bound]
    have written := plain.select fields computed
    rw [same, written.relation?_of_listed rfl]
    · refine congrArg (fun rows => some (Sql.Relation.mk fields rows)) (Multiset.map_congr rfl ?_)
      intro row member
      exact map_range_getD (plain.width row (Multiset.mem_of_mem_filter member)) I.null
    · exact map_outputName?_selectList (by rw [Scope.columns_length, even])

/-- A select list without its names is the list that it was made from. -/
theorem map_unnamed_selectList {nodes : List Node} (fields : Fields)
    (bare : ∀ node ∈ nodes, node.unnamed = node) :
    (selectList fields nodes).map Node.unnamed = nodes := by
  refine List.ext_getElem (by simp [selectList]) fun position _ bound => ?_
  have own := bare _ (List.getElem_mem bound)
  simp only [selectList, List.getElem_map, List.getElem_mapIdx]
  rcases selectItem_cases fields position (nodes.get ⟨position, bound⟩) with same | ⟨name, same⟩
  · exact (congrArg Node.unnamed same).trans own
  · exact congrArg Node.unnamed same

/-- What an aggregate call is written as. -/
theorem exists_call_of_mem_aggregates {scope : Scope} {calls : List AggregateCall}
    {nodes : List Node} (aggregated : scope.aggregates calls = .ok nodes) {node : Node}
    (member : node ∈ nodes) :
    ∃ function distinct arguments, node = .call (.aggregate function distinct) arguments := by
  obtain ⟨call, _, done⟩ := Except.exists_of_mem_mapM aggregated member
  obtain ⟨arguments, _, built⟩ := Except.bind_eq_ok_iff.mp done
  cases built
  exact ⟨_, _, _, rfl⟩

/-- The rows of a query that is grouped by fields in its scope. -/
theorem Sql.Select.Plain.aggregate (plain : query.Plain I tables db sources rows test read)
    {groupSet : List Nat} {calls : List AggregateCall} {groups aggregates : List Node}
    {groupBy : Option (List Node)}
    (grouped : (query.scope sources).fields groupSet = .ok groups)
    (aggregated : (query.scope sources).aggregates calls = .ok aggregates)
    (varying : groups.any Node.isLiteral = false)
    (even : (groups ++ aggregates).length = fields.length)
    (slot : groupBy = some groups ∨ groupBy = none ∧ groups = [] ∧ calls ≠ []) :
    ({ query with projection := some (selectList fields (groups ++ aggregates)), groupBy } :
      Select).relation? I tables db =
      some ⟨fields, (if groupSet.isEmpty then {([], (rows.filter fun row => test row).map read)}
        else Bag.groups (fun row => groupSet.map fun column => row.getD column I.null)
          ((rows.filter fun row => test row).map read)).map
        fun group => group.1 ++ calls.map fun call => call.value I group.2⟩ := by
  have keys := plain.scope.fields grouped
  have names : (selectList fields (groups ++ aggregates)).mapM Node.outputName? = some fields :=
    Option.mapM_eq_some_iff.mpr (map_eq_map_iff_forall₂.mp (map_outputName?_selectList even))
  have nodes : (selectList fields (groups ++ aggregates)).map Node.unnamed =
      groups ++ aggregates := by
    refine map_unnamed_selectList fields (List.forall_mem_append.mpr ⟨?_, ?_⟩)
    · intro node member
      obtain ⟨value, own⟩ := Node.exists_scalar?_of_mem keys member
      exact Node.unnamed_of_scalar? own
    · intro node member
      obtain ⟨_, _, _, rfl⟩ := exists_call_of_mem_aggregates aggregated member
      rfl
  have written : groupBy.getD [] = groups := by
    rcases slot with rfl | ⟨rfl, rfl, _⟩ <;> rfl
  have isGrouped : (groupBy.isSome || false || (groups ++ aggregates).any Node.hasAggregate) =
      true := by
    rcases slot with rfl | ⟨rfl, rfl, called⟩
    · rfl
    · have nonempty : aggregates ≠ [] := by
        rw [← List.length_pos_iff, Scope.length_of_aggregates aggregated]
        exact List.length_pos_iff.mpr called
      obtain ⟨node, member⟩ := List.exists_mem_of_ne_nil _ nonempty
      obtain ⟨_, _, _, rfl⟩ := exists_call_of_mem_aggregates aggregated member
      exact Bool.or_eq_true_iff.mpr (.inr (List.any_eq_true.mpr ⟨_, member, by
        simp [Node.hasAggregate]⟩))
  obtain ⟨values, keyed, reads⟩ := Node.groupeds?_keys keys
  have all := Node.groupeds?_append keyed (plain.scope.aggregates keys aggregated)
  have empty : groups.isEmpty = groupSet.isEmpty := by
    rw [Bool.eq_iff_iff, List.isEmpty_iff_length_eq_zero, List.isEmpty_iff_length_eq_zero,
      Scope.length_of_fields grouped]
  have partition : Sql.groups? I (columnsOf sources) groups (rows.filter fun row => test row) =
      some (if groupSet.isEmpty then {([], rows.filter fun row => test row)}
        else Bag.groups (fun row => groupSet.map fun column => (read row).getD column I.null)
          (rows.filter fun row => test row)) := by
    rw [Sql.groups?, if_neg (by simp [varying]), keys, empty]
    split <;> rfl
  rw [Select.relation?]
  dsimp only [Option.isSome_some]
  rw [Node.source?_listed plain.source]
  simp only [Option.bind_eq_bind, Option.bind_some]
  rw [Sql.result?, plain.selection]
  simp only [Option.bind_eq_bind, Option.bind_some, names, nodes, plain.having,
    Option.isSome_none,
    isGrouped, if_true, written, partition, Sql.having?, all]
  refine congrArg (fun rows => some (Sql.Relation.mk fields rows)) ?_
  split
  · rename_i none
    obtain rfl := List.isEmpty_iff.mp none
    have key := reads [] (rows.filter fun row => test row)
    rw [List.map_nil] at key
    rw [Multiset.map_singleton, Multiset.map_singleton, key]
  · rw [Bag.groups_map, Multiset.map_map]
    refine Multiset.map_congr rfl fun group member => ?_
    obtain ⟨row, key⟩ := Bag.exists_key member
    rw [key, reads]
    simp only [Function.comp, key]

/-- An order changes neither the rows of a query nor the names of its columns. -/
theorem relation?_withOrder (query : Select) (sources : List Source) (fields : Fields)
    (order : Option (List Sql.OrderItem)) :
    (Node.select (expandStar { query with orderBy := order } sources fields)).relation?
      I tables db =
      (Node.select (expandStar query sources fields)).relation? I tables db := by
  have same : expandStar { query with orderBy := order } sources fields =
      { expandStar query sources fields with orderBy := order } := by
    unfold expandStar
    dsimp only
    split <;> rfl
  rw [same, Node.relation?, Node.relation?]
  generalize expandStar query sources fields = expanded
  rcases expanded with ⟨projection, source, selection, groupBy, having, _⟩
  rw [Select.relation?, Select.relation?]

end Plain

end Pushdown
