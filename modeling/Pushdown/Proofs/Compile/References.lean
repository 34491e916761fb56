import Mathlib.Data.List.Forall2
import Pushdown.Compile.Fragment
import Pushdown.Proofs.Compile.Scope
import Pushdown.Proofs.Sql.Tree

/-!
# Names in a query

A column reference of a `SELECT` has to name one item of its `FROM` clause and a column of that
item.  `Select.WellScoped` says so of the query's own references.

The compiler keeps the `FROM` clause as a list of sources beside the query.  `Node.Offers` ties
the two together, and `Node.Reads` says of an expression that it refers to nothing but those
sources.  A query built of such parts is well scoped when the names of its sources differ.
-/

namespace Pushdown

open Sql (Node Select)

namespace Sql

/-- The names under which the items of the `FROM` clauses of a tree are known, query by query. -/
def Node.exposed (node : Node) : List (Option String) :=
  node.selects.flatMap fun query => query.fromItems.map Node.outputName?

/-- The reference names a column of one item of the `FROM` clause: by the name of the item, which
no other item has, or without it where there is just one item. -/
def Select.Resolves (tables : List String → Fields) (query : Select) (ref : List String) : Prop :=
  (∃ source column item, ref = [source, column] ∧
    query.fromItems.filter (fun item => item.outputName? = some source) = [item] ∧
    column ∈ item.rowColumns tables) ∨
  (∃ column item, ref = [column] ∧ query.fromItems = [item] ∧ column ∈ item.rowColumns tables)

/-- The query's own references name columns of its `FROM` clause. -/
def Select.WellScoped (tables : List String → Fields) (query : Select) : Prop :=
  ∀ ref ∈ query.columnRefs, query.Resolves tables ref

/-- The names under which the items of a `FROM` clause and those of the queries
below are known. -/
def Node.sourceNames (node : Node) : List (Option String) :=
  node.fromItems.map Node.outputName? ++ node.exposed

/-- The names of a query's `FROM` clause and of the queries below it. -/
def Select.sourceNames (query : Select) : List (Option String) :=
  query.source.toList.flatMap Node.sourceNames

end Sql

/-! ## References to sources -/

/-- The reference names one of the sources and a column of it. -/
def NamesColumn (sources : List Source) (ref : List String) : Prop :=
  ∃ source ∈ sources, ∃ column ∈ source.fields, ref = [source.name, column]

/-- The reference names a column of one of the sources, of the only one if it does
not say which. -/
def RefersTo (sources : List Source) (ref : List String) : Prop :=
  NamesColumn sources ref ∨
    ∃ source, ∃ column ∈ source.fields, sources = [source] ∧ ref = [column]

/-- The node is an expression with no query in it, and all its references have the property. -/
def Sql.Node.Reads (P : List String → Prop) (node : Node) : Prop :=
  node.selects = [] ∧ ∀ ref ∈ node.columnRefs, P ref

section Reads

variable {P Q : List String → Prop} {node : Node}

theorem Scope.closed_reads (P : List String → Prop) : Scope.Closed (Node.Reads P) where
  literal value := ⟨by simp, by simp [Node.columnRefs]⟩
  call operator operands each := by
    constructor
    · rw [Node.selects_call, List.flatMap_eq_nil_iff]
      exact fun operand member => (each operand member).1
    · rw [Node.columnRefs, Node.columnRefsAll_eq_flatMap]
      intro ref member
      obtain ⟨operand, mem, within⟩ := List.mem_flatMap.mp member
      exact (each operand mem).2 ref within

theorem Sql.Node.reads_identifier {ref : List String} (holds : P ref) :
    (Node.identifier ref).Reads P :=
  ⟨by simp, by simpa [Node.columnRefs] using holds⟩

theorem Sql.Node.Reads.imp (reads : node.Reads P) (imp : ∀ ref, P ref → Q ref) : node.Reads Q :=
  ⟨reads.1, fun ref member => imp ref (reads.2 ref member)⟩

theorem Sql.Node.Reads.named (reads : node.Reads P) (name : String) :
    (Node.named node name).Reads P :=
  ⟨by rw [Node.selects_named, reads.1], by rw [Node.columnRefs]; exact reads.2⟩

theorem Sql.Node.Reads.unnamed (reads : node.Reads P) : node.unnamed.Reads P := by
  unfold Node.unnamed
  split
  · rename_i expr name
    exact ⟨by rw [← reads.1, Node.selects_named], by simpa [Node.columnRefs] using reads.2⟩
  · exact reads

end Reads

section Fields

variable {sources : List Source}

theorem NamesColumn.mono {others : List Source} (among : sources ⊆ others) {ref : List String}
    (refers : NamesColumn sources ref) : NamesColumn others ref := by
  obtain ⟨source, member, rest⟩ := refers
  exact ⟨source, among member, rest⟩

theorem Scope.reads_qualified :
    (Scope.ofColumns sources true).EachField (Node.Reads (NamesColumn sources)) := by
  intro ordinal node found
  rw [field?, column?_eq_getElem?] at found
  obtain ⟨source, member, column, mem, rfl⟩ := mem_columns_iff.mp (List.mem_of_getElem? found)
  exact Node.reads_identifier ⟨source, member, column, mem, rfl⟩

theorem Scope.reads_ofSources :
    (Scope.ofSources sources).EachField (Node.Reads (RefersTo sources)) := by
  intro ordinal node found
  rw [ofSources, field?, column?_eq_getElem?] at found
  obtain ⟨source, member, column, mem, rfl⟩ := mem_columns_iff.mp (List.mem_of_getElem? found)
  refine Node.reads_identifier ?_
  by_cases several : 1 < sources.length
  · exact .inl ⟨source, member, column, mem, by simp [several]⟩
  · have some := List.length_pos_of_mem member
    obtain ⟨only, rfl⟩ : ∃ only, sources = [only] := List.length_eq_one_iff.mp (by omega)
    obtain rfl := List.mem_singleton.mp member
    exact .inr ⟨source, column, mem, rfl, by simp⟩

theorem Scope.reads_ofItems {P : List String → Prop} {items : List Node}
    (reads : ∀ item ∈ items, item.Reads P) : (Scope.ofItems items).EachField (Node.Reads P) := by
  intro ordinal node found
  obtain ⟨item, entry, rfl⟩ := Option.map_eq_some_iff.mp found
  exact (reads item (List.mem_of_getElem? entry)).unnamed

/-- The columns at the first positions are all there. -/
theorem Scope.range_filterMap_field? :
    (List.range (sources.flatMap (·.fields)).length).filterMap (Scope.ofSources sources).field? =
      columns (decide (1 < sources.length)) sources := by
  rw [← columns_length (decide (1 < sources.length))]
  generalize whole : columns (decide (1 < sources.length)) sources = nodes
  have look (ordinal : Nat) : (Scope.ofSources sources).field? ordinal = nodes[ordinal]? := by
    rw [← whole, ofSources, field?, column?_eq_getElem?]
  rw [funext look]
  clear look whole
  induction nodes with
  | nil => rfl
  | cons node rest ih =>
    have head : (node :: rest)[0]? = some node := rfl
    rw [List.length_cons, List.range_succ_eq_map, List.filterMap_cons_some head,
      List.filterMap_map]
    exact congrArg _ ih

end Fields

/-! ## Select lists -/

theorem selectItem_cases (fields : Fields) (position : Nat) (node : Node) :
    selectItem fields position node = node ∨
      ∃ name, selectItem fields position node = .named node name := by
  unfold selectItem
  split
  · split
    · exact .inl rfl
    · exact .inr ⟨_, rfl⟩
  · exact .inl rfl

/-- What a node keeps under a name is kept in a select list. -/
theorem forall_selectList {P : Node → Prop} (named : ∀ node name, P node → P (.named node name))
    {nodes : List Node} (fields : Fields) (each : ∀ node ∈ nodes, P node) :
    ∀ item ∈ selectList fields nodes, P item := by
  intro item member
  obtain ⟨position, bound, rfl⟩ := List.mem_mapIdx.mp member
  have own := each _ (List.getElem_mem bound)
  rcases selectItem_cases fields position (nodes.get ⟨position, bound⟩) with same | ⟨name, same⟩
  · exact same ▸ own
  · exact same ▸ named _ name own

theorem reads_selectList {P : List String → Prop} {nodes : List Node} (fields : Fields)
    (reads : ∀ node ∈ nodes, node.Reads P) : ∀ item ∈ selectList fields nodes, item.Reads P :=
  forall_selectList (fun _ name own => own.named name) fields reads

/-- A select list gives the names of the fields. -/
theorem map_outputName?_selectList {fields : Fields} {nodes : List Node}
    (even : nodes.length = fields.length) :
    (selectList fields nodes).map Node.outputName? = fields.map some := by
  refine List.ext_getElem (by simp [selectList, even]) fun position _ bound => ?_
  have within : position < fields.length := by simpa using bound
  simp only [selectList, List.getElem_map, List.getElem_mapIdx, selectItem,
    List.getElem?_eq_getElem within]
  split
  · assumption
  · rfl

/-- The select list of a constant row. -/
theorem selectList_literals {fields : Fields} {tuple : List Literal}
    (even : tuple.length = fields.length) :
    selectList fields (tuple.map Node.literal) =
      List.zipWith (fun literal name => Node.named (.literal literal) name) tuple fields := by
  refine List.ext_getElem (by simp [selectList, even]) fun position bound _ => ?_
  have within : position < fields.length := by simpa [selectList, even] using bound
  simp [selectList, selectItem, List.getElem?_eq_getElem within, Node.outputName?]

/-! ## Queries over sources -/

/-- The node is a `FROM` clause that offers the sources: its items have their names and columns,
its join conditions refer to those by both, and the queries below are well scoped. -/
structure Sql.Node.Offers (tables : List String → Fields) (node : Node) (sources : List Source) :
    Prop where
  items : List.Forall₂ (fun item source => item.outputName? = some source.name ∧
    item.rowColumns tables = source.fields) node.fromItems sources
  conditions : ∀ condition ∈ node.onConditions, condition.Reads (NamesColumn sources)
  below : ∀ query ∈ node.selects, query.WellScoped tables

/-- The query's `FROM` clause offers the sources, and its clauses read only them. -/
structure Sql.Select.ReadsFrom (tables : List String → Fields) (query : Select)
    (sources : List Source) : Prop where
  source : ∀ node ∈ query.source, node.Offers tables sources
  bare : query.source = none → sources = []
  clauses : ∀ e ∈ query.ownExpressions, e.Reads (RefersTo sources)

section Queries

variable {tables : List String → Fields} {query other : Select} {sources : List Source}
  {fields : Fields}

theorem Sql.Select.ReadsFrom.fromItems (reads : query.ReadsFrom tables sources) :
    List.Forall₂ (fun item source => item.outputName? = some source.name ∧
      item.rowColumns tables = source.fields) query.fromItems sources := by
  cases read : query.source with
  | none =>
    rw [reads.bare read, Select.fromItems, read]
    exact .nil
  | some node =>
    rw [Select.fromItems, read]
    exact (reads.source node read).items

/-- The columns of a `FROM` clause are those of its items. -/
theorem Sql.Node.rowColumns_eq_flatMap (tables : List String → Fields) :
    ∀ node : Node, node.rowColumns tables = node.fromItems.flatMap (Node.rowColumns tables)
  | .join ⟨left, kind, right, condition⟩ => by
    rw [Node.rowColumns, Node.fromItems, List.flatMap_append, ← left.rowColumns_eq_flatMap tables,
      ← right.rowColumns_eq_flatMap tables]
  | .identifier _ | .literal _ | .call _ _ | .named _ _ | .select _ | .setOp _ _ => by
    simp [Node.fromItems]

/-- The columns of a query that lists none are those of the sources. -/
theorem Sql.Select.ReadsFrom.rowColumns (reads : query.ReadsFrom tables sources) :
    Node.rowColumns? tables query.source = sources.flatMap (·.fields) := by
  have items := reads.fromItems
  rw [Node.rowColumns?_eq]
  unfold Select.fromItems at items
  cases read : query.source with
  | none => simp [reads.bare read]
  | some node =>
    rw [read] at items
    have columns : node.fromItems.map (Node.rowColumns tables) = sources.map (·.fields) :=
      map_eq_map_iff_forall₂.mpr (items.imp fun _ _ same => same.2)
    rw [Option.map_some, Option.getD_some, Node.rowColumns_eq_flatMap, List.flatMap_def, columns,
      List.flatMap_def]

theorem Sql.Select.fromItems_sublist (query : Select) :
    (query.fromItems.map Node.outputName?).Sublist query.sourceNames := by
  cases read : query.source <;> simp [Select.fromItems, Select.sourceNames,
    Node.sourceNames, read]

theorem Sql.Select.ReadsFrom.congr (reads : query.ReadsFrom tables sources)
    (same : other.source = query.source)
    (clauses : ∀ e ∈ other.ownExpressions, e.Reads (RefersTo sources)) :
    other.ReadsFrom tables sources :=
  ⟨same ▸ reads.source, same ▸ reads.bare, clauses⟩

/-- A source among those of a `FROM` clause is one item of it, when their names differ. -/
theorem exists_item_of_mem {items : List Node} {source : Source}
    (paired : List.Forall₂ (fun item source => item.outputName? = some source.name ∧
      item.rowColumns tables = source.fields) items sources)
    (distinct : (items.map Node.outputName?).Nodup) (member : source ∈ sources) :
    ∃ item, items.filter (fun item => item.outputName? = some source.name) = [item] ∧
      item.rowColumns tables = source.fields := by
  induction paired with
  | nil => exact (List.not_mem_nil member).elim
  | @cons item first rest others same _ ih =>
    obtain ⟨apart, distinct⟩ := List.nodup_cons.mp distinct
    rcases List.mem_cons.mp member with rfl | later
    · refine ⟨item, ?_, same.2⟩
      rw [List.filter_cons_of_pos (by simpa using same.1), List.filter_eq_nil_iff.mpr]
      intro next mem clash
      refine apart (List.mem_map.mpr ⟨next, mem, ?_⟩)
      rw [same.1]
      simpa using clash
    · obtain ⟨found, only, columns⟩ := ih distinct later
      refine ⟨found, ?_, columns⟩
      rw [List.filter_cons_of_neg, only]
      intro clash
      have mem : found ∈ rest := List.mem_of_mem_filter (only ▸ List.mem_singleton_self found)
      have named : found.outputName? = some source.name := by
        have kept := List.of_mem_filter (only ▸ List.mem_singleton_self found :
          found ∈ rest.filter fun item => item.outputName? = some source.name)
        simpa using kept
      refine apart (List.mem_map.mpr ⟨found, mem, ?_⟩)
      rw [named]
      exact (of_decide_eq_true clash).symm

theorem Sql.Select.ReadsFrom.resolves (reads : query.ReadsFrom tables sources)
    (distinct : (query.fromItems.map Node.outputName?).Nodup) {ref : List String}
    (refers : RefersTo sources ref) : query.Resolves tables ref := by
  rcases refers with ⟨source, member, column, mem, rfl⟩ | ⟨source, column, mem, rfl, rfl⟩
  · obtain ⟨item, only, columns⟩ := exists_item_of_mem reads.fromItems distinct member
    exact .inl ⟨source.name, column, item, rfl, only, columns ▸ mem⟩
  · obtain ⟨item, rest, same, none, whole⟩ := List.forall₂_cons_right_iff.mp reads.fromItems
    obtain rfl := List.forall₂_nil_right_iff.mp none
    exact .inr ⟨column, item, rfl, whole, same.2 ▸ mem⟩

/-- A query over sources of different names is well scoped, with all queries below it. -/
theorem Sql.Select.ReadsFrom.wellScoped (reads : query.ReadsFrom tables sources)
    (distinct : (query.fromItems.map Node.outputName?).Nodup) :
    ∀ below ∈ (Node.select query).selects, below.WellScoped tables := by
  intro below member
  rw [(Node.selects_select query).mem_iff] at member
  simp only [List.mem_cons, List.mem_append, List.mem_flatMap] at member
  rcases member with rfl | ⟨node, read, within⟩ | ⟨e, own, within⟩
  · intro ref mem
    refine reads.resolves distinct ?_
    obtain ⟨e, mem, within⟩ := List.mem_flatMap.mp mem
    rcases List.mem_append.mp mem with own | joined
    · exact (reads.clauses e own).2 ref within
    · cases read : below.source with
      | none => simp [read] at joined
      | some node =>
        rw [read] at joined
        exact .inl (((reads.source node read).conditions e joined).2 ref within)
  · exact (reads.source node (Option.mem_toList.mp read)).below below within
  · rw [(reads.clauses e own).1] at within
    exact (List.not_mem_nil within).elim

/-- Of a query whose clauses hold no queries the names are those of its `FROM`
clause and below. -/
theorem Sql.Select.ReadsFrom.exposed_perm (reads : query.ReadsFrom tables sources) :
    (Node.select query).exposed.Perm query.sourceNames := by
  have none : query.ownExpressions.flatMap Node.selects = [] :=
    List.flatMap_eq_nil_iff.mpr fun e own => (reads.clauses e own).1
  refine ((Node.selects_select query).flatMap_right _).trans ?_
  rw [none, List.append_nil, List.flatMap_cons]
  cases read : query.source <;>
    simp [Select.fromItems, Select.sourceNames, Node.sourceNames, Node.exposed, read]

/-! ## Queries that give the fields -/

/-- The query gives one column for each of the fields: under its name if it lists its columns. -/
def Sql.Select.Lists (query : Select) (sources : List Source) (fields : Fields) : Prop :=
  match query.projection with
  | some items => items.map Node.outputName? = fields.map some
  | none => (sources.flatMap (·.fields)).length = fields.length

/-- A star is kept, or written out as the columns of the sources under the names of the fields. -/
theorem expandStar_cases (query : Select) (sources : List Source) (fields : Fields) :
    (expandStar query sources fields = query ∧
      (query.projection.isSome ∨ (sources.flatMap (·.fields)).length ≠ fields.length ∨
        sources.flatMap (·.fields) = fields)) ∨
    (expandStar query sources fields =
        { query with projection := some (selectList fields
            (Scope.columns (decide (1 < sources.length)) sources)) } ∧
      query.projection = none ∧ (sources.flatMap (·.fields)).length = fields.length) := by
  unfold expandStar
  dsimp only
  split
  · rename_i kept
    exact .inl ⟨rfl, kept⟩
  · rename_i written
    simp only [not_or, not_not, Option.not_isSome_iff_eq_none] at written
    rw [← written.2.1, Scope.range_filterMap_field?]
    exact .inr ⟨rfl, written.1, rfl⟩

theorem expandStar_of_some {items : List Node} (listed : query.projection = some items) :
    expandStar query sources fields = query := by
  rcases expandStar_cases query sources fields with ⟨same, _⟩ | ⟨_, star, _⟩
  · exact same
  · rw [listed] at star
    cases star

theorem source_expandStar : (expandStar query sources fields).source = query.source := by
  rcases expandStar_cases query sources fields with ⟨same, _⟩ | ⟨same, _⟩ <;> rw [same]

theorem Sql.Select.ReadsFrom.expanded (reads : query.ReadsFrom tables sources) :
    (expandStar query sources fields).ReadsFrom tables sources := by
  rcases expandStar_cases query sources fields with ⟨same, _⟩ | ⟨same, _⟩
  · rwa [same]
  · rw [same]
    refine reads.congr rfl (Select.forall_withProjection reads.clauses ?_)
    refine reads_selectList fields fun node member => ?_
    obtain ⟨ordinal, entry⟩ := List.mem_iff_getElem?.mp member
    refine Scope.reads_ofSources ordinal node ?_
    rw [Scope.ofSources, Scope.field?, Scope.column?_eq_getElem?, entry]

/-- With its star written out where need be, a query gives the fields under their names. -/
theorem Sql.Select.ReadsFrom.outputNames (reads : query.ReadsFrom tables sources)
    (lists : query.Lists sources fields) :
    (expandStar query sources fields).outputNames tables = fields := by
  have names {items : List Node} (named : items.map Node.outputName? = fields.map some) :
      items.filterMap Node.outputName? = fields := by
    calc items.filterMap Node.outputName? = (items.map Node.outputName?).filterMap id := by
          simp [List.filterMap_map]
      _ = fields := by rw [named]; simp [List.filterMap_map]
  unfold Sql.Select.Lists at lists
  rcases query with ⟨projection, source, selection, groupBy, having, orderBy⟩
  rcases expandStar_cases ⟨projection, source, selection, groupBy, having, orderBy⟩ sources fields
    with ⟨same, kept⟩ | ⟨same, star, even⟩
  · rw [same]
    cases projection with
    | some items => exact names lists
    | none =>
      have whole : sources.flatMap (·.fields) = fields :=
        (kept.resolve_left nofun).resolve_left fun uneven => uneven lists
      rw [Select.outputNames, ← whole]
      exact reads.rowColumns
  · rw [same, Select.outputNames]
    exact names (map_outputName?_selectList (by rw [Scope.columns_length, even]))

end Queries

/-! ## Constant rows -/

/-- A constant row holds named literals. -/
theorem forall_row {P : Node → Prop} (holds : ∀ literal name, P (.named (.literal literal) name))
    {fields : Fields} {tuple : List Literal} :
    ∀ e ∈ (Select.row (List.zipWith (fun literal name => Node.named (.literal literal) name) tuple
      fields)).ownExpressions, P e := by
  refine Select.forall_ownExpressions_iff.mpr ⟨?_, nofun, nofun, nofun, nofun⟩
  intro e member
  rw [Select.row, Option.getD_some, ← List.map_uncurry_zip_eq_zipWith] at member
  obtain ⟨⟨literal, name⟩, _, rfl⟩ := List.mem_map.mp member
  exact holds literal name

/-- A constant row reads from nothing and gives the fields. -/
theorem tupleQuery_reads (tables : List String → Fields) {fields : Fields}
    {tuple : List Literal} :
    (Select.row (List.zipWith (fun literal name => Node.named (.literal literal) name) tuple
      fields)).ReadsFrom tables [] :=
  ⟨nofun, fun _ => rfl,
    forall_row fun literal name => ((Scope.closed_reads _).literal literal).named name⟩

theorem tupleQuery_lists {fields : Fields} {tuple : List Literal}
    (even : tuple.length = fields.length) :
    (Select.row (List.zipWith (fun literal name => Node.named (.literal literal) name) tuple
      fields)).Lists [] fields := by
  unfold Select.Lists Select.row
  dsimp only
  rw [List.map_zipWith]
  exact List.ext_getElem (by simp [even]) fun position _ _ => by simp [Node.outputName?]

end Pushdown
