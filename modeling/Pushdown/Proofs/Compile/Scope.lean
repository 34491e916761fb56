import Pushdown.Compile.Scope
import Pushdown.Proofs.Outcome
import Pushdown.Proofs.Scalar.Expr

/-!
# What is written in a scope

A property that the fields in scope have, that literals have, and that a call has when its
operands do, is one of everything that is written over those fields: expressions, aggregate calls,
sort keys and the equalities of a join.
-/

namespace Pushdown

open Sql (Node OrderItem)

namespace Scope

variable {scope left right : Scope} {P : Node → Prop}

theorem field_eq_ok_iff {ordinal : Nat} {node : Node} :
    scope.field ordinal = .ok node ↔ scope.field? ordinal = some node := by
  unfold field
  split
  · rename_i found
    rw [found]
    exact ⟨fun same => congrArg some (Except.ok.inj same),
      fun same => congrArg Except.ok (Option.some.inj same)⟩
  · rename_i absent
    simp [absent]

theorem length_of_expressions {es : List Expr} {nodes : List Node}
    (translated : scope.expressions es = .ok nodes) : nodes.length = es.length := by
  rw [expressions_eq_mapM] at translated
  exact (Except.mapM_eq_ok_iff.mp translated).length_eq.symm

theorem length_of_fields {ordinals : List Nat} {nodes : List Node}
    (found : scope.fields ordinals = .ok nodes) : nodes.length = ordinals.length :=
  (Except.mapM_eq_ok_iff.mp found).length_eq.symm

theorem length_of_aggregates {calls : List AggregateCall} {nodes : List Node}
    (translated : scope.aggregates calls = .ok nodes) : nodes.length = calls.length :=
  (Except.mapM_eq_ok_iff.mp translated).length_eq.symm

/-- A column of the sources laid end to end, as the identifier that stands for it. -/
def columns (qualified : Bool) (sources : List Source) : List Node :=
  sources.flatMap fun source => source.fields.map fun column =>
    .identifier (if qualified then [source.name, column] else [column])

theorem columns_length (qualified : Bool) (sources : List Source) :
    (columns qualified sources).length = (sources.flatMap (·.fields)).length := by
  simp [columns, List.length_flatMap]

/-- Resolution is indexing into the columns of the sources laid end to end. -/
theorem column?_eq_getElem? (qualified : Bool) (sources : List Source) (ordinal : Nat) :
    column? qualified sources ordinal = (columns qualified sources)[ordinal]? := by
  induction sources generalizing ordinal with
  | nil => rfl
  | cons source rest ih =>
    rw [column?, columns, List.flatMap_cons, List.getElem?_append, List.length_map]
    by_cases within : ordinal < source.fields.length
    · simp [within]
    · rw [List.getElem?_eq_none (Nat.not_lt.mp within), if_neg within]
      exact ih _

theorem mem_columns_iff {qualified : Bool} {sources : List Source} {node : Node} :
    node ∈ columns qualified sources ↔ ∃ source ∈ sources, ∃ column ∈ source.fields,
      node = .identifier (if qualified then [source.name, column] else [column]) := by
  simp only [columns, List.mem_flatMap, List.mem_map]
  exact ⟨fun ⟨source, member, column, mem, same⟩ => ⟨source, member, column, mem, same.symm⟩,
    fun ⟨source, member, column, mem, same⟩ => ⟨source, member, column, mem, same.symm⟩⟩

/-- Columns are no literals. -/
theorem isLiteral_ofSources {sources : List Source} {ordinal : Nat} {node : Node}
    (found : (ofSources sources).field? ordinal = some node) : node.isLiteral = false := by
  rw [ofSources, field?, column?_eq_getElem?] at found
  obtain ⟨_, _, _, _, rfl⟩ := mem_columns_iff.mp (List.mem_of_getElem? found)
  rfl

/-- Every field in scope has the property. -/
def EachField (scope : Scope) (P : Node → Prop) : Prop :=
  ∀ ordinal node, scope.field? ordinal = some node → P node

/-- Literals have the property, and calls do on operands that have it. -/
structure Closed (P : Node → Prop) : Prop where
  literal : ∀ value, P (.literal value)
  call : ∀ operator operands, (∀ operand ∈ operands, P operand) → P (.call operator operands)

theorem EachField.field (fields : scope.EachField P) {ordinal : Nat} {node : Node}
    (found : scope.field ordinal = .ok node) : P node :=
  fields ordinal node (field_eq_ok_iff.mp found)

theorem EachField.fields (fields : scope.EachField P) {ordinals : List Nat} {nodes : List Node}
    (found : scope.fields ordinals = .ok nodes) : ∀ node ∈ nodes, P node := by
  intro node member
  obtain ⟨ordinal, _, resolved⟩ := Except.exists_of_mem_mapM found member
  exact fields.field resolved

theorem EachField.expression (fields : scope.EachField P) (closed : Closed P) {e : Expr}
    {node : Node}
    (translated : scope.expression e = .ok node) : P node := by
  induction e generalizing node with
  | literal value =>
    cases translated
    exact closed.literal value
  | input ordinal => exact fields.field translated
  | shared index => cases translated
  | call op operands ih =>
    simp only [Scope.expression, expressions_eq_mapM, Except.bind_eq_ok_iff] at translated
    obtain ⟨nodes, each, built⟩ := translated
    cases built
    refine closed.call _ _ fun operand member => ?_
    obtain ⟨e, mem, done⟩ := Except.exists_of_mem_mapM each member
    exact ih e mem done

theorem EachField.expressions (fields : scope.EachField P) (closed : Closed P) {es : List Expr}
    {nodes : List Node} (translated : scope.expressions es = .ok nodes) :
    ∀ node ∈ nodes, P node := by
  intro node member
  rw [expressions_eq_mapM] at translated
  obtain ⟨e, _, done⟩ := Except.exists_of_mem_mapM translated member
  exact fields.expression closed done

theorem EachField.aggregates (fields : scope.EachField P) (closed : Closed P)
    {calls : List AggregateCall} {nodes : List Node}
    (translated : scope.aggregates calls = .ok nodes) : ∀ node ∈ nodes, P node := by
  intro node member
  obtain ⟨call, _, done⟩ := Except.exists_of_mem_mapM translated member
  obtain ⟨arguments, found, built⟩ := Except.bind_eq_ok_iff.mp done
  cases built
  exact closed.call _ _ (fields.fields found)

/-- The expressions of the keys that order by a node with the property have it. -/
theorem Closed.orderItems (closed : Closed P) {dialect : Sql.Dialect} {node : Node}
    {descending : Bool} {nulls : Option Sql.NullsOrder} (holds : P node) :
    ∀ item ∈ dialect.orderItems node descending nulls, P item.expr := by
  have flag (key : Node) (found : dialect.nullKey? node = some key) : P key := by
    unfold Sql.Dialect.nullKey? Node.scalarCall at found
    split at found
    · cases found
    · cases found
      exact closed.call _ _ (by simpa using holds)
    · cases found
      refine closed.call _ _ ?_
      simp only [List.forall_mem_cons]
      exact ⟨closed.call _ _ (by simpa using holds), closed.literal _, closed.literal _, by simp⟩
  unfold Sql.Dialect.orderItems
  split
  · simpa using holds
  · split
    · simpa using holds
    · rename_i key found
      simpa using ⟨flag key found, holds⟩

/-- Each key of an `ORDER BY` orders by a field that the sort names. -/
theorem exists_of_mem_ordering {dialect : Sql.Dialect} {keys : List SortKey}
    {items : List OrderItem} (translated : scope.ordering dialect keys = .ok items)
    {item : OrderItem} (member : item ∈ items) :
    ∃ key ∈ keys, ∃ node, scope.field key.field = .ok node ∧
      item ∈ dialect.orderItems node (key.direction == .descending) key.nulls.toSql := by
  obtain ⟨lists, each, built⟩ := Except.bind_eq_ok_iff.mp translated
  cases built
  obtain ⟨list, within, mem⟩ := List.mem_flatten.mp member
  obtain ⟨key, among, done⟩ := Except.exists_of_mem_mapM each within
  obtain ⟨node, resolved, listed⟩ := Except.bind_eq_ok_iff.mp done
  cases listed
  exact ⟨key, among, node, resolved, mem⟩

theorem EachField.ordering (fields : scope.EachField P) (closed : Closed P)
    {dialect : Sql.Dialect} {keys : List SortKey} {items : List OrderItem}
    (translated : scope.ordering dialect keys = .ok items) : ∀ item ∈ items, P item.expr := by
  intro item member
  obtain ⟨_, _, node, resolved, mem⟩ := exists_of_mem_ordering translated member
  exact closed.orderItems (fields.field resolved) item mem

theorem EachField.equalities (leftFields : left.EachField P) (rightFields : right.EachField P)
    (closed : Closed P) {keys : List (Nat × Nat)} {nodes : List Node}
    (translated : equalities left right keys = .ok nodes) : ∀ node ∈ nodes, P node := by
  intro node member
  obtain ⟨key, _, done⟩ := Except.exists_of_mem_mapM translated member
  obtain ⟨first, leftFound, rest⟩ := Except.bind_eq_ok_iff.mp done
  obtain ⟨second, rightFound, built⟩ := Except.bind_eq_ok_iff.mp rest
  cases built
  refine closed.call _ _ ?_
  simp only [List.forall_mem_cons]
  exact ⟨leftFields.field leftFound, rightFields.field rightFound, by simp⟩

theorem Closed.conjunction (closed : Closed P) {nodes : List Node}
    (holds : ∀ node ∈ nodes, P node) :
    ∀ node ∈ (Node.conjunction? nodes).toList, P node := by
  match nodes with
  | [] => simp [Node.conjunction?]
  | first :: rest =>
    obtain ⟨head, tail⟩ := List.forall_mem_cons.mp holds
    simp only [Node.conjunction?, Option.toList_some, List.forall_mem_singleton]
    clear holds
    induction rest generalizing first with
    | nil => exact head
    | cons second rest ih =>
      obtain ⟨next, others⟩ := List.forall_mem_cons.mp tail
      refine ih _ ?_ others
      exact closed.call _ _ (by simpa using ⟨head, next⟩)

end Scope

end Pushdown
