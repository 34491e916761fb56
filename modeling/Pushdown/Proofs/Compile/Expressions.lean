import Pushdown.Proofs.Compile.References
import Pushdown.Proofs.Compile.Run

/-!
# Expressions of a query

The clauses of a query are built of columns, literals and calls, some under a name.  A property
that all of these have (`Scope.Uniform`) is one of every expression in scope, of select lists and
of constant rows, whatever the fields are.

The fields that a clause repeats, as `GROUP BY` and `ORDER BY` do, are no literals
(`Drafted.isLiteral_of_field`).
-/

namespace Pushdown

open Sql (Node Select OrderItem)

namespace Scope

/-- Columns and literals have the property, calls do on operands that have it, and a name makes no
difference. -/
structure Uniform (P : Node → Prop) : Prop extends Closed P where
  identifier : ∀ parts, P (.identifier parts)
  named : ∀ expr name, P (.named expr name) ↔ P expr

namespace Uniform

variable {P : Node → Prop} {sources : List Source}

theorem unnamed (uniform : Uniform P) {node : Node} (holds : P node) : P node.unnamed := by
  cases node with
  | named expr name => exact (uniform.named expr name).mp holds
  | _ => exact holds

theorem columns (uniform : Uniform P) {qualified : Bool} :
    ∀ node ∈ Scope.columns qualified sources, P node := by
  intro node member
  rcases mem_columns_iff.mp member with ⟨_, _, _, _, rfl⟩
  exact uniform.identifier _

theorem ofColumns (uniform : Uniform P) {qualified : Bool} :
    (Scope.ofColumns sources qualified).EachField P := by
  intro ordinal node found
  rw [field?, column?_eq_getElem?] at found
  exact uniform.columns node (List.mem_of_getElem? found)

/-- What the expressions of a query have, the fields in its scope have. -/
theorem scope (uniform : Uniform P) {query : Select} (each : ∀ e ∈ query.ownExpressions, P e)
    (sources : List Source) : (query.scope sources).EachField P := by
  have items := (Select.forall_ownExpressions_iff.mp each).1
  unfold Select.scope
  cases listed : query.projection with
  | none => exact uniform.ofColumns
  | some nodes =>
    intro ordinal node found
    rcases Option.map_eq_some_iff.mp found with ⟨item, entry, rfl⟩
    rw [listed] at items
    exact uniform.unnamed (items item (List.mem_of_getElem? entry))

theorem selectList (uniform : Uniform P) {nodes : List Node} (fields : Fields)
    (each : ∀ node ∈ nodes, P node) : ∀ item ∈ selectList fields nodes, P item :=
  forall_selectList (fun node name => (uniform.named node name).mpr) fields each

theorem row (uniform : Uniform P) (fields : Fields) (tuple : List Literal) :
    ∀ e ∈ (Select.row (List.zipWith (fun literal name => Node.named (.literal literal) name) tuple
      fields)).ownExpressions, P e :=
  forall_row fun literal name => (uniform.named _ name).mpr (uniform.literal literal)

end Uniform

end Scope

/-- The expressions of a query whose star is written out have what columns have. -/
theorem Scope.Uniform.expandStar {P : Node → Prop} (uniform : Scope.Uniform P) {query : Select}
    (each : ∀ e ∈ query.ownExpressions, P e) (sources : List Source) (fields : Fields) :
    ∀ e ∈ (Pushdown.expandStar query sources fields).ownExpressions, P e := by
  rcases expandStar_cases query sources fields with ⟨same, _⟩ | ⟨written, _, _⟩
  · rwa [same]
  · rw [written]
    exact Select.forall_withProjection each (uniform.selectList fields uniform.columns)

/-! ## Repeated fields -/

section Repeated

variable {f : Fragment} {requested : List Clause} {keys : List Nat} {names after : Aliases}
  {d : Draft}

/-- A field that a clause repeats is no literal: it is a column of a new query, or an item that
was found not to be constant. -/
theorem Drafted.isLiteral_of_field (drafted : Drafted f requested keys names d after) {key : Nat}
    (among : key ∈ keys) {node : Node} (found : d.scope.field key = .ok node) :
    node.isLiteral = false := by
  have field := Scope.field_eq_ok_iff.mp found
  rcases drafted.fresh_or_extended with ⟨_, _, _, scope⟩ | ⟨own, varying, _, _, _, scope⟩
  · rw [scope] at field
    exact Scope.isLiteral_ofSources field
  · have constant := List.any_eq_false.mp varying key among
    rw [scope, Select.scope] at field
    unfold Fragment.isConstant at constant
    rw [own] at constant
    cases listed : d.query.projection with
    | none =>
      rw [listed] at field
      exact Scope.isLiteral_ofSources field
    | some items =>
      rw [listed] at field
      rcases Option.map_eq_some_iff.mp field with ⟨item, entry, rfl⟩
      simpa [listed, entry] using constant

theorem Drafted.isLiteral_of_fields (drafted : Drafted f requested keys names d after)
    {nodes : List Node} (found : d.scope.fields keys = .ok nodes) :
    nodes.any Node.isLiteral = false := by
  refine List.any_eq_false.mpr fun node member => Bool.eq_false_iff.mp ?_
  rcases Except.exists_of_mem_mapM found member with ⟨key, among, field⟩
  exact drafted.isLiteral_of_field among field

end Repeated

end Pushdown
