import Pushdown.Proofs.Compile.Scope

/-!
# When fields resolve

`scope.Resolves width` says that the fields in scope are those below `width`.  What is written
over the scope then succeeds exactly when every field that it refers to is one of these and, for
an expression, no reference to a shared expression is left in it.
-/

namespace Pushdown

/-- The expression is over the fields of a row of the width alone. -/
def Expr.Over (width : Nat) (e : Expr) : Prop := e.sharedRefs = [] ∧ ∀ i ∈ e.inputs, i < width

namespace Scope

variable {scope left right : Scope} {width leftWidth rightWidth : Nat}

/-- The fields in scope are those below the width. -/
def Resolves (scope : Scope) (width : Nat) : Prop :=
  ∀ ordinal, (∃ node, scope.field ordinal = .ok node) ↔ ordinal < width

theorem exists_field_iff {ordinal : Nat} :
    (∃ node, scope.field ordinal = .ok node) ↔ (scope.field? ordinal).isSome = true := by
  simp only [field_eq_ok_iff, Option.isSome_iff_exists]

/-- A scope resolves as many fields as it has. -/
theorem resolves_width (scope : Scope) : scope.Resolves scope.width := by
  intro ordinal
  rw [exists_field_iff]
  cases scope with
  | ofColumns sources qualified =>
    rw [field?, column?_eq_getElem?, width, ← columns_length qualified]
    simp
  | ofItems items =>
    rw [field?, Option.isSome_map, width]
    simp

namespace Resolves

theorem fields (resolves : scope.Resolves width) {ordinals : List Nat} :
    (∃ nodes, scope.fields ordinals = .ok nodes) ↔ ∀ i ∈ ordinals, i < width := by
  rw [Scope.fields, Except.exists_mapM_eq_ok_iff]
  exact forall₂_congr fun ordinal _ => resolves ordinal

/-- An expression is written when it is over the fields in scope alone. -/
theorem expression (resolves : scope.Resolves width) {e : Expr} :
    (∃ node, scope.expression e = .ok node) ↔ e.Over width := by
  unfold Expr.Over
  induction e with
  | literal value => simp [Scope.expression, Expr.sharedRefs, Expr.inputs]
  | input ordinal => simpa [Scope.expression, Expr.sharedRefs, Expr.inputs] using resolves ordinal
  | shared index => simp [Scope.expression, Expr.sharedRefs]
  | call op operands ih =>
    rw [Scope.expression, expressions_eq_mapM, Except.exists_bind_pure_iff,
      Except.exists_mapM_eq_ok_iff, Expr.sharedRefs, Expr.inputs, Expr.sharedRefsAll_eq_flatMap,
      Expr.inputsAll_eq_flatMap, List.flatMap_eq_nil_iff]
    constructor
    · intro each
      have parts := fun e member => (ih e member).mp (each e member)
      refine ⟨fun e member => (parts e member).1, fun i mem => ?_⟩
      rcases List.mem_flatMap.mp mem with ⟨e, member, own⟩
      exact (parts e member).2 i own
    · intro both e member
      exact (ih e member).mpr ⟨both.1 e member, fun i own =>
        both.2 i (List.mem_flatMap.mpr ⟨e, member, own⟩)⟩

theorem expressions (resolves : scope.Resolves width) {es : List Expr} :
    (∃ nodes, scope.expressions es = .ok nodes) ↔ ∀ e ∈ es, e.Over width := by
  rw [expressions_eq_mapM, Except.exists_mapM_eq_ok_iff]
  exact forall₂_congr fun e _ => resolves.expression

theorem aggregates (resolves : scope.Resolves width) {calls : List AggregateCall} :
    (∃ nodes, scope.aggregates calls = .ok nodes) ↔
      ∀ call ∈ calls, ∀ i ∈ call.args, i < width := by
  rw [Scope.aggregates, Except.exists_mapM_eq_ok_iff]
  refine forall₂_congr fun call _ => ?_
  rw [← resolves.fields]
  exact Except.exists_bind_pure_iff

theorem ordering (resolves : scope.Resolves width) {dialect : Sql.Dialect} {keys : List SortKey} :
    (∃ items, scope.ordering dialect keys = .ok items) ↔ ∀ key ∈ keys, key.field < width := by
  rw [Scope.ordering, Except.exists_bind_pure_iff, Except.exists_mapM_eq_ok_iff]
  refine forall₂_congr fun key _ => ?_
  rw [← resolves key.field]
  exact Except.exists_bind_pure_iff

theorem equalities (leftResolves : left.Resolves leftWidth)
    (rightResolves : right.Resolves rightWidth) {keys : List (Nat × Nat)} :
    (∃ nodes, Scope.equalities left right keys = .ok nodes) ↔
      ∀ key ∈ keys, key.1 < leftWidth ∧ key.2 < rightWidth := by
  rw [Scope.equalities, Except.exists_mapM_eq_ok_iff]
  refine forall₂_congr fun key _ => ?_
  rw [← leftResolves key.1, ← rightResolves key.2]
  simp only [equality, Except.bind_eq_ok_iff, Except.pure_eq_ok_iff]
  constructor
  · intro written
    rcases written with ⟨_, first, leftFound, second, rightFound, _⟩
    exact ⟨⟨first, leftFound⟩, ⟨second, rightFound⟩⟩
  · intro found
    rcases found with ⟨⟨first, leftFound⟩, ⟨second, rightFound⟩⟩
    exact ⟨_, first, leftFound, second, rightFound, rfl⟩

end Resolves

end Scope

end Pushdown
