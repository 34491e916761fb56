import Pushdown.Proofs.Outcome
import Pushdown.Scalar.Expr

/-!
# Facts about expressions

Induction, in which a call has the hypothesis for each of its operands, and projections to all
fields of a row.
-/

namespace Pushdown.Expr

/-- Induction over an expression; a call has the hypothesis for each of its operands. -/
@[induction_eliminator]
theorem tree_induction {motive : Expr → Prop}
    (literal : ∀ value, motive (.literal value))
    (input : ∀ ordinal, motive (.input ordinal))
    (shared : ∀ index, motive (.shared index))
    (call : ∀ op operands, (∀ e ∈ operands, motive e) → motive (.call op operands))
    (e : Expr) : motive e :=
  @Expr.rec motive (fun operands => ∀ e ∈ operands, motive e) literal input shared call
    (fun _ member => nomatch member)
    (fun _ _ head tail => List.forall_mem_cons.mpr ⟨head, tail⟩) e

theorem input?_eq_some_iff {e : Expr} {ordinal : Nat} :
    e.input? = some ordinal ↔ e = .input ordinal := by
  cases e <;> simp [input?]

theorem isTrue_iff {e : Expr} : e.isTrue = true ↔ e = .ofBool true := by
  constructor
  · intro truth
    unfold isTrue at truth
    split at truth
    · rfl
    · cases truth
  · rintro rfl
    rfl

/-- The identity on a row is the list of its fields. -/
theorem isIdentity_iff {es : List Expr} {width : Nat} :
    isIdentity es width = true ↔ es = (List.range width).map .input := by
  rw [isIdentity, Bool.and_eq_true, beq_iff_eq, beq_iff_eq, map_eq_map_iff_forall₂]
  simp only [input?_eq_some_iff]
  constructor
  · rintro ⟨rfl, fields⟩
    simpa using map_eq_map_iff_forall₂ (f := id).mpr fields
  · rintro rfl
    rw [List.length_map, List.length_range, List.forall₂_map_left_iff]
    exact ⟨rfl, List.forall₂_same.mpr fun _ _ => rfl⟩

end Pushdown.Expr
