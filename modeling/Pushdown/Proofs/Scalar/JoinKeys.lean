import Pushdown.Proofs.Scalar.Expr
import Pushdown.Scalar.JoinKeys

/-!
# The keys of a join condition

Where the parts of a condition go: `Flattens` says what the parts are, `Equates` which of them are
keys, and `Splits` that each is taken once and in order.  Nothing is lost or added on the way
(`JoinKeys.Judges.condition_iff`), by whatever means expressions are found to be true on a row.

Whether a condition that is all pairs has any does not depend on the widths of the inputs.
-/

namespace Pushdown

/-- The parts of a conjunction in order, with conjunctions among them opened. -/
inductive Expr.Flattens : Expr → List Expr → Prop
  | single {e : Expr} (other : ∀ operands, e ≠ .scalarCall .and operands) : Flattens e [e]
  | conjunction {operands : List Expr} {parts : List (List Expr)}
      (each : List.Forall₂ Flattens operands parts) :
      Flattens (.scalarCall .and operands) parts.flatten

theorem Expr.conjuncts_and (operands : List Expr) :
    (Expr.scalarCall .and operands).conjuncts = operands.flatMap conjuncts := by
  rw [scalarCall, conjuncts, conjunctsAll_eq_flatMap]

theorem Expr.conjuncts_of_not_and {e : Expr} (other : ∀ operands, e ≠ .scalarCall .and operands) :
    e.conjuncts = [e] := by
  unfold conjuncts
  split
  · exact absurd rfl (other _)
  · rfl

/-- Induction over the conjunctions of an expression, down to what is none. -/
theorem Expr.conjunction_induction {motive : Expr → Prop}
    (conjunction : ∀ operands, (∀ e ∈ operands, motive e) → motive (.scalarCall .and operands))
    (other : ∀ e, (∀ operands, e ≠ .scalarCall .and operands) → motive e) (e : Expr) :
    motive e := by
  induction e with
  | call op operands ih =>
    by_cases isAnd : op = .scalar .and
    · subst isAnd
      exact conjunction operands ih
    · exact other _ fun _ same => isAnd (Expr.call.inj same).1
  | _ =>
    refine other _ fun _ same => ?_
    cases same

theorem Expr.flattens_conjuncts (e : Expr) : e.Flattens e.conjuncts := by
  induction e using conjunction_induction with
  | conjunction operands ih =>
    rw [conjuncts_and, List.flatMap_def]
    exact .conjunction (List.forall₂_map_right_iff.mpr (List.forall₂_same.mpr ih))
  | other e other =>
    rw [conjuncts_of_not_and other]
    exact .single other

namespace JoinKeys

variable {left right : Nat} {condition : Expr} {key : Nat × Nat}

/-- The expression is an equality of a field of the left input and a field of the right input.  In
the expression the fields of the right input come after those of the left. -/
inductive Equates (left right : Nat) : Expr → Nat × Nat → Prop
  | forward {a b : Nat} (inLeft : a < left) (inRight : b < right) :
      Equates left right (.scalarCall .eq [.input a, .input (left + b)]) (a, b)
  | backward {a b : Nat} (inLeft : a < left) (inRight : b < right) :
      Equates left right (.scalarCall .eq [.input (left + b), .input a]) (a, b)

theorem joinedWidth_le (left right : Nat) : joinedWidth left right ≤ left + right :=
  Nat.mod_le _ _

theorem equates_of_pair? {e : Expr} (found : pair? left right e = some key) :
    Equates left right e key := by
  have width := joinedWidth_le left right
  unfold pair? at found
  split at found
  · rename_i a b
    dsimp only at found
    split at found
    · rename_i ordered
      cases found
      obtain ⟨b, rfl⟩ := Nat.exists_eq_add_of_le ordered.2.1
      rw [Nat.add_sub_cancel_left]
      exact .forward ordered.1 (by omega)
    · split at found
      · rename_i swapped
        cases found
        obtain ⟨a, rfl⟩ := Nat.exists_eq_add_of_le swapped.2.1
        rw [Nat.add_sub_cancel_left]
        exact .backward swapped.1 (by omega)
      · cases found
  · cases found

/-- Unless the width of the joined row is no 64-bit word, every such equality is found. -/
theorem pair?_eq_some_iff (bounded : left + right < UInt64.size) {e : Expr} :
    pair? left right e = some key ↔ Equates left right e key := by
  refine ⟨equates_of_pair?, fun equates => ?_⟩
  have width : joinedWidth left right = left + right := Nat.mod_eq_of_lt bounded
  cases equates with
  | forward inLeft inRight =>
    simp only [Expr.scalarCall, pair?, width]
    rw [if_pos ⟨inLeft, by omega, by omega⟩, Nat.add_sub_cancel_left]
  | backward inLeft inRight =>
    simp only [Expr.scalarCall, pair?, width]
    rw [if_neg (by omega), if_pos ⟨inLeft, by omega, by omega⟩, Nat.add_sub_cancel_left]

/-- The fields of a pair are fields of their inputs. -/
theorem pair?_lt {e : Expr} (found : pair? left right e = some key) :
    key.1 < left ∧ key.2 < right := by
  cases equates_of_pair? found with
  | forward inLeft inRight | backward inLeft inRight => exact ⟨inLeft, inRight⟩

theorem lt_of_mem_pairs (member : key ∈ (ofCondition left right condition).pairs) :
    key.1 < left ∧ key.2 < right := by
  rcases List.mem_filterMap.mp member with ⟨e, _, found⟩
  exact pair?_lt found

/-! ## Where the parts go -/

/-- The parts go in order to the keys that they are, or else remain; truth is left out. -/
inductive Splits (isKey : Expr → Nat × Nat → Prop) :
    List Expr → List (Nat × Nat) → List Expr → Prop
  | nil : Splits isKey [] [] []
  | truth {parts : List Expr} {pairs : List (Nat × Nat)} {remaining : List Expr}
      (rest : Splits isKey parts pairs remaining) :
      Splits isKey (.ofBool true :: parts) pairs remaining
  | pair {e : Expr} {key : Nat × Nat} {parts : List Expr} {pairs : List (Nat × Nat)}
      {remaining : List Expr} (own : isKey e key) (rest : Splits isKey parts pairs remaining) :
      Splits isKey (e :: parts) (key :: pairs) remaining
  | other {e : Expr} {parts : List Expr} {pairs : List (Nat × Nat)} {remaining : List Expr}
      (restricts : e ≠ .ofBool true) (unpaired : ∀ key, ¬ isKey e key)
      (rest : Splits isKey parts pairs remaining) :
      Splits isKey (e :: parts) pairs (e :: remaining)

theorem splits_ofCondition (left right : Nat) (condition : Expr) :
    Splits (fun e key => pair? left right e = some key) condition.conjuncts
      (ofCondition left right condition).pairs (ofCondition left right condition).remaining := by
  unfold ofCondition
  dsimp only
  induction condition.conjuncts with
  | nil => exact .nil
  | cons e parts ih =>
    by_cases truth : e.isTrue = true
    · rw [List.filter_cons_of_neg (by simp [truth]), Expr.isTrue_iff.mp truth]
      exact .truth ih
    · rw [List.filter_cons_of_pos (by simp [truth])]
      cases found : pair? left right e with
      | none =>
        rw [List.filterMap_cons_none found, List.filter_cons_of_pos (by simp [found])]
        exact .other (fun same => truth (Expr.isTrue_iff.mpr same))
          (fun key => by simp [found]) ih
      | some key =>
        rw [List.filterMap_cons_some found, List.filter_cons_of_neg (by simp [found])]
        exact .pair found ih

/-- A condition that is all pairs has none of them when there is nothing in it but truth. -/
theorem pairs_eq_nil_iff (equi : (ofCondition left right condition).remaining = []) :
    (ofCondition left right condition).pairs = [] ↔
      ∀ e ∈ condition.conjuncts, e.isTrue = true := by
  simp only [ofCondition, List.filterMap_eq_nil_iff, List.mem_filter, Bool.not_eq_true',
    and_imp]
  simp only [ofCondition, List.filter_eq_nil_iff, List.mem_filter, Bool.not_eq_true',
    Option.isNone_iff_eq_none, and_imp] at equi
  constructor
  · intro unpaired e member
    cases plain : e.isTrue with
    | true => rfl
    | false => exact absurd (unpaired e member plain) (equi e member plain)
  · intro vacuous e member plain
    rw [vacuous e member] at plain
    cases plain

/-! ## When the condition is true -/

/-- Which expressions are true on a row, by any reading of the other operators: a conjunction is
if all its operands are, and an equality whichever side comes first. -/
structure Judges (holds : Expr → Prop) : Prop where
  truth : holds (.ofBool true)
  conjunction : ∀ operands, holds (.scalarCall .and operands) ↔ ∀ e ∈ operands, holds e
  symmetric : ∀ a b, holds (.scalarCall .eq [a, b]) ↔ holds (.scalarCall .eq [b, a])

/-- The equality that a pair of keys stands for, on rows with `left` fields from the left. -/
def equality (left : Nat) (key : Nat × Nat) : Expr :=
  .scalarCall .eq [.input key.1, .input (left + key.2)]

namespace Judges

variable {holds : Expr → Prop}

theorem conjuncts_iff (judges : Judges holds) (e : Expr) :
    holds e ↔ ∀ part ∈ e.conjuncts, holds part := by
  induction e using Expr.conjunction_induction with
  | conjunction operands ih =>
    rw [judges.conjunction, Expr.conjuncts_and, List.forall_mem_flatMap]
    exact forall₂_congr ih
  | other e other => rw [Expr.conjuncts_of_not_and other, List.forall_mem_singleton]

theorem equates_iff (judges : Judges holds) {e : Expr} (equates : Equates left right e key) :
    holds e ↔ holds (equality left key) := by
  cases equates with
  | forward => exact Iff.rfl
  | backward => exact judges.symmetric _ _

theorem splits_iff (judges : Judges holds) {isKey : Expr → Nat × Nat → Prop}
    (keyed : ∀ {e key}, isKey e key → (holds e ↔ holds (equality left key))) {parts : List Expr}
    {pairs : List (Nat × Nat)} {remaining : List Expr}
    (splits : Splits isKey parts pairs remaining) :
    (∀ e ∈ parts, holds e) ↔
      (∀ key ∈ pairs, holds (equality left key)) ∧ ∀ e ∈ remaining, holds e := by
  induction splits with
  | nil => simp
  | truth _ ih => rw [List.forall_mem_cons, ih, and_iff_right judges.truth]
  | pair own _ ih => rw [List.forall_mem_cons, List.forall_mem_cons, ih, keyed own, and_assoc]
  | other _ _ _ ih => rw [List.forall_mem_cons, List.forall_mem_cons, ih, and_left_comm]

/-- The condition is true if all its keys are equal and everything that remains is true. -/
theorem condition_iff (judges : Judges holds) (left right : Nat) (condition : Expr) :
    holds condition ↔
      (∀ key ∈ (ofCondition left right condition).pairs, holds (equality left key)) ∧
        ∀ e ∈ (ofCondition left right condition).remaining, holds e := by
  rw [judges.conjuncts_iff]
  exact judges.splits_iff (fun own => judges.equates_iff (equates_of_pair? own))
    (splits_ofCondition left right condition)

end Judges

end JoinKeys

end Pushdown
