import Pushdown.Proofs.Compile.Elision
import Pushdown.Proofs.Compile.Requirement

/-!
# Orders inside set operations

The inputs of a set operation are written one after the other with the operator between them, and
a `SELECT` among them has no brackets.  An `ORDER BY` of such an input is out of place: it ends
the whole set operation or is no SQL at all.

All other operators wrap an ordered input.  A set operation takes it as it is, so that the inputs
in the statement are free of orders exactly if no input in the plan is a sort, with or without
operators above it that leave no trace (`RemotePlan.compile_isOrdered`).
-/

namespace Pushdown

open Sql (Node Select Requirement)

namespace Sql

/-- Whether the node is a `SELECT` that ends with an `ORDER BY`. -/
def Node.isOrdered : Node → Bool
  | .select query => query.orderBy.isSome
  | _ => false

/-- No input of a set operation ends with an `ORDER BY` that has no brackets around it. -/
def Node.InputsUnordered : Node → Prop
  | .setOp _ inputs => ∀ input ∈ inputs, input.isOrdered = false
  | _ => True

/-- The inputs of set operations are not ordered. -/
def Requirement.unorderedInputs : Requirement where
  inputs nodes := ∀ node ∈ nodes, node.isOrdered = false

theorem Requirement.onNode_unorderedInputs (node : Node) :
    unorderedInputs.OnNode node ↔ node.InputsUnordered := by
  cases node with
  | select query => exact iff_of_true ⟨fun _ _ => trivial, fun _ _ => trivial⟩ trivial
  | _ => exact Iff.rfl

theorem Requirement.met_unorderedInputs (root : Node) :
    unorderedInputs.Met root ↔ ∀ node ∈ root.parts, node.InputsUnordered :=
  forall₂_congr fun node _ => onNode_unorderedInputs node

end Sql

/-! ## Ordered fragments -/

theorem orderBy_expandStar (query : Select) (sources : List Source) (fields : Fields) :
    (expandStar query sources fields).orderBy = query.orderBy := by
  rcases expandStar_cases query sources fields with ⟨same, _⟩ | ⟨same, _⟩ <;> rw [same]

/-- A complete query is ordered as the fragment is. -/
theorem Fragment.isOrdered_toQuery {f : Fragment} {names after : Aliases} {query : Node}
    (run : f.toQuery.run names = (query, after)) : query.isOrdered = f.node.isOrdered := by
  rcases toQuery_cases run with ⟨own, isQuery, rfl, _⟩ | ⟨source, sources, bare, _, rfl⟩
  · rw [isQuery, Node.isOrdered, Node.isOrdered, orderBy_expandStar]
  · have unordered : f.node.isOrdered = false := by
      generalize f.node = node at bare
      cases node with
      | select query => exact absurd rfl (bare query)
      | _ => rfl
    rw [unordered, Node.isOrdered, orderBy_expandStar]
    rfl

namespace RemotePlan

variable {dialect : Sql.Dialect} {p : RemotePlan} {names after : Aliases} {f : Fragment}

/-- Whether the plan is a sort, below nodes that leave no trace. -/
def isOrdered : RemotePlan → Bool
  | ⟨convention, fields, op⟩ =>
    match op with
    | .sort _ _ => true
    | .project input projects =>
      isTraceless ⟨convention, fields, .project input projects⟩ && input.isOrdered
    | .calculate input program =>
      isTraceless ⟨convention, fields, .calculate input program⟩ && input.isOrdered
    | _ => false

theorem isOrdered_of_traceless {input : RemotePlan} (traceless : p.isTraceless = true)
    (only : p.inputs = [input]) : p.isOrdered = input.isOrdered := by
  rcases p with ⟨convention, fields, op⟩
  cases op with
  | project child projects =>
    cases only
    rw [isOrdered, traceless, Bool.true_and]
  | calculate child program =>
    cases only
    rw [isOrdered, traceless, Bool.true_and]
  | _ => cases traceless

theorem isOrdered_of_traced (traced : p.isTraceless = false) :
    p.isOrdered = decide (p.kind = .sort) := by
  rcases p with ⟨convention, fields, op⟩
  cases op with
  | project child projects =>
    rw [isOrdered, traced]
    rfl
  | calculate child program =>
    rw [isOrdered, traced]
    rfl
  | _ => rfl

/-- A draft has no order yet, as an ordered query is wrapped, and a clause other than `ORDER BY`
adds none. -/
theorem isOrdered_of_drafted {middle : Aliases} {requested : List Clause} {keys : List Nat}
    {d : Draft} {asked : Clause} (run : Gives (p.compile dialect) names f middle)
    (drafted : Drafted f requested keys middle d after) (member : asked ∈ requested)
    (order : asked.rank ≤ Clause.orderBy.rank) {query : Select}
    (same : query.orderBy = d.query.orderBy) : (Node.select query).isOrdered = false := by
  rw [Node.isOrdered, same]
  exact (compile_counts run).absent drafted (c := .orderBy) rfl member order

/-- Of the operators that leave a trace, only a sort makes an ordered query. -/
theorem compile_isOrdered_of_traced (run : Gives (p.compile dialect) names f after) :
    p.isTraceless = false → f.node.isOrdered = decide (p.kind = .sort) := by
  refine compile_induction (motive := fun p _ f _ => p.isTraceless = false →
      f.node.isOrdered = decide (p.kind = .sort))
    ?scan ?join ?filter ?projectSame ?project ?calculateSame ?calculateWhere ?calculateItems
    ?calculateBoth ?aggregate ?sort ?set ?row ?rows run
  case filter =>
    intro convention fields input condition names middle after child draft node childRun _ drafted
      _ _
    exact isOrdered_of_drafted childRun drafted (.head _) (by decide) rfl
  case projectSame =>
    intro convention fields input projects names after child _ _ same traced
    cases same.symm.trans traced
  case project =>
    intro convention fields input projects names middle after child draft items childRun _ _
      drafted _ _
    exact isOrdered_of_drafted childRun drafted (.head _) (by decide) rfl
  case calculateSame =>
    intro convention fields input program names after child _ _ same traced
    cases same.symm.trans traced
  case calculateWhere =>
    intro convention fields input program names middle after child draft condition node childRun _
      _ drafted _ _ _
    exact isOrdered_of_drafted childRun drafted (.head _) (by decide) rfl
  case calculateItems =>
    intro convention fields input program names middle after child draft projects items childRun _
      _ _ drafted _ _ _
    exact isOrdered_of_drafted childRun drafted (.head _) (by decide) rfl
  case calculateBoth =>
    intro convention fields input program names middle after child draft projects items condition
      node childRun _ _ drafted _ _ _ _ _
    exact isOrdered_of_drafted childRun drafted (.head _) (by decide) rfl
  case aggregate =>
    intro convention fields input groupSet groupingSets calls names middle after child draft
      groups aggregates childRun _ drafted _ _ _
    split
    · exact isOrdered_of_drafted childRun drafted (.head _) (by decide) rfl
    · exact isOrdered_of_drafted childRun drafted (.head _) (by decide) rfl
  all_goals
    intros
    rfl

/-- The fragment is an ordered query exactly if the plan is a sort below nodes that leave no
trace. -/
theorem compile_isOrdered (run : Gives (p.compile dialect) names f after) :
    f.node.isOrdered = p.isOrdered := by
  -- A node that is left out stands for its input, whatever that is.
  induction p using inputs_induction generalizing names f after with
  | step p ih =>
    rcases traceless_or_fields run with ⟨traceless, input, only, inputRun⟩ | ⟨traced, _⟩
    · rw [isOrdered_of_traceless traceless only]
      exact ih input (only ▸ List.mem_singleton_self input) inputRun
    · rw [isOrdered_of_traced traced]
      exact compile_isOrdered_of_traced run traced

/-! ## Statements -/

/-- No input of the set operation is ordered. -/
def UnorderedInputs (p : RemotePlan) : Prop :=
  match p.op with
  | .set _ inputs _ => ∀ input ∈ inputs, input.isOrdered = false
  | _ => True

theorem unorderedInputs_readOff (dialect : Sql.Dialect) :
    Requirement.unorderedInputs.ReadOff dialect UnorderedInputs where
  aggregate _ _ _ _ := Iff.rfl
  sort _ _ _ := Iff.rfl
  set made := by
    refine (made.forall_iff fun first complete => ?_).symm
    rw [Fragment.isOrdered_toQuery complete, compile_isOrdered first]
  rows := by
    refine iff_of_true trivial (List.forall_mem_map.mpr ?_)
    exact fun _ _ => rfl
  silent {p} _ _ noSet := by
    rcases p with ⟨convention, fields, op⟩
    cases op with
    | set => cases noSet
    | _ => trivial

end RemotePlan

/-- In a statement, no set operation has an input that ends with an `ORDER BY` without brackets,
exactly if in the plan no set operation has an ordered input. -/
theorem RemotePlan.setInputs_unordered_iff {p : RemotePlan} {s : Sql.Statement}
    (compiled : p.toSql = .ok s) :
    (∀ node ∈ s.root.parts, node.InputsUnordered) ↔ p.Everywhere UnorderedInputs := by
  have run : Gives (p.compileWith p.convention.dialect) {} s
      ((p.compileWith p.convention.dialect).run.run {}).2 := Prod.ext compiled rfl
  rw [← Requirement.met_unorderedInputs]
  exact statement_meets (unorderedInputs_readOff _) run

namespace Staff

/-- Employees that are not their own boss, in order, and then all. -/
def rolls : Plan :=
  .set .union
    [.filter (.sort (.scan employees) [⟨0, .ascending, .unspecified⟩] none none)
      (.scalarCall .notEq [.input 0, .input 1]), .scan employees] true

/-- Employees in order, and then all. -/
def rollsInOrder : Plan :=
  .set .union
    [.sort (.scan employees) [⟨0, .ascending, .unspecified⟩] none none, .scan employees] true

end Staff

open Staff in
theorem RemotePlan.setInputs_unordered_iff_rolls :
    ∃ p s, (RuleSet.full database).convert rolls = .ok (some p) ∧ p.toSql = .ok s ∧
      s.root.tally .orderBy = 1 ∧ p.Everywhere UnorderedInputs ∧
      ∀ node ∈ s.root.parts, node.InputsUnordered := by
  have converted :
      (RuleSet.full database).convert rolls = .ok (some (rolls.boundTo database)) := rfl
  have unordered : (rolls.boundTo database).Everywhere UnorderedInputs := by
    simp [Everywhere, rolls, Plan.boundTo, parts, UnorderedInputs, isOrdered]
  obtain ⟨s, compiled, once⟩ : ∃ s, (rolls.boundTo database).toSql = .ok s ∧
      s.root.tally .orderBy = 1 := ⟨_, rfl, rfl⟩
  exact ⟨_, s, converted, compiled, once, unordered,
    (setInputs_unordered_iff compiled).mpr unordered⟩

open Staff in
/-- A sort right below a set operation leaves its `ORDER BY` in front of the operator. -/
theorem RemotePlan.setInputs_ordered_rollsInOrder :
    ∃ p s, (RuleSet.full database).convert rollsInOrder = .ok (some p) ∧ p.toSql = .ok s ∧
      s.plainText =
        "SELECT * FROM hr.emp ORDER BY id UNION ALL SELECT * FROM hr.emp AS emp0" ∧
      ¬ ∀ node ∈ s.root.parts, node.InputsUnordered := by
  have converted :
      (RuleSet.full database).convert rollsInOrder = .ok (some (rollsInOrder.boundTo database)) :=
    rfl
  refine ⟨_, _, converted, rfl, ?_, ?_⟩
  · decide +kernel
  · intro unordered
    have first := unordered _ (.head _) _ (.head _)
    cases first

end Pushdown
