import Mathlib.Data.List.Perm.Subperm
import Pushdown.Proofs.Outcome
import Pushdown.Relation.Rule

/-!
# What the checks of a remote node accept

Each check of a node holds exactly when the condition that it stands for does, and a rule gives a
node exactly when its inputs convert and the node passes the checks.
-/

namespace Pushdown

/-- References are in range when none of them reaches the width. -/
theorem checkInputs_eq_ok_iff {width : Nat} {e : Expr} :
    checkInputs width e = .ok () ↔ ∀ i ∈ e.inputs, i < width := by
  unfold checkInputs Expr.maxInput?
  cases largest : e.inputs.max? with
  | none =>
    rw [List.max?_eq_none_iff] at largest
    simp [largest]
  | some ordinal =>
    rw [List.max?_eq_some_iff] at largest
    obtain ⟨member, bound⟩ := largest
    dsimp only
    split
    · rename_i outside
      refine ⟨nofun, fun inRange => ?_⟩
      exact absurd (inRange ordinal member) (Nat.not_lt.mpr outside)
    · rename_i inside
      refine ⟨fun _ i mem => ?_, fun _ => rfl⟩
      exact Nat.lt_of_le_of_lt (bound i mem) (Nat.not_le.mp inside)

/-! ## Aggregates -/

/-- The group columns pass when they are in range, differ, and were not seen before. -/
theorem checkGroups_eq_ok_iff {width : Nat} {seen groupSet : List Nat} :
    checkGroups width seen groupSet = .ok () ↔
      (∀ column ∈ groupSet, column < width) ∧ groupSet.Nodup ∧
      ∀ column ∈ groupSet, column ∉ seen := by
  induction groupSet generalizing seen with
  | nil => simp [checkGroups]
  | cons column rest ih =>
    rw [checkGroups]
    split
    · rename_i outside
      simp [Nat.not_lt.mpr outside]
    · rename_i inside
      split
      · rename_i again
        simp [again]
      · rename_i fresh
        rw [ih, List.nodup_cons, List.forall_mem_cons, List.forall_mem_cons]
        constructor
        · intro ⟨ranges, distinct, apart⟩
          have once : column ∉ rest := fun member => apart column member List.mem_cons_self
          exact ⟨⟨Nat.not_le.mp inside, ranges⟩, ⟨once, distinct⟩, fresh,
            fun other member within => apart other member (List.mem_cons_of_mem _ within)⟩
        · intro ⟨⟨_, ranges⟩, ⟨once, distinct⟩, _, apart⟩
          refine ⟨ranges, distinct, fun other member within => ?_⟩
          rcases List.mem_cons.mp within with rfl | earlier
          · exact once member
          · exact apart other member earlier

theorem checkCalls_eq_ok_iff {width : Nat} {calls : List AggregateCall} :
    checkCalls width calls = .ok () ↔
      ∀ call ∈ calls, ∀ argument ∈ call.args, argument < width := by
  induction calls with
  | nil => simp [checkCalls]
  | cons call rest ih =>
    rw [checkCalls, List.forall_mem_cons]
    cases found : call.args.find? fun argument => width ≤ argument with
    | some argument =>
      have outside : width ≤ argument := by simpa using List.find?_some found
      have mem := List.mem_of_find?_eq_some found
      simp only [reduceCtorEq, false_iff, not_and]
      intro inside
      exact absurd (inside argument mem) (Nat.not_lt.mpr outside)
    | none =>
      have inside : ∀ argument ∈ call.args, argument < width := by
        simpa using List.find?_eq_none.mp found
      rw [ih]
      exact ⟨fun others => ⟨inside, others⟩, fun all => all.2⟩

/-- An aggregate passes when it groups by columns in range, each given once, by a single grouping
set that is the group set in some order, and its calls have arguments in range. -/
theorem checkAggregate_eq_ok_iff {width : Nat} {groupSet : List Nat}
    {groupingSets : List (List Nat)} {calls : List AggregateCall} :
    checkAggregate width groupSet groupingSets calls = .ok () ↔
      (∀ column ∈ groupSet, column < width) ∧ groupSet.Nodup ∧
      (∃ columns, groupingSets = [columns] ∧ columns.Perm groupSet) ∧
      ∀ call ∈ calls, ∀ argument ∈ call.args, argument < width := by
  have single (columns : List Nat) : checkGroupingSets groupSet [] [columns] = .ok () ↔
      columns ⊆ groupSet ∧ columns.Nodup := by
    rw [checkGroupingSets]
    split
    · rename_i stray
      simp [stray]
    · rename_i contained
      split
      · rename_i repeats
        simp [repeats]
      · rename_i distinct
        simp only [not_not] at contained distinct
        simp [checkGroupingSets, contained, distinct]
  unfold checkAggregate
  rw [Except.bind_eq_ok_iff, ← checkCalls_eq_ok_iff]
  constructor
  · intro ⟨_, groups, rest⟩
    obtain ⟨_, sets, accepted⟩ := Except.bind_eq_ok_iff.mp rest
    clear rest
    obtain ⟨ranges, distinct, _⟩ := checkGroups_eq_ok_iff.mp groups
    split at accepted
    · rename_i columns
      split at accepted
      · rename_i even
        obtain ⟨contained, once⟩ := (single columns).mp sets
        have perm := (once.subperm contained).perm_of_length_le (Nat.le_of_eq even.symm)
        exact ⟨ranges, distinct, ⟨columns, rfl, perm⟩, accepted⟩
      · cases accepted
    · cases accepted
  · intro ⟨ranges, distinct, ⟨columns, whole, perm⟩, calls⟩
    subst whole
    have groups := checkGroups_eq_ok_iff.mpr ⟨ranges, distinct, fun _ _ => List.not_mem_nil⟩
    have sets := (single columns).mpr ⟨perm.subset, perm.nodup_iff.mpr distinct⟩
    refine ⟨_, groups, Except.bind_eq_ok_iff.mpr ⟨_, sets, ?_⟩⟩
    exact (if_pos perm.length_eq).trans calls

namespace RemotePlan

theorem checkConvention_eq_ok_iff {c : Convention} {inputs : List RemotePlan} :
    checkConvention c inputs = .ok () ↔ ∀ input ∈ inputs, input.convention = c := by
  induction inputs with
  | nil => simp [checkConvention]
  | cons input rest ih =>
    rw [checkConvention, List.forall_mem_cons, ← ih]
    split
    · rename_i same
      exact ⟨fun others => ⟨same, others⟩, fun both => both.2⟩
    · rename_i other
      exact ⟨nofun, fun both => absurd both.1 other⟩

/-- A node is built when its inputs have the convention and its operator is in order. -/
theorem checked_eq_ok_iff {c : Convention} {fields : Fields} {op : RemoteOp} {p : RemotePlan} :
    checked c fields op = .ok p ↔
      (∀ input ∈ op.inputs, input.convention = c) ∧ checkOperator fields op = .ok () ∧
        p = ⟨c, fields, op⟩ := by
  rw [checked, Except.bind_eq_ok_iff, ← checkConvention_eq_ok_iff]
  constructor
  · rintro ⟨_, bound, rest⟩
    obtain ⟨_, inOrder, built⟩ := Except.bind_eq_ok_iff.mp rest
    exact ⟨bound, inOrder, (Except.pure_eq_ok_iff.mp built).symm⟩
  · rintro ⟨bound, inOrder, rfl⟩
    exact ⟨_, bound, Except.bind_eq_ok_iff.mpr ⟨_, inOrder, rfl⟩⟩

section Operators

variable {fields : Fields} {input left right : RemotePlan}

attribute [local simp] RemoteOp.inputs checkOperator

theorem checkOperator_join_iff {condition : Expr} {kind : JoinKind} {keys : List (Nat × Nat)} :
    checkOperator fields (.join left right condition kind keys) = .ok () ↔
      let found := JoinKeys.ofCondition left.fields.length right.fields.length condition
      found.remaining = [] ∧ found.pairs = keys := by
  simp only [checkOperator, JoinKeys.isEqui]
  generalize JoinKeys.ofCondition left.fields.length right.fields.length condition = found
  rcases found with ⟨pairs, _ | ⟨e, rest⟩⟩
  · by_cases same : pairs = keys <;> simp [same]
  · simp

theorem checkOperator_filter_iff {condition : Expr} :
    checkOperator fields (.filter input condition) = .ok () ↔
      ∀ i ∈ condition.inputs, i < input.fields.length :=
  checkInputs_eq_ok_iff

theorem checkOperator_project_iff {projects : List Expr} :
    checkOperator fields (.project input projects) = .ok () ↔
      projects.length = fields.length ∧
        ∀ e ∈ projects, ∀ i ∈ e.inputs, i < input.fields.length := by
  simp only [checkOperator]
  split
  · rename_i differ
    exact ⟨nofun, fun both => absurd both.1 differ⟩
  · rename_i same
    rw [Except.forM_eq_ok_iff]
    simp only [checkInputs_eq_ok_iff]
    exact ⟨fun inRange => ⟨Decidable.not_not.mp same, inRange⟩, fun both => both.2⟩

theorem checkOperator_sort_iff {keys : List SortKey} :
    checkOperator fields (.sort input keys) = .ok () ↔
      ∀ key ∈ keys, key.field < input.fields.length := by
  simp only [checkOperator]
  cases outside : keys.find? fun key => input.fields.length ≤ key.field with
  | none => simpa using outside
  | some key =>
    have reaches := List.find?_some outside
    have member := List.mem_of_find?_eq_some outside
    refine ⟨nofun, fun inRange => absurd (inRange key member) ?_⟩
    exact Nat.not_lt.mpr (of_decide_eq_true reaches)

theorem checkOperator_values_iff {tuples : List (List Literal)} :
    checkOperator fields (.values tuples) = .ok () ↔
      ∀ tuple ∈ tuples, tuple.length = fields.length := by
  simp only [checkOperator]
  cases ragged : tuples.find? fun tuple => tuple.length ≠ fields.length with
  | none => simpa using ragged
  | some tuple =>
    have differs := List.find?_some ragged
    have member := List.mem_of_find?_eq_some ragged
    exact ⟨nofun, fun even => absurd (even tuple member) (of_decide_eq_true differs)⟩

/-- A set operation is in order when a union has an input, and when any other drops duplicates. -/
theorem checkOperator_set_iff {kind : SetKind} {inputs : List RemotePlan} {all : Bool} :
    checkOperator fields (.set kind inputs all) = .ok () ↔
      (kind = .union → inputs ≠ []) ∧ (kind ≠ .union → all = false) := by
  cases kind <;> cases inputs <;> cases all <;> simp

/-! ### Building nodes -/

variable {c : Convention} {p : RemotePlan}

theorem scan_eq_ok_iff {table : Table} :
    scan c table = .ok p ↔ p = ⟨c, table.fields, .scan table⟩ := by
  rw [scan, checked_eq_ok_iff]
  exact ⟨fun built => built.2.2, fun same => ⟨by simp, rfl, same⟩⟩

theorem join_eq_ok_iff {condition : Expr} {kind : JoinKind} :
    join c fields left right condition kind = .ok p ↔
      let found := JoinKeys.ofCondition left.fields.length right.fields.length condition
      (left.convention = c ∧ right.convention = c) ∧ found.remaining = [] ∧
        p = ⟨c, fields, .join left right condition kind found.pairs⟩ := by
  simp only [join, JoinKeys.isEqui, List.isEmpty_iff]
  split
  · rename_i equi
    rw [checked_eq_ok_iff, checkOperator_join_iff]
    simp [equi]
  · rename_i residual
    exact ⟨nofun, fun built => absurd built.2.1 residual⟩

theorem filter_eq_ok_iff {condition : Expr} :
    filter c input condition = .ok p ↔
      input.convention = c ∧ (∀ i ∈ condition.inputs, i < input.fields.length) ∧
        p = ⟨c, input.fields, .filter input condition⟩ := by
  rw [filter, checked_eq_ok_iff, checkOperator_filter_iff]
  simp

theorem project_eq_ok_iff {projects : List Expr} :
    project c fields input projects = .ok p ↔
      input.convention = c ∧
        (projects.length = fields.length ∧
          ∀ e ∈ projects, ∀ i ∈ e.inputs, i < input.fields.length) ∧
        p = ⟨c, fields, .project input projects⟩ := by
  rw [project, checked_eq_ok_iff, checkOperator_project_iff]
  simp

theorem calculate_eq_ok_iff {program : Program} :
    calculate c input program = .ok p ↔
      input.convention = c ∧ p = ⟨c, program.output, .calculate input program⟩ := by
  rw [calculate, checked_eq_ok_iff]
  simp

theorem aggregate_eq_ok_iff {groupSet : List Nat} {groupingSets : List (List Nat)}
    {calls : List AggregateCall} :
    aggregate c fields input groupSet groupingSets calls = .ok p ↔
      input.convention = c ∧
        checkAggregate input.fields.length groupSet groupingSets calls = .ok () ∧
        p = ⟨c, fields, .aggregate input groupSet groupingSets calls⟩ := by
  rw [aggregate, checked_eq_ok_iff]
  simp

theorem sort_eq_ok_iff {keys : List SortKey} :
    sort c input keys = .ok p ↔
      input.convention = c ∧ (∀ key ∈ keys, key.field < input.fields.length) ∧
        p = ⟨c, input.fields, .sort input keys⟩ := by
  rw [sort, checked_eq_ok_iff, checkOperator_sort_iff]
  simp

theorem set_eq_ok_iff {kind : SetKind} {inputs : List RemotePlan} {all : Bool} :
    set c fields kind inputs all = .ok p ↔
      (∀ input ∈ inputs, input.convention = c) ∧
        ((kind = .union → inputs ≠ []) ∧ (kind ≠ .union → all = false)) ∧
        p = ⟨c, fields, .set kind inputs all⟩ := by
  rw [set, checked_eq_ok_iff, checkOperator_set_iff]
  rfl

theorem values_eq_ok_iff {tuples : List (List Literal)} :
    values c fields tuples = .ok p ↔
      (∀ tuple ∈ tuples, tuple.length = fields.length) ∧ p = ⟨c, fields, .values tuples⟩ := by
  rw [values, checked_eq_ok_iff, checkOperator_values_iff]
  simp

/-- A change of a table is built when the table takes changes and offers a query. -/
theorem modify_eq_ok_iff {table : Table} {operation : ModifyOperation}
    {updateColumns : Option (List String)} {flattened : Bool} :
    modify c table input operation updateColumns flattened = .ok p ↔
      input.convention = c ∧ (table.modifiable = true ∧ table.queryable = true) ∧
        p = ⟨c, .rowCount, .modify table input operation updateColumns flattened
          (table.modifyTarget?.getD []) (table.queryText?.getD "")⟩ := by
  unfold modify Table.modifyTarget? Table.queryText?
  cases table.modifiable <;> cases table.queryable <;>
    simp [checked_eq_ok_iff]

end Operators

end RemotePlan

/-! ## Rules -/

theorem withInput_eq_some_iff {input : Conversion} {build : RemotePlan → Conversion}
    {p : RemotePlan} :
    withInput input build = .ok (some p) ↔
      ∃ plan, input = .ok (some plan) ∧ build plan = .ok (some p) := by
  unfold withInput
  split <;> simp

theorem allInputs_eq_some_iff {inputs : List Conversion} {plans : List RemotePlan} :
    allInputs inputs = .ok (some plans) ↔ inputs = plans.map fun plan => .ok (some plan) := by
  induction inputs generalizing plans with
  | nil => cases plans <;> simp [allInputs]
  | cons input rest ih =>
    match input with
    | .error e => cases plans <;> simp [allInputs]
    | .ok none => cases plans <;> simp [allInputs]
    | .ok (some plan) =>
      rw [allInputs, Except.map_eq_ok_iff]
      constructor
      · rintro ⟨_ | others, converted, whole⟩
        · cases whole
        · cases whole
          rw [ih.mp converted]
          rfl
      · intro same
        cases plans with
        | nil => cases same
        | cons first others =>
          rw [List.map_cons, List.cons.injEq] at same
          obtain ⟨head, tail⟩ := same
          cases head
          exact ⟨some others, ih.mpr tail, rfl⟩

theorem accept_eq_some_iff {built : Except Error RemotePlan} {p : RemotePlan} :
    accept built = .ok (some p) ↔ built = .ok p := by
  cases built with
  | error e => exact ⟨nofun, nofun⟩
  | ok plan =>
    constructor
    · intro same
      cases same
      rfl
    · intro same
      cases same
      rfl

theorem attempt_eq_some_iff {built : Except Error RemotePlan} {p : RemotePlan} :
    attempt built = .ok (some p) ↔ built = .ok p := by
  cases built with
  | error e => exact ⟨nofun, nofun⟩
  | ok plan =>
    constructor
    · intro same
      cases same
      rfl
    · intro same
      cases same
      rfl

end Pushdown
