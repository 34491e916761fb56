import Pushdown.Proofs.Relation.Checks
import Pushdown.Proofs.Relation.Tree

/-!
# Which plans convert, and into what

`Pushable c` says of a plan that every node of it can be written in SQL for the convention `c`,
and `Plan.boundTo c` is the plan node for node as a remote plan.  A rule set converts the pushable
plans whose kinds it has rules for, and each of them into the plan bound to its convention.
-/

namespace Pushdown

/-- The plans that can be pushed to a convention. -/
inductive Pushable (c : Convention) : Plan → Prop
  | scan {table : Table} (hosted : table.host = some c.name) : Pushable c (.scan table)
  | join {left right : Plan} {condition : Expr} {kind : JoinKind}
      (leftInput : Pushable c left) (rightInput : Pushable c right)
      (equi :
        (JoinKeys.ofCondition left.fields.length right.fields.length condition).remaining = [])
      (keyed :
        (JoinKeys.ofCondition left.fields.length right.fields.length condition).pairs ≠ []) :
      Pushable c (.join left right condition kind)
  | filter {input : Plan} {condition : Expr} (below : Pushable c input)
      (inRange : ∀ i ∈ condition.inputs, i < input.fields.length) :
      Pushable c (.filter input condition)
  | project {input : Plan} {projects : List Expr} {fields : Fields} (below : Pushable c input)
      (named : projects.length = fields.length)
      (inRange : ∀ e ∈ projects, ∀ i ∈ e.inputs, i < input.fields.length) :
      Pushable c (.project input projects fields)
  | calculate {input : Plan} {program : Program} (below : Pushable c input)
      (scalar : ∀ e ∈ program.exprs, e.hasMultiset = false) :
      Pushable c (.calculate input program)
  | aggregate {input : Plan} {groupSet : List Nat} {groupingSets : List (List Nat)}
      {calls : List AggregateCall} (below : Pushable c input)
      (valid : checkAggregate input.fields.length groupSet groupingSets calls = .ok ()) :
      Pushable c (.aggregate input groupSet groupingSets calls)
  | sort {input : Plan} {keys : List SortKey} (below : Pushable c input)
      (inRange : ∀ key ∈ keys, key.field < input.fields.length) :
      Pushable c (.sort input keys none none)
  | union {inputs : List Plan} {all : Bool} (below : ∀ input ∈ inputs, Pushable c input)
      (nonempty : inputs ≠ []) :
      Pushable c (.set .union inputs all)
  | distinct {kind : SetKind} {inputs : List Plan} (below : ∀ input ∈ inputs, Pushable c input)
      (other : kind ≠ .union) :
      Pushable c (.set kind inputs false)
  | values {fields : Fields} {tuples : List (List Literal)}
      (even : ∀ tuple ∈ tuples, tuple.length = fields.length) :
      Pushable c (.values fields tuples)
  | modify {table : Table} {input : Plan} {operation : ModifyOperation}
      {updateColumns : Option (List String)} {flattened : Bool} (below : Pushable c input)
      (modifiable : table.modifiable = true) (queryable : table.queryable = true) :
      Pushable c (.modify table input operation updateColumns flattened)

namespace Plan

mutual

/-- The plan as a remote plan, node for node: every node has the convention, the fields of the
plan's node and its attributes; a join has the keys of its condition. -/
def boundTo (c : Convention) : Plan → RemotePlan
  | .scan table => ⟨c, (Plan.scan table).fields, .scan table⟩
  | .join left right condition kind =>
    ⟨c, (Plan.join left right condition kind).fields,
      .join (left.boundTo c) (right.boundTo c) condition kind
        (JoinKeys.ofCondition left.fields.length right.fields.length condition).pairs⟩
  | .filter input condition =>
    ⟨c, (Plan.filter input condition).fields, .filter (input.boundTo c) condition⟩
  | .project input projects fields =>
    ⟨c, (Plan.project input projects fields).fields, .project (input.boundTo c) projects⟩
  | .calculate input program =>
    ⟨c, (Plan.calculate input program).fields, .calculate (input.boundTo c) program⟩
  | .aggregate input groupSet groupingSets calls =>
    ⟨c, (Plan.aggregate input groupSet groupingSets calls).fields,
      .aggregate (input.boundTo c) groupSet groupingSets calls⟩
  | .sort input keys offset fetch =>
    ⟨c, (Plan.sort input keys offset fetch).fields, .sort (input.boundTo c) keys⟩
  | .set kind inputs all =>
    ⟨c, (Plan.set kind inputs all).fields, .set kind (boundToAll c inputs) all⟩
  | .values fields tuples => ⟨c, (Plan.values fields tuples).fields, .values tuples⟩
  | .modify table input operation updateColumns flattened =>
    ⟨c, (Plan.modify table input operation updateColumns flattened).fields,
      .modify table (input.boundTo c) operation updateColumns flattened
        (table.modifyTarget?.getD []) (table.queryText?.getD "")⟩

def boundToAll (c : Convention) : List Plan → List RemotePlan
  | [] => []
  | plan :: rest => plan.boundTo c :: boundToAll c rest

end

@[simp] theorem boundToAll_eq_map (c : Convention) (plans : List Plan) :
    boundToAll c plans = plans.map (boundTo c) := by
  induction plans with
  | nil => simp [boundToAll]
  | cons plan rest ih => simp [boundToAll, ih]

@[simp] theorem boundTo_convention (c : Convention) (plan : Plan) :
    (plan.boundTo c).convention = c := by
  cases plan <;> simp [boundTo]

@[simp] theorem boundTo_fields (c : Convention) (plan : Plan) :
    (plan.boundTo c).fields = plan.fields := by
  cases plan <;> simp [boundTo]

@[simp] theorem boundTo_kind (c : Convention) (plan : Plan) :
    (plan.boundTo c).kind = plan.kind := by
  cases plan <;> simp [boundTo, RemotePlan.kind, RemoteOp.kind, Plan.kind]

@[simp] theorem boundTo_inputs (c : Convention) (plan : Plan) :
    (plan.boundTo c).inputs = plan.inputs.map (boundTo c) := by
  cases plan <;> simp [boundTo, RemotePlan.inputs, RemoteOp.inputs, Plan.inputs]

/-- The nodes of a bound plan are the nodes of the plan, each bound. -/
theorem parts_boundTo (c : Convention) (plan : Plan) :
    (plan.boundTo c).parts = plan.parts.map (boundTo c) := by
  induction plan using inputs_induction with
  | step plan below =>
    rw [RemotePlan.parts_eq_cons, parts_eq_cons, boundTo_inputs, List.map_cons, List.flatMap_map,
      List.map_flatMap]
    exact congrArg _ (List.flatMap_congr below)

theorem tables_boundTo (c : Convention) (plan : Plan) :
    (plan.boundTo c).tables = plan.tables := by
  have scanned (part : Plan) : (part.boundTo c).scanned? = part.scanned? := by
    cases part <;> simp [boundTo, RemotePlan.scanned?, scanned?]
  rw [RemotePlan.tables, parts_boundTo, List.filterMap_map, tables]
  exact List.filterMap_congr fun part _ => scanned part

end Plan

/-! ## Conversion by a rule set -/

/-- There is a rule for every kind. -/
theorem mem_ruleOrder (kind : RelKind) : kind ∈ ruleOrder := by
  cases kind with
  | set kind => cases kind <;> decide
  | _ => decide

namespace RuleSet

variable {rs : RuleSet} {p : RemotePlan}

/-- One step of a conversion gives a node when there is a rule for its kind that gives it. -/
theorem convert_eq_some_iff_step {plan : Plan} :
    rs.convert plan = .ok (some p) ↔
      plan.kind ∈ rs.rules ∧
        convertNode rs.convention plan (plan.inputs.map rs.convert) = .ok (some p) := by
  rw [convert_eq_step, step]
  split
  · rename_i has
    exact ⟨fun converted => ⟨has, converted⟩, fun both => both.2⟩
  · rename_i lacks
    exact ⟨nofun, fun both => absurd both.1 lacks⟩

/-- The rule set converts the plan if it can, and only to the plan bound to its convention. -/
def ConvertsTo (rs : RuleSet) (plan : Plan) : Prop :=
  ∀ p, rs.convert plan = .ok (some p) ↔
    (∀ part ∈ plan.parts, part.kind ∈ rs.rules) ∧ Pushable rs.convention plan ∧
      p = plan.boundTo rs.convention

attribute [local simp] Plan.inputs Plan.fields Plan.boundTo convertNode

theorem convertsTo_scan {table : Table} : rs.ConvertsTo (.scan table) := by
  intro p
  rw [convert_eq_some_iff_step, Plan.forall_parts_iff]
  simp only [Plan.inputs, List.map_nil, convertNode]
  constructor
  · rintro ⟨has, converted⟩
    split at converted
    · rename_i hosted
      rw [accept_eq_some_iff, RemotePlan.scan_eq_ok_iff] at converted
      exact ⟨⟨has, by simp⟩, .scan hosted, by simp [converted]⟩
    · cases converted
  · rintro ⟨⟨has, _⟩, pushable, rfl⟩
    cases pushable with
    | scan hosted =>
      rw [if_pos hosted, accept_eq_some_iff, RemotePlan.scan_eq_ok_iff]
      exact ⟨has, by simp⟩

theorem convertsTo_join {left right : Plan} {condition : Expr} {kind : JoinKind}
    (ihl : rs.ConvertsTo left) (ihr : rs.ConvertsTo right) :
    rs.ConvertsTo (.join left right condition kind) := by
  intro p
  rw [convert_eq_some_iff_step, Plan.forall_parts_iff]
  simp only [Plan.inputs, List.map_cons, List.map_nil, convertNode, withInput_eq_some_iff,
    ihl _, ihr _, List.forall_mem_cons]
  constructor
  · rintro ⟨has, _, ⟨leftHas, leftOk, rfl⟩, _, ⟨rightHas, rightOk, rfl⟩, converted⟩
    simp only [Plan.boundTo_fields] at converted
    split at converted
    · rename_i keyed
      simp only [JoinKeys.isEqui, Bool.and_eq_true, List.isEmpty_iff, Bool.not_eq_true',
        List.isEmpty_eq_false_iff] at keyed
      rw [attempt_eq_some_iff, RemotePlan.join_eq_ok_iff] at converted
      refine ⟨⟨has, leftHas, rightHas, by simp⟩, .join leftOk rightOk keyed.1 keyed.2, ?_⟩
      simp [converted]
    · cases converted
  · rintro ⟨⟨has, leftHas, rightHas, _⟩, pushable, rfl⟩
    cases pushable with
    | join leftOk rightOk equi keyed =>
      refine ⟨has, _, ⟨leftHas, leftOk, rfl⟩, _, ⟨rightHas, rightOk, rfl⟩, ?_⟩
      simp only [Plan.boundTo_fields]
      rw [if_pos (by simp [JoinKeys.isEqui, equi, keyed]), attempt_eq_some_iff,
        RemotePlan.join_eq_ok_iff]
      simp [equi]

theorem convertsTo_filter {input : Plan} {condition : Expr} (ih : rs.ConvertsTo input) :
    rs.ConvertsTo (.filter input condition) := by
  intro p
  rw [convert_eq_some_iff_step, Plan.forall_parts_iff]
  simp only [Plan.inputs, List.map_cons, List.map_nil, convertNode, withInput_eq_some_iff, ih _,
    accept_eq_some_iff, RemotePlan.filter_eq_ok_iff, List.forall_mem_singleton]
  constructor
  · rintro ⟨has, _, ⟨below, inputOk, rfl⟩, _, inRange, rfl⟩
    rw [Plan.boundTo_fields] at inRange
    exact ⟨⟨has, below⟩, .filter inputOk inRange, by simp⟩
  · rintro ⟨⟨has, below⟩, pushable, rfl⟩
    cases pushable with
    | filter inputOk inRange =>
      refine ⟨has, _, ⟨below, inputOk, rfl⟩, Plan.boundTo_convention _ _, ?_, ?_⟩
      · rwa [Plan.boundTo_fields]
      · simp

theorem convertsTo_project {input : Plan} {projects : List Expr} {fields : Fields}
    (ih : rs.ConvertsTo input) : rs.ConvertsTo (.project input projects fields) := by
  intro p
  rw [convert_eq_some_iff_step, Plan.forall_parts_iff]
  simp only [Plan.inputs, List.map_cons, List.map_nil, convertNode, withInput_eq_some_iff, ih _,
    accept_eq_some_iff, RemotePlan.project_eq_ok_iff, List.forall_mem_singleton]
  constructor
  · rintro ⟨has, _, ⟨below, inputOk, rfl⟩, _, ⟨named, inRange⟩, rfl⟩
    rw [Plan.boundTo_fields] at inRange
    exact ⟨⟨has, below⟩, .project inputOk named inRange, by simp⟩
  · rintro ⟨⟨has, below⟩, pushable, rfl⟩
    cases pushable with
    | project inputOk named inRange =>
      refine ⟨has, _, ⟨below, inputOk, rfl⟩, Plan.boundTo_convention _ _, ⟨named, ?_⟩, ?_⟩
      · rwa [Plan.boundTo_fields]
      · simp

theorem convertsTo_calculate {input : Plan} {program : Program} (ih : rs.ConvertsTo input) :
    rs.ConvertsTo (.calculate input program) := by
  intro p
  rw [convert_eq_some_iff_step, Plan.forall_parts_iff]
  simp only [Plan.inputs, List.map_cons, List.map_nil, convertNode, List.forall_mem_singleton]
  constructor
  · rintro ⟨has, converted⟩
    split at converted
    · cases converted
    · rename_i free
      simp only [withInput_eq_some_iff, ih _, accept_eq_some_iff,
        RemotePlan.calculate_eq_ok_iff] at converted
      obtain ⟨_, ⟨below, inputOk, rfl⟩, _, rfl⟩ := converted
      refine ⟨⟨has, below⟩, .calculate inputOk ?_, by simp⟩
      simpa [Program.hasMultiset] using free
  · rintro ⟨⟨has, below⟩, pushable, rfl⟩
    cases pushable with
    | calculate inputOk free =>
      rw [if_neg (by simpa [Program.hasMultiset] using free)]
      simp only [withInput_eq_some_iff, ih _, accept_eq_some_iff, RemotePlan.calculate_eq_ok_iff]
      refine ⟨has, _, ⟨below, inputOk, rfl⟩, Plan.boundTo_convention _ _, ?_⟩
      simp

theorem convertsTo_aggregate {input : Plan} {groupSet : List Nat} {groupingSets : List (List Nat)}
    {calls : List AggregateCall} (ih : rs.ConvertsTo input) :
    rs.ConvertsTo (.aggregate input groupSet groupingSets calls) := by
  intro p
  rw [convert_eq_some_iff_step, Plan.forall_parts_iff]
  simp only [Plan.inputs, List.map_cons, List.map_nil, convertNode, withInput_eq_some_iff, ih _,
    attempt_eq_some_iff, RemotePlan.aggregate_eq_ok_iff, List.forall_mem_singleton]
  constructor
  · rintro ⟨has, _, ⟨below, inputOk, rfl⟩, _, valid, rfl⟩
    rw [Plan.boundTo_fields] at valid
    exact ⟨⟨has, below⟩, .aggregate inputOk valid, by simp⟩
  · rintro ⟨⟨has, below⟩, pushable, rfl⟩
    cases pushable with
    | aggregate inputOk valid =>
      refine ⟨has, _, ⟨below, inputOk, rfl⟩, Plan.boundTo_convention _ _, ?_, ?_⟩
      · rwa [Plan.boundTo_fields]
      · simp

theorem convertsTo_sort {input : Plan} {keys : List SortKey} {offset fetch : Option Expr}
    (ih : rs.ConvertsTo input) : rs.ConvertsTo (.sort input keys offset fetch) := by
  intro p
  rw [convert_eq_some_iff_step, Plan.forall_parts_iff]
  simp only [Plan.inputs, List.map_cons, List.map_nil, convertNode, List.forall_mem_singleton]
  constructor
  · rintro ⟨has, converted⟩
    split at converted
    · cases converted
    · rename_i whole
      simp only [Bool.or_eq_true, not_or, Option.not_isSome_iff_eq_none] at whole
      obtain ⟨rfl, rfl⟩ := whole
      simp only [withInput_eq_some_iff, ih _, accept_eq_some_iff,
        RemotePlan.sort_eq_ok_iff] at converted
      obtain ⟨_, ⟨below, inputOk, rfl⟩, _, inRange, rfl⟩ := converted
      rw [Plan.boundTo_fields] at inRange
      exact ⟨⟨has, below⟩, .sort inputOk inRange, by simp⟩
  · rintro ⟨⟨has, below⟩, pushable, rfl⟩
    cases pushable with
    | sort inputOk inRange =>
      rw [if_neg (by simp)]
      simp only [withInput_eq_some_iff, ih _, accept_eq_some_iff, RemotePlan.sort_eq_ok_iff]
      refine ⟨has, _, ⟨below, inputOk, rfl⟩, Plan.boundTo_convention _ _, ?_, ?_⟩
      · rwa [Plan.boundTo_fields]
      · simp

/-- The inputs of a set operation convert when each of them does. -/
theorem allInputs_convert_iff {inputs : List Plan} {plans : List RemotePlan}
    (ih : ∀ input ∈ inputs, rs.ConvertsTo input) :
    allInputs (inputs.map rs.convert) = .ok (some plans) ↔
      (∀ input ∈ inputs, ∀ part ∈ input.parts, part.kind ∈ rs.rules) ∧
        (∀ input ∈ inputs, Pushable rs.convention input) ∧
        plans = inputs.map (Plan.boundTo rs.convention) := by
  rw [allInputs_eq_some_iff]
  induction inputs generalizing plans with
  | nil => cases plans <;> simp
  | cons input rest tail =>
    obtain ⟨first, others⟩ := List.forall_mem_cons.mp ih
    cases plans with
    | nil => simp
    | cons plan plans =>
      simp only [List.map_cons, List.cons.injEq, first _, tail others, List.forall_mem_cons]
      tauto

theorem convertsTo_set {kind : SetKind} {inputs : List Plan} {all : Bool}
    (ih : ∀ input ∈ inputs, rs.ConvertsTo input) : rs.ConvertsTo (.set kind inputs all) := by
  intro p
  rw [convert_eq_some_iff_step, Plan.forall_parts_iff]
  simp only [Plan.inputs, convertNode]
  constructor
  · rintro ⟨has, converted⟩
    split at converted
    · cases converted
    · rename_i plain
      split at converted
      · rename_i plans found
        obtain ⟨below, inputsOk, rfl⟩ := (allInputs_convert_iff ih).mp found
        rw [accept_eq_some_iff, RemotePlan.set_eq_ok_iff] at converted
        obtain ⟨_, ⟨some, distinct⟩, rfl⟩ := converted
        refine ⟨⟨has, below⟩, ?_, by simp⟩
        by_cases union : kind = .union
        · subst union
          exact .union inputsOk (by simpa using some rfl)
        · rw [distinct union]
          exact .distinct inputsOk union
      · cases converted
      · cases converted
  · rintro ⟨⟨has, below⟩, pushable, rfl⟩
    cases pushable with
    | union inputsOk nonempty =>
      rw [if_neg (by simp), (allInputs_convert_iff ih).mpr ⟨below, inputsOk, rfl⟩]
      refine ⟨has, ?_⟩
      dsimp only
      rw [accept_eq_some_iff, RemotePlan.set_eq_ok_iff]
      simp [nonempty]
    | distinct inputsOk other =>
      rw [if_neg (by simp), (allInputs_convert_iff ih).mpr ⟨below, inputsOk, rfl⟩]
      refine ⟨has, ?_⟩
      dsimp only
      rw [accept_eq_some_iff, RemotePlan.set_eq_ok_iff]
      simp [other]

theorem convertsTo_values {fields : Fields} {tuples : List (List Literal)} :
    rs.ConvertsTo (.values fields tuples) := by
  intro p
  rw [convert_eq_some_iff_step, Plan.forall_parts_iff]
  simp only [Plan.inputs, List.map_nil, convertNode, accept_eq_some_iff,
    RemotePlan.values_eq_ok_iff]
  constructor
  · rintro ⟨has, even, rfl⟩
    exact ⟨⟨has, by simp⟩, .values even, by simp⟩
  · rintro ⟨⟨has, _⟩, pushable, rfl⟩
    cases pushable with
    | values even => exact ⟨has, even, by simp⟩

theorem convertsTo_modify {table : Table} {input : Plan} {operation : ModifyOperation}
    {updateColumns : Option (List String)} {flattened : Bool} (ih : rs.ConvertsTo input) :
    rs.ConvertsTo (.modify table input operation updateColumns flattened) := by
  intro p
  rw [convert_eq_some_iff_step, Plan.forall_parts_iff]
  simp only [Plan.inputs, List.map_cons, List.map_nil, convertNode, List.forall_mem_singleton]
  constructor
  · rintro ⟨has, converted⟩
    split at converted
    · simp only [withInput_eq_some_iff, ih _, accept_eq_some_iff,
        RemotePlan.modify_eq_ok_iff] at converted
      obtain ⟨_, ⟨below, inputOk, rfl⟩, _, ⟨modifiable, queryable⟩, rfl⟩ := converted
      exact ⟨⟨has, below⟩, .modify inputOk modifiable queryable, by simp⟩
    · cases converted
  · rintro ⟨⟨has, below⟩, pushable, rfl⟩
    cases pushable with
    | modify inputOk modifiable queryable =>
      rw [if_pos modifiable]
      simp only [withInput_eq_some_iff, ih _, accept_eq_some_iff, RemotePlan.modify_eq_ok_iff]
      refine ⟨has, _, ⟨below, inputOk, rfl⟩, Plan.boundTo_convention _ _,
        ⟨modifiable, queryable⟩, ?_⟩
      simp

/-- A rule set converts exactly the pushable plans that it has the rules for, and each into the
plan bound to its convention. -/
theorem convert_eq_some_iff (rs : RuleSet) (plan : Plan) : rs.ConvertsTo plan := by
  induction plan with
  | scan table => exact convertsTo_scan
  | join left right condition kind ihl ihr => exact convertsTo_join ihl ihr
  | filter input condition ih => exact convertsTo_filter ih
  | project input projects fields ih => exact convertsTo_project ih
  | calculate input program ih => exact convertsTo_calculate ih
  | aggregate input groupSet groupingSets calls ih => exact convertsTo_aggregate ih
  | sort input keys offset fetch ih => exact convertsTo_sort ih
  | set kind inputs all ih => exact convertsTo_set ih
  | values fields tuples => exact convertsTo_values
  | modify table input operation updateColumns flattened ih => exact convertsTo_modify ih

/-- With all its rules a convention accepts exactly the pushable plans.  What comes of one is the
plan node for node: in the order of the nodes, all have the convention and the kind and fields of
the plan's. -/
theorem full_convert_iff_pushable (c : Convention) (plan : Plan) :
    (∀ p, (RuleSet.full c).convert plan = .ok (some p) ↔ Pushable c plan ∧ p = plan.boundTo c) ∧
      (plan.boundTo c).parts.map (fun part => (part.convention, part.kind, part.fields)) =
        plan.parts.map (fun part => (c, part.kind, part.fields)) := by
  constructor
  · intro p
    rw [convert_eq_some_iff]
    exact ⟨fun converted => converted.2,
      fun pushable => ⟨fun part _ => mem_ruleOrder part.kind, pushable⟩⟩
  · rw [Plan.parts_boundTo, List.map_map]
    exact List.map_congr_left fun part _ => by simp

end RuleSet

/-! ## What holds at the nodes of a converted plan -/

namespace RemotePlan

/-- What the rules see to at a node: where its fields come from, and that its references are in
range. -/
def Sound (p : RemotePlan) : Prop :=
  match p.op with
  | .scan table => p.fields = table.fields
  | .join left right condition _ keys =>
    p.fields = left.fields.joined right.fields ∧
      keys = (JoinKeys.ofCondition left.fields.length right.fields.length condition).pairs ∧
      (JoinKeys.ofCondition left.fields.length right.fields.length condition).remaining = [] ∧
      keys ≠ []
  | .filter input condition =>
    p.fields = input.fields ∧ ∀ i ∈ condition.inputs, i < input.fields.length
  | .project input projects =>
    projects.length = p.fields.length ∧ ∀ e ∈ projects, ∀ i ∈ e.inputs, i < input.fields.length
  | .calculate _ program =>
    p.fields = program.output ∧ ∀ e ∈ program.exprs, e.hasMultiset = false
  | .aggregate input groupSet groupingSets calls =>
    p.fields = aggregateFields input.fields groupSet calls ∧
      checkAggregate input.fields.length groupSet groupingSets calls = .ok ()
  | .sort input keys => p.fields = input.fields ∧ ∀ key ∈ keys, key.field < input.fields.length
  | .set kind inputs all =>
    p.fields = (inputs.head?.map fields).getD [] ∧ (kind = .union → inputs ≠ []) ∧
      (kind ≠ .union → all = false)
  | .values tuples => ∀ tuple ∈ tuples, tuple.length = p.fields.length
  | .modify .. => p.fields = .rowCount

end RemotePlan

/-- The root of a bound pushable plan is as the rules see to. -/
theorem Pushable.sound {c : Convention} {plan : Plan} (pushable : Pushable c plan) :
    (plan.boundTo c).Sound := by
  have first (inputs : List Plan) : Plan.firstFields inputs =
      (((inputs.map (Plan.boundTo c)).head?).map RemotePlan.fields).getD [] := by
    cases inputs <;> simp [Plan.firstFields]
  cases pushable with
  | scan _ => simp [Plan.boundTo, RemotePlan.Sound, Plan.fields]
  | join _ _ equi keyed => simp [Plan.boundTo, RemotePlan.Sound, Plan.fields, equi, keyed]
  | filter _ inRange => simpa [Plan.boundTo, RemotePlan.Sound, Plan.fields] using inRange
  | project _ named inRange =>
    simpa [Plan.boundTo, RemotePlan.Sound, Plan.fields, named] using inRange
  | calculate _ scalar => simpa [Plan.boundTo, RemotePlan.Sound, Plan.fields] using scalar
  | aggregate _ valid => simpa [Plan.boundTo, RemotePlan.Sound, Plan.fields] using valid
  | sort _ inRange => simpa [Plan.boundTo, RemotePlan.Sound, Plan.fields] using inRange
  | union _ nonempty =>
    simp only [Plan.boundTo, RemotePlan.Sound, Plan.fields, Plan.boundToAll_eq_map]
    exact ⟨first _, by simpa using nonempty, by simp⟩
  | distinct _ other =>
    simp only [Plan.boundTo, RemotePlan.Sound, Plan.fields, Plan.boundToAll_eq_map]
    exact ⟨first _, by simp [other], by simp⟩
  | values even => simpa [Plan.boundTo, RemotePlan.Sound, Plan.fields] using even
  | modify _ _ _ => simp [Plan.boundTo, RemotePlan.Sound, Plan.fields]

theorem Pushable.inputs {c : Convention} {plan : Plan} (pushable : Pushable c plan) :
    ∀ input ∈ plan.inputs, Pushable c input := by
  cases pushable <;> simp_all [Plan.inputs]

theorem Pushable.everywhere_sound {c : Convention} {plan : Plan} (pushable : Pushable c plan) :
    (plan.boundTo c).Everywhere RemotePlan.Sound := by
  induction plan using Plan.inputs_induction with
  | step plan ih =>
    rw [RemotePlan.everywhere_iff, Plan.boundTo_inputs, List.forall_mem_map]
    exact ⟨pushable.sound, fun input member => ih input member (pushable.inputs input member)⟩

/-- Every node of a converted plan is as the rules see to. -/
theorem RuleSet.convert_sound {rs : RuleSet} {plan : Plan} {p : RemotePlan}
    (converted : rs.convert plan = .ok (some p)) : p.Everywhere RemotePlan.Sound := by
  obtain ⟨_, pushable, rfl⟩ := (rs.convert_eq_some_iff plan p).mp converted
  exact pushable.everywhere_sound

end Pushdown
