import Pushdown.Proofs.Relation.Conversion
import Pushdown.Proofs.Scalar.JoinKeys

/-!
# Remote plans that can be obtained

A remote node comes from a rule, over whatever the inputs were converted to, or from building a
node again over other inputs.  `Reachable` closes over both, for all conventions and in any order,
so that the inputs of a node may have been made by another rule set or taken from another plan.

* `RemotePlan.BuiltOver`: what one of these steps sees to.  It looks at the node and its direct
  inputs only.
* `Reachable.everywhere_valid`: what therefore holds at every node of a plan that can be obtained.
-/

namespace Pushdown

/-- The remote plans that rules and rebuilding give.  `answers` is what the inputs of a node were
converted to, by any means that gives plans which could be obtained before. -/
inductive Reachable : RemotePlan → Prop
  | converted {c : Convention} {plan : Plan} {answers : List Conversion} {p : RemotePlan}
      (obtained : ∀ q, .ok (some q) ∈ answers → Reachable q)
      (accepted : convertNode c plan answers = .ok (some p)) : Reachable p
  | rebuilt {p q : RemotePlan} {inputs : List RemotePlan} (old : Reachable p)
      (obtained : ∀ input ∈ inputs, Reachable input) (built : p.withInputs inputs = .ok q) :
      Reachable q

namespace RemotePlan

/-- The node fits its inputs: its references are in range, and what its fields must
be they are. -/
def Valid (p : RemotePlan) : Prop :=
  match p.op with
  | .join left right condition _ keys =>
    keys = (JoinKeys.ofCondition left.fields.length right.fields.length condition).pairs ∧
      (JoinKeys.ofCondition left.fields.length right.fields.length condition).remaining = [] ∧
      keys ≠ [] ∧ ∀ key ∈ keys, key.1 < left.fields.length ∧ key.2 < right.fields.length
  | .filter input condition =>
    p.fields = input.fields ∧ ∀ i ∈ condition.inputs, i < input.fields.length
  | .project input projects =>
    projects.length = p.fields.length ∧ ∀ e ∈ projects, ∀ i ∈ e.inputs, i < input.fields.length
  | .aggregate input groupSet groupingSets calls =>
    checkAggregate input.fields.length groupSet groupingSets calls = .ok ()
  | .sort input keys => p.fields = input.fields ∧ ∀ key ∈ keys, key.field < input.fields.length
  | .set kind inputs all => (kind = .union → inputs ≠ []) ∧ (kind ≠ .union → all = false)
  | .values tuples => ∀ tuple ∈ tuples, tuple.length = p.fields.length
  | .scan _ | .calculate .. | .modify .. => True

/-- The node is valid over the inputs, which have its convention. -/
structure BuiltOver (inputs : List RemotePlan) (p : RemotePlan) : Prop where
  inputs_eq : p.inputs = inputs
  bound : ∀ input ∈ inputs, input.convention = p.convention
  valid : p.Valid

/-! ## What the functions that build nodes give -/

section Building

variable {c : Convention} {fields : Fields} {input left right p : RemotePlan}

theorem builtOver_scan {table : Table} (built : scan c table = .ok p) : p.BuiltOver [] := by
  rw [scan_eq_ok_iff] at built
  subst built
  exact ⟨rfl, by simp, trivial⟩

/-- A join has a key if its condition has a part that is not truth itself. -/
theorem builtOver_join {condition : Expr} {kind : JoinKind}
    (built : join c fields left right condition kind = .ok p)
    (restricts : ¬ ∀ e ∈ condition.conjuncts, e.isTrue = true) : p.BuiltOver [left, right] := by
  rw [join_eq_ok_iff] at built
  rcases built with ⟨⟨leftBound, rightBound⟩, equi, rfl⟩
  refine ⟨rfl, by simp [leftBound, rightBound], rfl, equi, ?_, ?_⟩
  · exact fun none => restricts ((JoinKeys.pairs_eq_nil_iff equi).mp none)
  · exact fun key member => JoinKeys.lt_of_mem_pairs member

theorem builtOver_filter {condition : Expr} (built : filter c input condition = .ok p) :
    p.BuiltOver [input] := by
  rw [filter_eq_ok_iff] at built
  rcases built with ⟨bound, inRange, rfl⟩
  exact ⟨rfl, by simp [bound], rfl, inRange⟩

theorem builtOver_project {projects : List Expr}
    (built : project c fields input projects = .ok p) :
    p.BuiltOver [input] := by
  rw [project_eq_ok_iff] at built
  rcases built with ⟨bound, ⟨named, inRange⟩, rfl⟩
  exact ⟨rfl, by simp [bound], named, inRange⟩

theorem builtOver_calculate {program : Program} (built : calculate c input program = .ok p) :
    p.BuiltOver [input] := by
  rw [calculate_eq_ok_iff] at built
  rcases built with ⟨bound, rfl⟩
  exact ⟨rfl, by simp [bound], trivial⟩

theorem builtOver_aggregate {groupSet : List Nat} {groupingSets : List (List Nat)}
    {calls : List AggregateCall}
    (built : aggregate c fields input groupSet groupingSets calls = .ok p) :
    p.BuiltOver [input] := by
  rw [aggregate_eq_ok_iff] at built
  rcases built with ⟨bound, valid, rfl⟩
  exact ⟨rfl, by simp [bound], valid⟩

theorem builtOver_sort {keys : List SortKey} (built : sort c input keys = .ok p) :
    p.BuiltOver [input] := by
  rw [sort_eq_ok_iff] at built
  rcases built with ⟨bound, inRange, rfl⟩
  exact ⟨rfl, by simp [bound], rfl, inRange⟩

theorem builtOver_set {kind : SetKind} {inputs : List RemotePlan} {all : Bool}
    (built : set c fields kind inputs all = .ok p) : p.BuiltOver inputs := by
  rw [set_eq_ok_iff] at built
  rcases built with ⟨bound, valid, rfl⟩
  exact ⟨rfl, bound, valid⟩

theorem builtOver_values {tuples : List (List Literal)} (built : values c fields tuples = .ok p) :
    p.BuiltOver [] := by
  rw [values_eq_ok_iff] at built
  rcases built with ⟨even, rfl⟩
  exact ⟨rfl, by simp, even⟩

theorem builtOver_modify {table : Table} {operation : ModifyOperation}
    {updateColumns : Option (List String)} {flattened : Bool}
    (built : modify c table input operation updateColumns flattened = .ok p) :
    p.BuiltOver [input] := by
  rw [modify_eq_ok_iff] at built
  rcases built with ⟨bound, _, rfl⟩
  exact ⟨rfl, by simp [bound], trivial⟩

end Building

end RemotePlan

/-! ## Single steps -/

theorem restricts_of_pairs {left right : Nat} {condition : Expr}
    (equi : (JoinKeys.ofCondition left right condition).remaining = [])
    (keyed : (JoinKeys.ofCondition left right condition).pairs ≠ []) :
    ¬ ∀ e ∈ condition.conjuncts, e.isTrue = true :=
  fun vacuous => keyed ((JoinKeys.pairs_eq_nil_iff equi).mpr vacuous)

/-- What the rule for its kind makes of a node over the plans that its inputs were
converted to. -/
inductive Converts (c : Convention) : Plan → List RemotePlan → RemotePlan → Prop
  | scan {table : Table} {p : RemotePlan} (built : RemotePlan.scan c table = .ok p) :
      Converts c (.scan table) [] p
  | join {leftPlan rightPlan : Plan} {left right p : RemotePlan} {condition : Expr}
      {kind : JoinKind}
      (equi :
        (JoinKeys.ofCondition left.fields.length right.fields.length condition).remaining = [])
      (keyed : (JoinKeys.ofCondition left.fields.length right.fields.length condition).pairs ≠ [])
      (built : RemotePlan.join c (Plan.join leftPlan rightPlan condition kind).fields left right
        condition kind = .ok p) :
      Converts c (.join leftPlan rightPlan condition kind) [left, right] p
  | filter {plan : Plan} {input p : RemotePlan} {condition : Expr}
      (built : RemotePlan.filter c input condition = .ok p) :
      Converts c (.filter plan condition) [input] p
  | project {plan : Plan} {input p : RemotePlan} {projects : List Expr} {fields : Fields}
      (built : RemotePlan.project c fields input projects = .ok p) :
      Converts c (.project plan projects fields) [input] p
  | calculate {plan : Plan} {input p : RemotePlan} {program : Program}
      (built : RemotePlan.calculate c input program = .ok p) :
      Converts c (.calculate plan program) [input] p
  | aggregate {plan : Plan} {input p : RemotePlan} {groupSet : List Nat}
      {groupingSets : List (List Nat)} {calls : List AggregateCall}
      (built : RemotePlan.aggregate c (Plan.aggregate plan groupSet groupingSets calls).fields
        input groupSet groupingSets calls = .ok p) :
      Converts c (.aggregate plan groupSet groupingSets calls) [input] p
  | sort {plan : Plan} {input p : RemotePlan} {keys : List SortKey} {offset fetch : Option Expr}
      (built : RemotePlan.sort c input keys = .ok p) :
      Converts c (.sort plan keys offset fetch) [input] p
  | set {kind : SetKind} {plans : List Plan} {inputs : List RemotePlan} {all : Bool}
      {p : RemotePlan}
      (built : RemotePlan.set c (Plan.set kind plans all).fields kind inputs all = .ok p) :
      Converts c (.set kind plans all) inputs p
  | values {fields : Fields} {tuples : List (List Literal)} {p : RemotePlan}
      (built : RemotePlan.values c fields tuples = .ok p) :
      Converts c (.values fields tuples) [] p
  | modify {table : Table} {plan : Plan} {input p : RemotePlan} {operation : ModifyOperation}
      {updateColumns : Option (List String)} {flattened : Bool}
      (built : RemotePlan.modify c table input operation updateColumns flattened = .ok p) :
      Converts c (.modify table plan operation updateColumns flattened) [input] p

/-- A rule gives a node over exactly the plans that its inputs were converted to. -/
theorem converts_of_convertNode {c : Convention} {plan : Plan} {answers : List Conversion}
    {p : RemotePlan} (accepted : convertNode c plan answers = .ok (some p)) :
    ∃ inputs : List RemotePlan,
      answers = inputs.map (fun input => .ok (some input)) ∧ Converts c plan inputs p := by
  unfold convertNode at accepted
  split at accepted
  · split at accepted
    · exact ⟨[], rfl, .scan (accept_eq_some_iff.mp accepted)⟩
    · cases accepted
  · rcases withInput_eq_some_iff.mp accepted with ⟨left, rfl, rest⟩
    rcases withInput_eq_some_iff.mp rest with ⟨right, rfl, built⟩
    dsimp only at built
    split at built
    · rename_i keyed
      rw [Bool.and_eq_true, JoinKeys.isEqui, List.isEmpty_iff, Bool.not_eq_true',
        List.isEmpty_eq_false_iff] at keyed
      exact ⟨[left, right], rfl, .join keyed.1 keyed.2 (attempt_eq_some_iff.mp built)⟩
    · cases built
  · rcases withInput_eq_some_iff.mp accepted with ⟨input, rfl, built⟩
    exact ⟨[input], rfl, .filter (accept_eq_some_iff.mp built)⟩
  · rcases withInput_eq_some_iff.mp accepted with ⟨input, rfl, built⟩
    exact ⟨[input], rfl, .project (accept_eq_some_iff.mp built)⟩
  · split at accepted
    · cases accepted
    · rcases withInput_eq_some_iff.mp accepted with ⟨input, rfl, built⟩
      exact ⟨[input], rfl, .calculate (accept_eq_some_iff.mp built)⟩
  · rcases withInput_eq_some_iff.mp accepted with ⟨input, rfl, built⟩
    exact ⟨[input], rfl, .aggregate (attempt_eq_some_iff.mp built)⟩
  · split at accepted
    · cases accepted
    · rcases withInput_eq_some_iff.mp accepted with ⟨input, rfl, built⟩
      exact ⟨[input], rfl, .sort (accept_eq_some_iff.mp built)⟩
  · split at accepted
    · cases accepted
    · split at accepted
      · rename_i inputs found
        exact ⟨inputs, allInputs_eq_some_iff.mp found, .set (accept_eq_some_iff.mp accepted)⟩
      · cases accepted
      · cases accepted
  · exact ⟨[], rfl, .values (accept_eq_some_iff.mp accepted)⟩
  · split at accepted
    · rcases withInput_eq_some_iff.mp accepted with ⟨input, rfl, built⟩
      exact ⟨[input], rfl, .modify (accept_eq_some_iff.mp built)⟩
    · cases accepted
  · cases accepted

theorem Converts.builtOver {c : Convention} {plan : Plan} {inputs : List RemotePlan}
    {p : RemotePlan}
    (converts : Converts c plan inputs p) : p.BuiltOver inputs := by
  cases converts with
  | scan built => exact RemotePlan.builtOver_scan built
  | join equi keyed built => exact RemotePlan.builtOver_join built (restricts_of_pairs equi keyed)
  | filter built => exact RemotePlan.builtOver_filter built
  | project built => exact RemotePlan.builtOver_project built
  | calculate built => exact RemotePlan.builtOver_calculate built
  | aggregate built => exact RemotePlan.builtOver_aggregate built
  | sort built => exact RemotePlan.builtOver_sort built
  | set built => exact RemotePlan.builtOver_set built
  | values built => exact RemotePlan.builtOver_values built
  | modify built => exact RemotePlan.builtOver_modify built

/-- A node that is built again stands over the new inputs.  No step looks for a key of a join
here: that there is one follows from the keys of the old node. -/
theorem RemotePlan.builtOver_of_withInputs {p q : RemotePlan} {inputs : List RemotePlan}
    (old : p.Valid) (built : p.withInputs inputs = .ok q) : q.BuiltOver inputs := by
  rcases p with ⟨c, fields, op⟩
  unfold withInputs at built
  dsimp only at built
  split at built
  · exact builtOver_scan built
  · exact builtOver_values built
  · rcases old with ⟨rfl, equi, keyed, _⟩
    exact builtOver_join built (restricts_of_pairs equi keyed)
  · exact builtOver_filter built
  · exact builtOver_project built
  · exact builtOver_calculate built
  · exact builtOver_aggregate built
  · exact builtOver_sort built
  · exact builtOver_set built
  · exact builtOver_modify built
  · cases built

/-! ## All steps -/

namespace Reachable

/-- A plan that can be obtained was built over plans that can be. -/
theorem builtOver {p : RemotePlan} (reachable : Reachable p) :
    p.BuiltOver p.inputs ∧ ∀ input ∈ p.inputs, Reachable input := by
  induction reachable with
  | converted obtained accepted _ =>
    rcases converts_of_convertNode accepted with ⟨inputs, rfl, converts⟩
    have builtOver := converts.builtOver
    rw [builtOver.inputs_eq]
    exact ⟨builtOver, fun input member => obtained input (List.mem_map.mpr ⟨input, member, rfl⟩)⟩
  | rebuilt _ obtained built oldIh _ =>
    have builtOver := RemotePlan.builtOver_of_withInputs oldIh.1.valid built
    rw [builtOver.inputs_eq]
    exact ⟨builtOver, obtained⟩

/-- What a rule gives can be obtained, however it has its inputs converted. -/
theorem of_convertBy {c : Convention} (kind : RelKind) {convertInput : Plan → Conversion}
    {plan : Plan} {p : RemotePlan}
    (obtained : ∀ input ∈ plan.inputs, ∀ q, convertInput input = .ok (some q) → Reachable q)
    (accepted : convertBy c kind convertInput plan = .ok (some p)) : Reachable p := by
  unfold convertBy at accepted
  split at accepted
  · refine .converted (fun q answered => ?_) accepted
    rcases List.mem_map.mp answered with ⟨input, member, converted⟩
    exact obtained input member q converted
  · cases accepted

/-- What a rule set gives can be obtained. -/
theorem of_convert {rs : RuleSet} {plan : Plan} {p : RemotePlan}
    (converted : rs.convert plan = .ok (some p)) : Reachable p := by
  induction plan using Plan.inputs_induction generalizing p with
  | step plan ih =>
    apply of_convertBy plan.kind ih
    unfold convertBy
    rw [if_pos rfl]
    exact (RuleSet.convert_eq_some_iff_step.mp converted).2

/-- Every node of a plan that can be obtained has the plan's convention and is valid. -/
theorem everywhere_valid {p : RemotePlan} (reachable : Reachable p) :
    p.Everywhere fun part => part.convention = p.convention ∧ part.Valid := by
  induction p using RemotePlan.inputs_induction with
  | step p ih =>
    rcases reachable.builtOver with ⟨builtOver, obtained⟩
    rw [RemotePlan.everywhere_iff]
    refine ⟨⟨rfl, builtOver.valid⟩, fun input member part mem => ?_⟩
    rcases ih input member (obtained input member) part mem with ⟨same, valid⟩
    exact ⟨same.trans (builtOver.bound input member), valid⟩

end Reachable

namespace Staff

/-- Where visits are kept. -/
def archive : Convention := ⟨"archive", .ofProduct .postgres⟩

def visits : Table := { name := ["visit"], fields := ["guest", "host"], host := some "archive" }

/-- Visits next to those in which the host was the guest. -/
def returns : Plan :=
  .join (.scan visits) (.scan visits) (.scalarCall .eq [.input 2, .input 1]) .inner

/-- The guests alone. -/
def guests : Plan := .project (.scan visits) [.input 0] ["guest"]

end Staff

open Staff in
/-- A join over narrower rows than it was converted for still has its key. -/
theorem Reachable.everywhere_valid_narrowed :
    ∃ wide narrow scan rebuilt, (RuleSet.full archive).convert returns = .ok (some wide) ∧
      (RuleSet.full archive).convert guests = .ok (some narrow) ∧
      (RuleSet.full archive).convert (.scan visits) = .ok (some scan) ∧
      wide.withInputs [scan, narrow] = .ok rebuilt ∧ Reachable rebuilt ∧
      rebuilt.Everywhere fun part => part.convention = rebuilt.convention ∧ part.Valid := by
  have wide : (RuleSet.full archive).convert returns = .ok (some (returns.boundTo archive)) := rfl
  have narrow : (RuleSet.full archive).convert guests = .ok (some (guests.boundTo archive)) := rfl
  have scan : (RuleSet.full archive).convert (.scan visits) =
      .ok (some ((Plan.scan visits).boundTo archive)) := rfl
  have reachable {q : RemotePlan} (built : (returns.boundTo archive).withInputs
      [(Plan.scan visits).boundTo archive, guests.boundTo archive] = .ok q) : Reachable q := by
    apply Reachable.rebuilt (.of_convert wide) _ built
    simp only [List.forall_mem_cons]
    exact ⟨.of_convert scan, .of_convert narrow, by simp⟩
  exact ⟨_, _, _, _, wide, narrow, scan, rfl, reachable rfl,
    Reachable.everywhere_valid (reachable rfl)⟩

end Pushdown
