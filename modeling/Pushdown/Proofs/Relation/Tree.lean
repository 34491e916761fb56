import Pushdown.Relation.RemotePlan

/-!
# Plans as trees

Induction over plans and over remote plans, with one hypothesis for every input of a set
operation, and the nodes of a plan as a list.

* `Plan.parts` and `RemotePlan.parts` hold every node once, the root first; a property of all
  nodes is stated over them.
* `Plan.tables` and `RemotePlan.tables` are the tables that are scanned, in the same order.
-/

namespace Pushdown

namespace Plan

/-- Induction over a plan; a set operation has the hypothesis for each of its inputs. -/
@[induction_eliminator]
theorem tree_induction {motive : Plan → Prop}
    (scan : ∀ table, motive (.scan table))
    (join : ∀ left right condition kind, motive left → motive right →
      motive (.join left right condition kind))
    (filter : ∀ input condition, motive input → motive (.filter input condition))
    (project : ∀ input projects fields, motive input → motive (.project input projects fields))
    (calculate : ∀ input program, motive input → motive (.calculate input program))
    (aggregate : ∀ input groupSet groupingSets calls, motive input →
      motive (.aggregate input groupSet groupingSets calls))
    (sort : ∀ input keys offset fetch, motive input → motive (.sort input keys offset fetch))
    (set : ∀ kind inputs all, (∀ input ∈ inputs, motive input) → motive (.set kind inputs all))
    (values : ∀ fields tuples, motive (.values fields tuples))
    (modify : ∀ table input operation updateColumns flattened, motive input →
      motive (.modify table input operation updateColumns flattened))
    (plan : Plan) : motive plan :=
  @Plan.rec motive (fun inputs => ∀ input ∈ inputs, motive input)
    scan join filter project calculate aggregate sort set values modify
    (fun _ member => nomatch member)
    (fun _ _ head tail => List.forall_mem_cons.mpr ⟨head, tail⟩) plan

/-- Induction over a plan by its inputs, whatever its kind. -/
theorem inputs_induction {motive : Plan → Prop}
    (step : ∀ plan, (∀ input ∈ plan.inputs, motive input) → motive plan) (plan : Plan) :
    motive plan := by
  induction plan with
  | scan table => exact step _ (by simp [inputs])
  | join left right condition kind ihl ihr => exact step _ (by simp [inputs, ihl, ihr])
  | filter input condition ih => exact step _ (by simp [inputs, ih])
  | project input projects fields ih => exact step _ (by simp [inputs, ih])
  | calculate input program ih => exact step _ (by simp [inputs, ih])
  | aggregate input groupSet groupingSets calls ih => exact step _ (by simp [inputs, ih])
  | sort input keys offset fetch ih => exact step _ (by simp [inputs, ih])
  | set kind inputs all ih => exact step _ ih
  | values fields tuples => exact step _ (by simp [inputs])
  | modify table input operation updateColumns flattened ih => exact step _ (by simp [inputs, ih])

mutual

/-- The nodes of a plan, the root first. -/
def parts : Plan → List Plan
  | .scan table => [.scan table]
  | .join left right condition kind =>
    .join left right condition kind :: (left.parts ++ right.parts)
  | .filter input condition => .filter input condition :: input.parts
  | .project input projects fields => .project input projects fields :: input.parts
  | .calculate input program => .calculate input program :: input.parts
  | .aggregate input groupSet groupingSets calls =>
    .aggregate input groupSet groupingSets calls :: input.parts
  | .sort input keys offset fetch => .sort input keys offset fetch :: input.parts
  | .set kind inputs all => .set kind inputs all :: partsAll inputs
  | .values fields tuples => [.values fields tuples]
  | .modify table input operation updateColumns flattened =>
    .modify table input operation updateColumns flattened :: input.parts

def partsAll : List Plan → List Plan
  | [] => []
  | plan :: rest => plan.parts ++ partsAll rest

end

@[simp] theorem partsAll_eq_flatMap (plans : List Plan) :
    partsAll plans = plans.flatMap parts := by
  induction plans with
  | nil => simp [partsAll]
  | cons plan rest ih => simp [partsAll, ih]

/-- The nodes of a plan are its root and the nodes of its inputs. -/
theorem parts_eq_cons (plan : Plan) : plan.parts = plan :: plan.inputs.flatMap parts := by
  cases plan <;> simp [parts, inputs]

/-- A property of all nodes holds of the root and of all nodes of each input. -/
theorem forall_parts_iff {P : Plan → Prop} (plan : Plan) :
    (∀ part ∈ plan.parts, P part) ↔
      P plan ∧ ∀ input ∈ plan.inputs, ∀ part ∈ input.parts, P part := by
  rw [parts_eq_cons]
  simp only [List.forall_mem_cons, List.mem_flatMap]
  constructor
  · rintro ⟨root, below⟩
    exact ⟨root, fun input member part mem => below part ⟨input, member, mem⟩⟩
  · rintro ⟨root, below⟩
    exact ⟨root, fun part ⟨input, member, mem⟩ => below input member part mem⟩

/-- The table that a node scans, if it does. -/
def scanned? : Plan → Option Table
  | .scan table => some table
  | _ => none

/-- The tables that a plan scans. -/
def tables (plan : Plan) : List Table := plan.parts.filterMap scanned?

end Plan

namespace RemotePlan

/-- Induction over a remote plan; a set operation has the hypothesis for each of its inputs. -/
@[induction_eliminator]
theorem tree_induction {motive : RemotePlan → Prop}
    (scan : ∀ convention fields table, motive ⟨convention, fields, .scan table⟩)
    (join : ∀ convention fields left right condition kind keys, motive left → motive right →
      motive ⟨convention, fields, .join left right condition kind keys⟩)
    (filter : ∀ convention fields input condition, motive input →
      motive ⟨convention, fields, .filter input condition⟩)
    (project : ∀ convention fields input projects, motive input →
      motive ⟨convention, fields, .project input projects⟩)
    (calculate : ∀ convention fields input program, motive input →
      motive ⟨convention, fields, .calculate input program⟩)
    (aggregate : ∀ convention fields input groupSet groupingSets calls, motive input →
      motive ⟨convention, fields, .aggregate input groupSet groupingSets calls⟩)
    (sort : ∀ convention fields input keys, motive input →
      motive ⟨convention, fields, .sort input keys⟩)
    (set : ∀ convention fields kind inputs all, (∀ input ∈ inputs, motive input) →
      motive ⟨convention, fields, .set kind inputs all⟩)
    (values : ∀ convention fields tuples, motive ⟨convention, fields, .values tuples⟩)
    (modify : ∀ convention fields table input operation updateColumns flattened target query,
      motive input → motive ⟨convention, fields,
        .modify table input operation updateColumns flattened target query⟩)
    (p : RemotePlan) : motive p :=
  @RemotePlan.rec motive (fun op => ∀ convention fields, motive ⟨convention, fields, op⟩)
    (fun inputs => ∀ input ∈ inputs, motive input)
    (fun convention fields _ built => built convention fields)
    (fun table convention fields => scan convention fields table)
    (fun left right condition kind keys ihl ihr convention fields =>
      join convention fields left right condition kind keys ihl ihr)
    (fun input condition ih convention fields => filter convention fields input condition ih)
    (fun input projects ih convention fields => project convention fields input projects ih)
    (fun input program ih convention fields => calculate convention fields input program ih)
    (fun input groupSet groupingSets calls ih convention fields =>
      aggregate convention fields input groupSet groupingSets calls ih)
    (fun input keys ih convention fields => sort convention fields input keys ih)
    (fun kind inputs all ih convention fields => set convention fields kind inputs all ih)
    (fun tuples convention fields => values convention fields tuples)
    (fun table input operation updateColumns flattened target query ih convention fields =>
      modify convention fields table input operation updateColumns flattened target query ih)
    (fun _ member => nomatch member)
    (fun _ _ head tail => List.forall_mem_cons.mpr ⟨head, tail⟩) p

/-- Induction over a remote plan by its inputs, whatever its kind. -/
theorem inputs_induction {motive : RemotePlan → Prop}
    (step : ∀ p, (∀ input ∈ p.inputs, motive input) → motive p) (p : RemotePlan) : motive p := by
  induction p with
  | join convention fields left right condition kind keys ihl ihr =>
    exact step _ (by simp [inputs, RemoteOp.inputs, ihl, ihr])
  | scan | values => exact step _ (by simp [inputs, RemoteOp.inputs])
  | set convention fields kind inputs all ih => exact step _ ih
  | filter _ _ _ _ ih | project _ _ _ _ ih | calculate _ _ _ _ ih | sort _ _ _ _ ih
  | aggregate _ _ _ _ _ _ ih | modify _ _ _ _ _ _ _ _ _ ih =>
    exact step _ (by simp [inputs, RemoteOp.inputs, ih])

mutual

/-- The nodes of a remote plan, the root first. -/
def parts : RemotePlan → List RemotePlan
  | ⟨convention, fields, op⟩ => ⟨convention, fields, op⟩ ::
    match op with
    | .scan _ | .values _ => []
    | .join left right _ _ _ => left.parts ++ right.parts
    | .filter input _ | .project input _ | .calculate input _ | .sort input _ => input.parts
    | .aggregate input _ _ _ => input.parts
    | .set _ inputs _ => partsAll inputs
    | .modify _ input _ _ _ _ _ => input.parts

def partsAll : List RemotePlan → List RemotePlan
  | [] => []
  | plan :: rest => plan.parts ++ partsAll rest

end

@[simp] theorem partsAll_eq_flatMap (plans : List RemotePlan) :
    partsAll plans = plans.flatMap parts := by
  induction plans with
  | nil => simp [partsAll]
  | cons plan rest ih => simp [partsAll, ih]

/-- The nodes of a remote plan are its root and the nodes of its inputs. -/
theorem parts_eq_cons (p : RemotePlan) : p.parts = p :: p.inputs.flatMap parts := by
  rcases p with ⟨convention, fields, op⟩
  cases op <;> simp [parts, inputs, RemoteOp.inputs]

/-- The property holds at every node of the remote plan. -/
def Everywhere (P : RemotePlan → Prop) (p : RemotePlan) : Prop := ∀ part ∈ p.parts, P part

/-- A property of all nodes holds of the root and of all nodes of each input. -/
theorem everywhere_iff {P : RemotePlan → Prop} (p : RemotePlan) :
    p.Everywhere P ↔ P p ∧ ∀ input ∈ p.inputs, input.Everywhere P := by
  unfold Everywhere
  rw [parts_eq_cons]
  simp only [List.forall_mem_cons, List.mem_flatMap]
  constructor
  · rintro ⟨root, below⟩
    exact ⟨root, fun input member part mem => below part ⟨input, member, mem⟩⟩
  · rintro ⟨root, below⟩
    exact ⟨root, fun part ⟨input, member, mem⟩ => below input member part mem⟩

theorem Everywhere.root {P : RemotePlan → Prop} {p : RemotePlan} (all : p.Everywhere P) : P p :=
  ((everywhere_iff p).mp all).1

theorem Everywhere.input {P : RemotePlan → Prop} {p input : RemotePlan} (all : p.Everywhere P)
    (member : input ∈ p.inputs) : input.Everywhere P :=
  ((everywhere_iff p).mp all).2 input member

/-- The table that a node scans, if it does. -/
def scanned? (p : RemotePlan) : Option Table :=
  match p.op with
  | .scan table => some table
  | _ => none

/-- The tables that a remote plan scans. -/
def tables (p : RemotePlan) : List Table := p.parts.filterMap scanned?

end RemotePlan

end Pushdown
