import Mathlib.Algebra.GroupWithZero.Nat
import Pushdown.Proofs.Naming
import Pushdown.Proofs.Relation.Reachable

/-!
# The fields of a node that is built again

A node that is built over other inputs has its operator with all attributes.  `Rebuilds` says what
it is, kind by kind.

Whether its fields are those of its rows is another matter.  Most nodes look their fields up or
count them when they are built, but a join and a set operation are told theirs: the rule reads
them off the plan, and rebuilding hands on what the rule said.  So their fields are right exactly
if the new inputs happen to give rows of the old fields (`Reachable.rebuilt_rowFits_iff`).
-/

namespace Pushdown

namespace RemotePlan

/-- The fields of the node are those of the rows that it makes of its inputs: names where it has
them from an input or an attribute, and a number where it names the columns itself. -/
def RowFits (p : RemotePlan) : Prop :=
  match p.op with
  | .scan table => p.fields = table.fields
  | .join left right _ _ _ => p.fields.length = left.fields.length + right.fields.length
  | .filter input _ | .sort input _ => p.fields = input.fields
  | .project _ projects => p.fields.length = projects.length
  | .calculate _ program => p.fields = program.output
  | .aggregate _ groupSet _ calls => p.fields.length = groupSet.length + calls.length
  | .set _ inputs _ => ∀ first ∈ inputs.head?, p.fields = first.fields
  | .values tuples => ∀ tuple ∈ tuples, tuple.length = p.fields.length
  | .modify .. => p.fields = .rowCount

/-- The node, if it is told its fields, could have been told them over these inputs. -/
def RowSuits (p : RemotePlan) (inputs : List RemotePlan) : Prop :=
  match p.op with
  | .join .. => p.fields.length = (inputs.map fun input => input.fields.length).sum
  | .set .. => ∀ first ∈ inputs.head?, p.fields = first.fields
  | _ => True

/-- The node over other inputs: `q` has the operator of `p` with its attributes.  The keys of a
join are found again, and the fields are handed on where they do not follow. -/
inductive Rebuilds : RemotePlan → List RemotePlan → RemotePlan → Prop
  | scan {c : Convention} {fields : Fields} {table : Table} :
      Rebuilds ⟨c, fields, .scan table⟩ [] ⟨c, table.fields, .scan table⟩
  | values {c : Convention} {fields : Fields} {tuples : List (List Literal)} :
      Rebuilds ⟨c, fields, .values tuples⟩ [] ⟨c, fields, .values tuples⟩
  | join {c : Convention} {fields : Fields} {oldLeft oldRight left right : RemotePlan}
      {condition : Expr} {kind : JoinKind} {keys : List (Nat × Nat)} :
      Rebuilds ⟨c, fields, .join oldLeft oldRight condition kind keys⟩ [left, right]
        ⟨c, fields, .join left right condition kind
          (JoinKeys.ofCondition left.fields.length right.fields.length condition).pairs⟩
  | filter {c : Convention} {fields : Fields} {old input : RemotePlan} {condition : Expr} :
      Rebuilds ⟨c, fields, .filter old condition⟩ [input]
        ⟨c, input.fields, .filter input condition⟩
  | project {c : Convention} {fields : Fields} {old input : RemotePlan} {projects : List Expr} :
      Rebuilds ⟨c, fields, .project old projects⟩ [input] ⟨c, fields, .project input projects⟩
  | calculate {c : Convention} {fields : Fields} {old input : RemotePlan} {program : Program} :
      Rebuilds ⟨c, fields, .calculate old program⟩ [input]
        ⟨c, program.output, .calculate input program⟩
  | aggregate {c : Convention} {fields : Fields} {old input : RemotePlan} {groupSet : List Nat}
      {groupingSets : List (List Nat)} {calls : List AggregateCall} :
      Rebuilds ⟨c, fields, .aggregate old groupSet groupingSets calls⟩ [input]
        ⟨c, fields, .aggregate input groupSet groupingSets calls⟩
  | sort {c : Convention} {fields : Fields} {old input : RemotePlan} {keys : List SortKey} :
      Rebuilds ⟨c, fields, .sort old keys⟩ [input] ⟨c, input.fields, .sort input keys⟩
  | set {c : Convention} {fields : Fields} {kind : SetKind} {old : List RemotePlan}
      {first : RemotePlan} {rest : List RemotePlan} {all : Bool} :
      Rebuilds ⟨c, fields, .set kind old all⟩ (first :: rest)
        ⟨c, fields, .set kind (first :: rest) all⟩
  | modify {c : Convention} {fields : Fields} {old input : RemotePlan} {table : Table}
      {operation : ModifyOperation} {updateColumns : Option (List String)} {flattened : Bool}
      {target : List String} {query : String} :
      Rebuilds ⟨c, fields, .modify table old operation updateColumns flattened target query⟩
        [input]
        ⟨c, .rowCount, .modify table input operation updateColumns flattened
          (table.modifyTarget?.getD []) (table.queryText?.getD "")⟩

theorem rebuilds_of_withInputs {p q : RemotePlan} {inputs : List RemotePlan}
    (built : p.withInputs inputs = .ok q) : p.Rebuilds inputs q := by
  rcases p with ⟨c, fields, op⟩
  unfold withInputs at built
  dsimp only at built
  split at built
  · rw [scan_eq_ok_iff] at built
    exact built ▸ .scan
  · rw [values_eq_ok_iff] at built
    exact built.2 ▸ .values
  · rw [join_eq_ok_iff] at built
    exact built.2.2 ▸ .join
  · rw [filter_eq_ok_iff] at built
    exact built.2.2 ▸ .filter
  · rw [project_eq_ok_iff] at built
    exact built.2.2 ▸ .project
  · rw [calculate_eq_ok_iff] at built
    exact built.2 ▸ .calculate
  · rw [aggregate_eq_ok_iff] at built
    exact built.2.2 ▸ .aggregate
  · rw [sort_eq_ok_iff] at built
    exact built.2.2 ▸ .sort
  · rw [set_eq_ok_iff] at built
    exact built.2.2 ▸ .set
  · rw [modify_eq_ok_iff] at built
    exact built.2.2 ▸ .modify
  · cases built

/-- What a node is told of its fields goes along. -/
theorem Rebuilds.rowSuits_iff {p q : RemotePlan} {inputs : List RemotePlan}
    (rebuilds : p.Rebuilds inputs q) : q.RowSuits q.inputs ↔ p.RowSuits inputs := by
  cases rebuilds <;> exact Iff.rfl

/-! ## Fields that are told and fields that follow -/

/-- The fields are right if those that were told are.  A node that is told nothing has the right
fields. -/
def RowFollows (p : RemotePlan) : Prop := p.RowFits ↔ p.RowSuits p.inputs

theorem rowFollows_of_join {c : Convention} {fields : Fields} {left right : RemotePlan}
    {condition : Expr} {kind : JoinKind} {keys : List (Nat × Nat)} :
    RowFollows ⟨c, fields, .join left right condition kind keys⟩ := by
  simp [RowFollows, RowFits, RowSuits, inputs, RemoteOp.inputs]

theorem rowFollows_of_set {c : Convention} {fields : Fields} {kind : SetKind}
    {inputs : List RemotePlan} {all : Bool} : RowFollows ⟨c, fields, .set kind inputs all⟩ :=
  Iff.rfl

/-- Rebuilding keeps a node from having other fields than it was told.  Only an aggregate needs
the old node for that: its fields are not counted again. -/
theorem Rebuilds.rowFollows {p q : RemotePlan} {inputs : List RemotePlan}
    (rebuilds : p.Rebuilds inputs q) (old : p.RowFollows) (valid : q.Valid) : q.RowFollows := by
  cases rebuilds with
  | scan => exact iff_of_true rfl trivial
  | values => exact iff_of_true valid trivial
  | join => exact rowFollows_of_join
  | filter => exact iff_of_true rfl trivial
  | project => exact iff_of_true valid.1.symm trivial
  | calculate => exact iff_of_true rfl trivial
  | aggregate => exact old
  | sort => exact iff_of_true rfl trivial
  | set => exact rowFollows_of_set
  | modify => exact iff_of_true rfl trivial

/-- A rule gives a node that has no other fields than it was told.  Those of an aggregate are as
many as its columns, whatever the input turned out to be. -/
theorem rowFollows_of_converts {c : Convention} {plan : Plan} {inputs : List RemotePlan}
    {p : RemotePlan} (converts : Converts c plan inputs p) : p.RowFollows := by
  cases converts with
  | scan built =>
    rw [scan_eq_ok_iff] at built
    exact built ▸ iff_of_true rfl trivial
  | join _ _ built =>
    rw [join_eq_ok_iff] at built
    exact built.2.2 ▸ rowFollows_of_join
  | filter built =>
    rw [filter_eq_ok_iff] at built
    exact built.2.2 ▸ iff_of_true rfl trivial
  | project built =>
    rw [project_eq_ok_iff] at built
    rcases built with ⟨_, ⟨named, _⟩, rfl⟩
    exact iff_of_true named.symm trivial
  | calculate built =>
    rw [calculate_eq_ok_iff] at built
    exact built.2 ▸ iff_of_true rfl trivial
  | aggregate built =>
    rw [aggregate_eq_ok_iff] at built
    rcases built with ⟨_, _, rfl⟩
    refine iff_of_true ?_ trivial
    dsimp only [RowFits]
    rw [Plan.fields, aggregateFields_length]
  | sort built =>
    rw [sort_eq_ok_iff] at built
    exact built.2.2 ▸ iff_of_true rfl trivial
  | set built =>
    rw [set_eq_ok_iff] at built
    exact built.2.2 ▸ rowFollows_of_set
  | values built =>
    rw [values_eq_ok_iff] at built
    rcases built with ⟨even, rfl⟩
    exact iff_of_true even trivial
  | modify built =>
    rw [modify_eq_ok_iff] at built
    exact built.2.2 ▸ iff_of_true rfl trivial

end RemotePlan

namespace Reachable

theorem rowFollows {p : RemotePlan} (reachable : Reachable p) : p.RowFollows := by
  induction reachable with
  | converted _ accepted =>
    rcases converts_of_convertNode accepted with ⟨_, _, converts⟩
    exact RemotePlan.rowFollows_of_converts converts
  | rebuilt old obtained built oldIh _ =>
    have valid := (Reachable.rebuilt old obtained built).builtOver.1.valid
    exact (RemotePlan.rebuilds_of_withInputs built).rowFollows oldIh valid

/-- A node built again has the fields of its rows exactly if it is no join and no set operation,
or the new inputs give rows of the fields that the old node had: as many together, for a join, and
those of the first, for a set operation. -/
theorem rebuilt_rowFits_iff {p q : RemotePlan} {inputs : List RemotePlan}
    (reachable : Reachable p)
    (built : p.withInputs inputs = .ok q) : q.RowFits ↔ p.RowSuits inputs := by
  have rebuilds := RemotePlan.rebuilds_of_withInputs built
  have valid := (RemotePlan.builtOver_of_withInputs reachable.builtOver.1.valid built).valid
  calc
    q.RowFits ↔ q.RowSuits q.inputs := rebuilds.rowFollows reachable.rowFollows valid
    _ ↔ p.RowSuits inputs := rebuilds.rowSuits_iff

end Reachable

namespace Staff

/-- Visits of the year before. -/
def oldVisits : Table :=
  { name := ["visit", "old"], fields := ["visitor", "of"], host := some "archive" }

/-- All visits, and all of them once more. -/
def doubled : Plan := .set .union [.scan visits, .scan visits] true

theorem returns_converts :
    (RuleSet.full archive).convert returns = .ok (some (returns.boundTo archive)) := rfl

theorem doubled_converts :
    (RuleSet.full archive).convert doubled = .ok (some (doubled.boundTo archive)) := rfl

end Staff

open Staff in
/-- Over another table of the same width a join has the right fields still, and a union has not:
it has the names of the table before. -/
theorem Reachable.rebuilt_rowFits_iff_oldVisits :
    let scan := (Plan.scan visits).boundTo archive
    let other := (Plan.scan oldVisits).boundTo archive
    ∃ join union, (returns.boundTo archive).withInputs [scan, other] = .ok join ∧
      (doubled.boundTo archive).withInputs [other, scan] = .ok union ∧
      (join.RowFits ↔ (returns.boundTo archive).RowSuits [scan, other]) ∧ join.RowFits ∧
      (union.RowFits ↔ (doubled.boundTo archive).RowSuits [other, scan]) ∧ ¬ union.RowFits := by
  intro scan other
  have builtJoin : (returns.boundTo archive).withInputs [scan, other] = .ok _ := rfl
  have builtUnion : (doubled.boundTo archive).withInputs [other, scan] = .ok _ := rfl
  have join := Reachable.rebuilt_rowFits_iff (.of_convert returns_converts) builtJoin
  have union := Reachable.rebuilt_rowFits_iff (.of_convert doubled_converts) builtUnion
  refine ⟨_, _, builtJoin, builtUnion, join, join.mpr rfl, union, fun fits => ?_⟩
  exact absurd (union.mp fits other rfl) (by decide)

open Staff in
/-- Over narrower rows a join keeps four fields for rows of three, and a union two for rows of
one. -/
theorem Reachable.rebuilt_rowUnfit_narrowed :
    let scan := (Plan.scan visits).boundTo archive
    let narrow := guests.boundTo archive
    ∃ join union, Reachable (returns.boundTo archive) ∧ Reachable (doubled.boundTo archive) ∧
      (returns.boundTo archive).withInputs [scan, narrow] = .ok join ∧
      (doubled.boundTo archive).withInputs [narrow, narrow] = .ok union ∧
      join.fields.length = 4 ∧ scan.fields.length + narrow.fields.length = 3 ∧
      union.fields = ["guest", "host"] ∧ narrow.fields = ["guest"] ∧
      ¬ join.RowFits ∧ ¬ union.RowFits := by
  intro scan narrow
  refine ⟨_, _, .of_convert returns_converts, .of_convert doubled_converts, rfl, rfl,
    rfl, rfl, rfl, rfl, fun fits => ?_, fun fits => ?_⟩
  · exact absurd (show 4 = 3 from fits) (by decide)
  · exact absurd (fits narrow rfl) (by decide)

end Pushdown
