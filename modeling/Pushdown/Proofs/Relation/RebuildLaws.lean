import Pushdown.Proofs.Relation.Rebuilding

/-!
# The laws of rebuilding

The inputs of a node and building it over others are the two halves of a lens: what is put in is
what is read out, a second rebuilding makes the first one void, and a node over its own inputs is
itself.  The last one is a matter of how the node came about.  A rule builds it by the very call
that would rebuild it (`Converts.withInputs_eq`), and a node that was rebuilt owes itself to that.

The one node that cannot be rebuilt is a set operation on nothing: a rule may give one that
removes duplicates, but rebuilding asks for an input.
-/

namespace Pushdown

/-- What a node is told apart from its inputs, with its fields where they are told.  The keys of a
join are not: they are found in its condition. -/
inductive Attributes where
  | scan (table : Table)
  | join (fields : Fields) (condition : Expr) (kind : JoinKind)
  | filter (condition : Expr)
  | project (fields : Fields) (projects : List Expr)
  | calculate (program : Program)
  | aggregate (fields : Fields) (groupSet : List Nat) (groupingSets : List (List Nat))
      (calls : List AggregateCall)
  | sort (keys : List SortKey)
  | set (fields : Fields) (kind : SetKind) (all : Bool)
  | values (fields : Fields) (tuples : List (List Literal))
  | modify (table : Table) (operation : ModifyOperation) (updateColumns : Option (List String))
      (flattened : Bool) (target : List String) (query : String)

namespace RemotePlan

/-- What the node is apart from its inputs and what follows from them. -/
def attributes (p : RemotePlan) : Attributes :=
  match p.op with
  | .scan table => .scan table
  | .join _ _ condition kind _ => .join p.fields condition kind
  | .filter _ condition => .filter condition
  | .project _ projects => .project p.fields projects
  | .calculate _ program => .calculate program
  | .aggregate _ groupSet groupingSets calls => .aggregate p.fields groupSet groupingSets calls
  | .sort _ keys => .sort keys
  | .set kind _ all => .set p.fields kind all
  | .values tuples => .values p.fields tuples
  | .modify table _ operation updateColumns flattened target query =>
    .modify table operation updateColumns flattened target query

/-- The node is a set operation without inputs. -/
def SetOfNone (p : RemotePlan) : Prop := ∃ kind all, p.op = .set kind [] all

variable {p q : RemotePlan} {inputs : List RemotePlan}

/-! ## What a rebuilt node keeps -/

theorem Rebuilds.inputs_eq (rebuilds : p.Rebuilds inputs q) : q.inputs = inputs := by
  cases rebuilds <;> rfl

theorem Rebuilds.kind_eq (rebuilds : p.Rebuilds inputs q) : q.kind = p.kind := by
  cases rebuilds <;> rfl

theorem Rebuilds.convention_eq (rebuilds : p.Rebuilds inputs q) :
    q.convention = p.convention := by
  cases rebuilds <;> rfl

/-- A rebuilt node is rebuilt as the node before would be: with the same outcome or the same
error. -/
theorem Rebuilds.withInputs_eq (rebuilds : p.Rebuilds inputs q) (others : List RemotePlan) :
    q.withInputs others = p.withInputs others := by
  cases rebuilds <;> rcases others with _ | ⟨_, _ | ⟨_, _ | _⟩⟩ <;> rfl

/-- The capabilities of a table are asked for again, so those that a change of a table was told
have to be the table's own: that is so when the node rebuilds to itself. -/
theorem Rebuilds.attributes_eq (rebuilds : p.Rebuilds inputs q)
    (itself : ¬ p.SetOfNone → p.Rebuilds p.inputs p) : q.attributes = p.attributes := by
  cases rebuilds with
  | modify =>
    cases itself (fun empty => by obtain ⟨_, _, same⟩ := empty; cases same)
    rfl
  | _ => rfl

end RemotePlan

/-! ## Nodes over their own inputs -/

/-- A rule builds a node by the call that builds it again. -/
theorem Converts.withInputs_eq {c : Convention} {plan : Plan} {inputs : List RemotePlan}
    {p : RemotePlan} (converts : Converts c plan inputs p) (nonempty : ¬ p.SetOfNone) :
    p.withInputs inputs = .ok p := by
  cases converts with
  | scan built =>
    cases RemotePlan.scan_eq_ok_iff.mp built
    exact built
  | join _ _ built =>
    obtain ⟨_, _, rfl⟩ := RemotePlan.join_eq_ok_iff.mp built
    exact built
  | filter built =>
    obtain ⟨_, _, rfl⟩ := RemotePlan.filter_eq_ok_iff.mp built
    exact built
  | project built =>
    obtain ⟨_, _, rfl⟩ := RemotePlan.project_eq_ok_iff.mp built
    exact built
  | calculate built =>
    obtain ⟨_, rfl⟩ := RemotePlan.calculate_eq_ok_iff.mp built
    exact built
  | aggregate built =>
    obtain ⟨_, _, rfl⟩ := RemotePlan.aggregate_eq_ok_iff.mp built
    exact built
  | sort built =>
    obtain ⟨_, _, rfl⟩ := RemotePlan.sort_eq_ok_iff.mp built
    exact built
  | set built =>
    obtain ⟨_, _, rfl⟩ := RemotePlan.set_eq_ok_iff.mp built
    cases inputs with
    | nil => exact absurd ⟨_, _, rfl⟩ nonempty
    | cons first rest => exact built
  | values built =>
    obtain ⟨_, rfl⟩ := RemotePlan.values_eq_ok_iff.mp built
    exact built
  | modify built =>
    obtain ⟨_, _, rfl⟩ := RemotePlan.modify_eq_ok_iff.mp built
    exact built

namespace Reachable

variable {p : RemotePlan}

theorem withInputs_inputs (reachable : Reachable p) (nonempty : ¬ p.SetOfNone) :
    p.withInputs p.inputs = .ok p := by
  cases reachable with
  | converted _ accepted =>
    obtain ⟨inputs, _, converts⟩ := converts_of_convertNode accepted
    rw [converts.builtOver.inputs_eq]
    exact converts.withInputs_eq nonempty
  | rebuilt _ _ built =>
    have rebuilds := RemotePlan.rebuilds_of_withInputs built
    rw [rebuilds.inputs_eq, rebuilds.withInputs_eq, built]

/-- A rebuilt node has the new inputs and the kind, convention and attributes of the old one, and
is rebuilt in turn as the old one would be.  Over its own inputs a node is itself, unless it is a
set operation that has none. -/
theorem withInputs_laws (reachable : Reachable p) :
    (∀ inputs q, p.withInputs inputs = .ok q →
      q.inputs = inputs ∧ q.kind = p.kind ∧ q.convention = p.convention ∧
        q.attributes = p.attributes ∧ ∀ others, q.withInputs others = p.withInputs others) ∧
    (p.withInputs p.inputs = .ok p ↔ ¬ p.SetOfNone) := by
  refine ⟨fun inputs q built => ?_, fun same => ?_, reachable.withInputs_inputs⟩
  · have rebuilds := RemotePlan.rebuilds_of_withInputs built
    have attributes := rebuilds.attributes_eq fun nonempty =>
      RemotePlan.rebuilds_of_withInputs (reachable.withInputs_inputs nonempty)
    exact ⟨rebuilds.inputs_eq, rebuilds.kind_eq, rebuilds.convention_eq, attributes,
      rebuilds.withInputs_eq⟩
  · rintro ⟨kind, all, empty⟩
    have rebuilds := RemotePlan.rebuilds_of_withInputs same
    rcases p with ⟨c, fields, op⟩
    cases empty
    cases rebuilds

end Reachable

namespace Staff

/-- Visits as they can be changed. -/
def visitBook : Table := { visits with modifiable := true }

/-- All visits written into the book once more. -/
def copied : Plan := .modify visitBook (.scan visits) .insert none false

/-- What is in all of no tables. -/
def nowhere : Plan := .set .intersect [] false

theorem copied_converts :
    (RuleSet.full archive).convert copied = .ok (some (copied.boundTo archive)) := rfl

theorem nowhere_converts :
    (RuleSet.full archive).convert nowhere = .ok (some (nowhere.boundTo archive)) := rfl

end Staff

open Staff in
/-- A join and a change of a table over another table, and an intersection of nothing, which is
refused over its own inputs. -/
theorem Reachable.withInputs_laws_oldVisits :
    let scan := (Plan.scan visits).boundTo archive
    let other := (Plan.scan oldVisits).boundTo archive
    let join := returns.boundTo archive
    let change := copied.boundTo archive
    let empty := nowhere.boundTo archive
    (∃ q, Reachable join ∧ join.withInputs [scan, other] = .ok q ∧ q.inputs = [scan, other] ∧
      q.attributes = join.attributes ∧ (∀ others, q.withInputs others = join.withInputs others) ∧
      join.withInputs join.inputs = .ok join) ∧
    (∃ q, Reachable change ∧ change.withInputs [other] = .ok q ∧ q.kind = .tableModify ∧
      q.convention = archive ∧ q.attributes = change.attributes) ∧
    (Reachable empty ∧ empty.SetOfNone ∧ empty.withInputs empty.inputs ≠ .ok empty) := by
  intro scan other join change empty
  have joinMade : Reachable join := .of_convert returns_converts
  have changeMade : Reachable change := .of_convert copied_converts
  have emptyMade : Reachable empty := .of_convert nowhere_converts
  have joinLaws := Reachable.withInputs_laws joinMade
  have changeLaws := Reachable.withInputs_laws changeMade
  obtain ⟨q, built⟩ : ∃ q, join.withInputs [scan, other] = .ok q := ⟨_, rfl⟩
  obtain ⟨inputs, _, _, attributes, again⟩ := joinLaws.1 _ q built
  obtain ⟨r, changed⟩ : ∃ r, change.withInputs [other] = .ok r := ⟨_, rfl⟩
  obtain ⟨_, kind, convention, told, _⟩ := changeLaws.1 _ r changed
  have itself : join.withInputs join.inputs = .ok join := joinLaws.2.mpr fun set => by
    obtain ⟨_, _, same⟩ := set
    cases same
  have without : empty.SetOfNone := ⟨_, _, rfl⟩
  refine ⟨⟨q, joinMade, built, inputs, attributes, again, itself⟩,
    ⟨r, changeMade, changed, kind, convention, told⟩, emptyMade, without, fun same => ?_⟩
  exact (Reachable.withInputs_laws emptyMade).2.mp same without

end Pushdown
