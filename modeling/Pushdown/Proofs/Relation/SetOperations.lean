import Pushdown.Proofs.Relation.Reachable

/-!
# Set operations under conversion

The rules take the set operations of a plan as they are.  They see to it that a union has an input
and that an intersection or a difference removes duplicates, and the row of the result is that of
the first input (`SetShape.Checked`).  How many inputs there are beyond that, and how wide the
later ones are, is the plan's own affair: the set operations of a remote plan are those of the
plan it comes from (`Plan.setShapes_boundTo`), well formed or not.
-/

namespace Pushdown

/-- A set operation with the rows of its inputs. -/
structure SetShape where
  kind : SetKind
  fields : Fields
  inputs : List Fields
  all : Bool
  deriving DecidableEq

namespace SetShape

/-- There is an input, and another if duplicates are removed; the operator is written between
inputs.  All inputs are as wide as the result. -/
def WellFormed (shape : SetShape) : Prop :=
  shape.inputs ≠ [] ∧ (shape.all = false → 2 ≤ shape.inputs.length) ∧
    ∀ input ∈ shape.inputs, input.length = shape.fields.length

instance (shape : SetShape) : Decidable shape.WellFormed :=
  inferInstanceAs (Decidable (_ ∧ _ ∧ _))

/-- What the rules see to. -/
def Checked (shape : SetShape) : Prop :=
  (shape.kind = .union → shape.inputs ≠ []) ∧ (shape.kind ≠ .union → shape.all = false) ∧
    ∀ first ∈ shape.inputs.head?, first = shape.fields

end SetShape

/-- The shape of a node that is a set operation. -/
def Plan.setShape? : Plan → Option SetShape
  | .set kind inputs all =>
    some ⟨kind, (Plan.set kind inputs all).fields, inputs.map Plan.fields, all⟩
  | _ => none

/-- The set operations of a plan. -/
def Plan.setShapes (plan : Plan) : List SetShape := plan.parts.filterMap Plan.setShape?

namespace RemotePlan

/-- The shape of a node that is a set operation. -/
def setShape? (p : RemotePlan) : Option SetShape :=
  match p.op with
  | .set kind inputs all => some ⟨kind, p.fields, inputs.map fields, all⟩
  | _ => none

/-- The set operations of a remote plan. -/
def setShapes (p : RemotePlan) : List SetShape := p.parts.filterMap setShape?

theorem checked_of_sound {p : RemotePlan} {shape : SetShape} (sound : p.Sound)
    (own : p.setShape? = some shape) : shape.Checked := by
  rcases p with ⟨convention, fields, op⟩
  cases op with
  | set kind inputs all =>
    cases own
    obtain ⟨row, someInput, distinct⟩ := sound
    refine ⟨fun union => ?_, distinct, fun first found => ?_⟩
    · simpa using someInput union
    · rw [List.head?_map] at found
      dsimp only at row ⊢
      rw [row, Option.mem_def.mp found, Option.getD_some]
  | _ => cases own

theorem checked_of_everywhere_sound {p : RemotePlan} (sound : p.Everywhere Sound) :
    ∀ shape ∈ p.setShapes, shape.Checked := by
  intro shape member
  obtain ⟨part, within, own⟩ := List.mem_filterMap.mp member
  exact checked_of_sound (sound part within) own

end RemotePlan

namespace Plan

theorem setShape?_boundTo (c : Convention) (plan : Plan) :
    (plan.boundTo c).setShape? = plan.setShape? := by
  cases plan with
  | set kind inputs all => simp [boundTo, RemotePlan.setShape?, setShape?, Function.comp_def]
  | _ => simp [boundTo, RemotePlan.setShape?, setShape?]

/-- A bound plan has the set operations of the plan. -/
theorem setShapes_boundTo (c : Convention) (plan : Plan) :
    (plan.boundTo c).setShapes = plan.setShapes := by
  rw [RemotePlan.setShapes, parts_boundTo, List.filterMap_map, setShapes]
  exact List.filterMap_congr fun part _ => setShape?_boundTo c part

end Plan

/-- Conversion keeps the set operations of a plan, with the rows of their inputs, and all of them
are as the rules see to.  They are well formed exactly if those of the plan are. -/
theorem RuleSet.convert_setShapes {rs : RuleSet} {plan : Plan} {p : RemotePlan}
    (converted : rs.convert plan = .ok (some p)) :
    p.setShapes = plan.setShapes ∧ (∀ shape ∈ p.setShapes, shape.Checked) ∧
      ((∀ shape ∈ p.setShapes, shape.WellFormed) ↔
        ∀ shape ∈ plan.setShapes, shape.WellFormed) := by
  have same : p.setShapes = plan.setShapes := by
    rcases (rs.convert_eq_some_iff plan p).mp converted with ⟨_, _, rfl⟩
    exact plan.setShapes_boundTo rs.convention
  refine ⟨same, RemotePlan.checked_of_everywhere_sound (convert_sound converted), ?_⟩
  rw [same]

namespace Staff

/-- The guests that were hosts, out of all guests and one more. -/
def returned : Plan :=
  .set .intersect
    [.set .union [guests, .values ["guest"] [[.integer 7]]] true,
      .project (.scan visits) [.input 1] ["guest"]] false

/-- Visits along with guests alone, and then no other visits. -/
def lopsided : Plan := .set .union [.set .union [.scan visits, guests] true] false

end Staff

open Staff in
theorem RuleSet.convert_setShapes_returned :
    ∃ p, (RuleSet.full archive).convert returned = .ok (some p) ∧ p.setShapes.length = 2 ∧
      (∀ shape ∈ p.setShapes, shape.WellFormed) ∧ ∀ shape ∈ p.setShapes, shape.Checked := by
  have converted :
      (RuleSet.full archive).convert returned = .ok (some (returned.boundTo archive)) := rfl
  have wellFormed : ∀ shape ∈ returned.setShapes, shape.WellFormed := by decide
  obtain ⟨same, checked, iff⟩ := RuleSet.convert_setShapes converted
  exact ⟨_, converted, by rw [same]; rfl, iff.mpr wellFormed, checked⟩

open Staff in
/-- Inputs of two widths convert, and so does a union of a single input. -/
theorem RuleSet.convert_setShapes_lopsided :
    ∃ p, (RuleSet.full archive).convert lopsided = .ok (some p) ∧
      p.setShapes = [⟨.union, ["guest", "host"], [["guest", "host"]], false⟩,
        ⟨.union, ["guest", "host"], [["guest", "host"], ["guest"]], true⟩] ∧
      ∀ shape ∈ p.setShapes, ¬ shape.WellFormed := by
  have converted :
      (RuleSet.full archive).convert lopsided = .ok (some (lopsided.boundTo archive)) := rfl
  exact ⟨_, converted, rfl, by decide⟩

end Pushdown
