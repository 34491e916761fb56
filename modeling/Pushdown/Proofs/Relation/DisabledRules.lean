import Pushdown.Proofs.Relation.Conversion
import Pushdown.Settings

/-!
# Rules that are switched off

A rule set with fewer rules declines more plans, and that is all: what it answers otherwise, a
plan or an error, the larger set answers too.

* `Conversion.Curbs`: an answer is the other one, or declines.  A rule over curbed inputs gives a
  curbed answer, since whatever an input declines its node declines (`convertNode_curbs`).
* `RuleSet.convert_congr`: the rules for kinds that are not in the plan make no difference.
-/

namespace Pushdown

/-- The answer is the other one, or declines. -/
def Conversion.Curbs (less more : Conversion) : Prop := less = more ∨ less = .ok none

theorem Conversion.Curbs.refl (answer : Conversion) : answer.Curbs answer := .inl rfl

theorem Conversion.Curbs.declined (more : Conversion) : Conversion.Curbs (.ok none) more :=
  .inr rfl

theorem withInput_curbs {less more : Conversion} (input : less.Curbs more)
    {build rebuild : RemotePlan → Conversion} (each : ∀ p, (build p).Curbs (rebuild p)) :
    (withInput less build).Curbs (withInput more rebuild) := by
  rcases input with rfl | declined
  · unfold withInput
    split
    · exact each _
    · exact .refl _
    · exact .refl _
  · rw [declined]
    exact .declined _

/-- The first input that does not convert decides, and a curbed input does not convert. -/
theorem allInputs_curbs {less more : Plan → Conversion} {inputs : List Plan}
    (each : ∀ input ∈ inputs, (less input).Curbs (more input)) :
    allInputs (inputs.map less) = allInputs (inputs.map more) ∨
      allInputs (inputs.map less) = .ok none := by
  induction inputs with
  | nil => exact .inl rfl
  | cons input inputs ih =>
    rcases List.forall_mem_cons.mp each with ⟨same | declined, others⟩
    · rw [List.map_cons, List.map_cons, same]
      cases more input with
      | error e => exact .inl rfl
      | ok answer =>
        cases answer with
        | none => exact .inl rfl
        | some p =>
          rcases ih others with same | declined
          · exact .inl (by rw [allInputs, allInputs, same])
          · refine .inr ?_
            rw [allInputs, declined]
            rfl
    · rw [List.map_cons, declined]
      exact .inr rfl

/-- A rule over curbed inputs gives a curbed answer. -/
theorem convertNode_curbs (c : Convention) (plan : Plan) {less more : Plan → Conversion}
    (each : ∀ input ∈ plan.inputs, (less input).Curbs (more input)) :
    (convertNode c plan (plan.inputs.map less)).Curbs
      (convertNode c plan (plan.inputs.map more)) := by
  cases plan with
  | scan table => exact .refl _
  | join left right condition kind =>
    simp only [Plan.inputs, List.forall_mem_cons] at each
    exact withInput_curbs each.1 fun _ => withInput_curbs each.2.1 fun _ => .refl _
  | filter input condition =>
    exact withInput_curbs (each input (.head _)) fun _ => .refl _
  | project input projects fields =>
    exact withInput_curbs (each input (.head _)) fun _ => .refl _
  | calculate input program =>
    simp only [Plan.inputs, List.map_cons, List.map_nil, convertNode]
    split
    · exact .refl _
    · exact withInput_curbs (each input (.head _)) fun _ => .refl _
  | aggregate input groupSet groupingSets calls =>
    exact withInput_curbs (each input (.head _)) fun _ => .refl _
  | sort input keys offset fetch =>
    simp only [Plan.inputs, List.map_cons, List.map_nil, convertNode]
    split
    · exact .refl _
    · exact withInput_curbs (each input (.head _)) fun _ => .refl _
  | set kind inputs all =>
    simp only [Plan.inputs, convertNode] at each ⊢
    split
    · exact .refl _
    · rcases allInputs_curbs each with same | declined
      · rw [same]
        exact .refl _
      · rw [declined]
        exact .declined _
  | values fields tuples => exact .refl _
  | modify table input operation updateColumns flattened =>
    simp only [Plan.inputs, List.map_cons, List.map_nil, convertNode]
    split
    · exact withInput_curbs (each input (.head _)) fun _ => .refl _
    · exact .refl _

namespace RuleSet

/-- Fewer rules make a rule set decline more, and nothing else. -/
theorem convert_curbs {few many : RuleSet} (bound : few.convention = many.convention)
    (fewer : few.rules ⊆ many.rules) (plan : Plan) :
    (few.convert plan).Curbs (many.convert plan) := by
  induction plan using Plan.inputs_induction with
  | step plan ih =>
    rw [convert_eq_step, convert_eq_step, step, step]
    split
    · rename_i has
      rw [if_pos (fewer has), bound]
      exact convertNode_curbs many.convention plan ih
    · exact .declined _

/-- Rules for kinds that are not in the plan make no difference. -/
theorem convert_congr {few many : RuleSet} (bound : few.convention = many.convention)
    {plan : Plan} (same : ∀ part ∈ plan.parts, part.kind ∈ few.rules ↔ part.kind ∈ many.rules) :
    few.convert plan = many.convert plan := by
  induction plan using Plan.inputs_induction with
  | step plan ih =>
    obtain ⟨root, below⟩ := plan.forall_parts_iff.mp same
    have inputs : plan.inputs.map few.convert = plan.inputs.map many.convert :=
      List.map_congr_left fun input member => ih input member (below input member)
    rw [convert_eq_step, convert_eq_step, step, step, inputs, bound]
    exact if_congr root rfl rfl

/-- A rule set has the rules for all nodes of what it converts. -/
theorem mem_rules_of_convert {rs : RuleSet} {plan : Plan} {p : RemotePlan}
    (converted : rs.convert plan = .ok (some p)) : ∀ part ∈ plan.parts, part.kind ∈ rs.rules :=
  ((rs.convert_eq_some_iff plan p).mp converted).1

end RuleSet

namespace Settings

/-- The same settings with no rule disabled. -/
def unrestricted (s : Settings) : Settings := { s with disabledRules := [] }

/-- The rule set has the rules that are not disabled by name. -/
theorem mem_rules_iff {s : Settings} {kind : RelKind} :
    kind ∈ s.ruleSet.rules ↔ kind.ruleName ∉ s.disabledRules := by
  simp [ruleSet, mem_ruleOrder]

theorem mem_unrestricted_rules (s : Settings) (kind : RelKind) :
    kind ∈ s.unrestricted.ruleSet.rules :=
  mem_rules_iff.mpr List.not_mem_nil

theorem unrestricted_convention (s : Settings) :
    s.ruleSet.convention = s.unrestricted.ruleSet.convention := rfl

/-- Disabling rules only removes conversions.  A plan converts exactly if it does with all rules
and no node of it has a kind whose rule is disabled, and then to the same remote plan.  Where the
answers differ, errors included, the one with the rules disabled declines. -/
theorem disabling_removes (s : Settings) (plan : Plan) :
    (∀ p, s.ruleSet.convert plan = .ok (some p) ↔
      s.unrestricted.ruleSet.convert plan = .ok (some p) ∧
        ∀ part ∈ plan.parts, part.kind.ruleName ∉ s.disabledRules) ∧
    (s.ruleSet.convert plan = s.unrestricted.ruleSet.convert plan ∨
      s.ruleSet.convert plan = .ok none) := by
  have fewer : s.ruleSet.rules ⊆ s.unrestricted.ruleSet.rules := fun kind _ =>
    s.mem_unrestricted_rules kind
  refine ⟨fun p => ?_, RuleSet.convert_curbs s.unrestricted_convention fewer plan⟩
  have agrees (enabled : ∀ part ∈ plan.parts, part.kind.ruleName ∉ s.disabledRules) :
      s.ruleSet.convert plan = s.unrestricted.ruleSet.convert plan := by
    refine RuleSet.convert_congr s.unrestricted_convention fun part member => ?_
    exact iff_of_true (mem_rules_iff.mpr (enabled part member))
      (s.mem_unrestricted_rules part.kind)
  constructor
  · intro converted
    have enabled : ∀ part ∈ plan.parts, part.kind.ruleName ∉ s.disabledRules := fun part member =>
      mem_rules_iff.mp (RuleSet.mem_rules_of_convert converted part member)
    exact ⟨(agrees enabled).symm.trans converted, enabled⟩
  · rintro ⟨converted, enabled⟩
    exact (agrees enabled).trans converted

end Settings

end Pushdown
