import Pushdown.Relation.RemotePlan

/-!
# Conversion rules

There is one rule for each kind of operator.  A rule turns a node of a plan into a remote node
over the conversions of its inputs, or declines: where an input does not convert, and where the
node cannot be written in SQL.  A `RuleSet` converts whole plans by the rules it has.

`convertNode` takes the conversions of the inputs as they came out, so a rule may be used with any
way to convert inputs.
-/

namespace Pushdown

/-- What comes of converting a plan: a remote plan, `none` when a rule declines, or an error. -/
abbrev Conversion := Except Error (Option RemotePlan)

/-- The kinds in the order of their rules. -/
def ruleOrder : List RelKind :=
  [.tableScan, .join, .calculate, .project, .filter, .aggregate, .sort, .set .union,
   .set .intersect, .set .minus, .tableModify, .values]

/-- The name of the rule for a kind. -/
def RelKind.ruleName (kind : RelKind) : String := "Pushdown" ++ kind.name ++ "Rule"

/-- Declines unless the input converted. -/
def withInput (input : Conversion) (build : RemotePlan → Conversion) : Conversion :=
  match input with
  | .ok (some plan) => build plan
  | .ok none => .ok none
  | .error e => .error e

/-- The converted inputs: the first, from the left, that fails or declines decides. -/
def allInputs : List Conversion → Except Error (Option (List RemotePlan))
  | [] => .ok (some [])
  | .ok (some plan) :: rest => (·.map (plan :: ·)) <$> allInputs rest
  | .ok none :: _ => .ok none
  | .error e :: _ => .error e

/-- A node that cannot be built is an error. -/
def accept (built : Except Error RemotePlan) : Conversion := some <$> built

/-- A node that cannot be built is declined. -/
def attempt (built : Except Error RemotePlan) : Conversion := .ok built.toOption

/-- A node of a plan as a remote node over the conversions of its inputs. -/
def convertNode (convention : Convention) (plan : Plan) (inputs : List Conversion) : Conversion :=
  match plan, inputs with
  | .scan table, [] =>
    if table.host = some convention.name then accept (RemotePlan.scan convention table)
    else .ok none
  | .join _ _ condition kind, [left, right] =>
    withInput left fun left => withInput right fun right =>
      let keys := JoinKeys.ofCondition left.fields.length right.fields.length condition
      if keys.isEqui && !keys.pairs.isEmpty then
        attempt (RemotePlan.join convention plan.fields left right condition kind)
      else .ok none
  | .filter _ condition, [input] =>
    withInput input fun input => accept (RemotePlan.filter convention input condition)
  | .project _ projects fields, [input] =>
    withInput input fun input => accept (RemotePlan.project convention fields input projects)
  | .calculate _ program, [input] =>
    if program.hasMultiset then .ok none
    else withInput input fun input => accept (RemotePlan.calculate convention input program)
  | .aggregate _ groupSet groupingSets calls, [input] =>
    withInput input fun input =>
      attempt (RemotePlan.aggregate convention plan.fields input groupSet groupingSets calls)
  | .sort _ keys offset fetch, [input] =>
    if offset.isSome || fetch.isSome then .ok none
    else withInput input fun input => accept (RemotePlan.sort convention input keys)
  | .set kind _ all, inputs =>
    if all && kind != .union then .ok none
    else
      match allInputs inputs with
      | .ok (some inputs) => accept (RemotePlan.set convention plan.fields kind inputs all)
      | .ok none => .ok none
      | .error e => .error e
  | .values fields tuples, [] => accept (RemotePlan.values convention fields tuples)
  | .modify table _ operation updateColumns flattened, [input] =>
    if table.modifiable then
      withInput input fun input =>
        accept (RemotePlan.modify convention table input operation updateColumns flattened)
    else .ok none
  | _, _ => .ok none

/-- The rule for `kind`: it declines nodes of any other kind. -/
def convertBy (convention : Convention) (kind : RelKind) (convertInput : Plan → Conversion)
    (plan : Plan) : Conversion :=
  if plan.kind = kind then convertNode convention plan (plan.inputs.map convertInput)
  else .ok none

/-- The rules in use for a convention, given by the kinds that they convert. -/
structure RuleSet where
  convention : Convention
  rules : List RelKind

namespace RuleSet

/-- All rules for a convention. -/
def full (convention : Convention) : RuleSet := ⟨convention, ruleOrder⟩

/-- A node over the conversions of its inputs, if the set has a rule for its kind. -/
def step (rs : RuleSet) (plan : Plan) (inputs : List Conversion) : Conversion :=
  if plan.kind ∈ rs.rules then convertNode rs.convention plan inputs else .ok none

mutual

/-- A whole plan as a remote plan, by the rules of the set. -/
def convert (rs : RuleSet) : Plan → Conversion
  | .scan table => rs.step (.scan table) []
  | .join left right condition kind =>
    rs.step (.join left right condition kind) [rs.convert left, rs.convert right]
  | .filter input condition => rs.step (.filter input condition) [rs.convert input]
  | .project input projects fields =>
    rs.step (.project input projects fields) [rs.convert input]
  | .calculate input program => rs.step (.calculate input program) [rs.convert input]
  | .aggregate input groupSet groupingSets calls =>
    rs.step (.aggregate input groupSet groupingSets calls) [rs.convert input]
  | .sort input keys offset fetch => rs.step (.sort input keys offset fetch) [rs.convert input]
  | .set kind inputs all => rs.step (.set kind inputs all) (rs.convertAll inputs)
  | .values fields tuples => rs.step (.values fields tuples) []
  | .modify table input operation updateColumns flattened =>
    rs.step (.modify table input operation updateColumns flattened) [rs.convert input]

def convertAll (rs : RuleSet) : List Plan → List Conversion
  | [] => []
  | plan :: rest => rs.convert plan :: rs.convertAll rest

end

@[simp] theorem convertAll_eq_map (rs : RuleSet) (plans : List Plan) :
    rs.convertAll plans = plans.map rs.convert := by
  induction plans with
  | nil => simp [convertAll]
  | cons plan rest ih => simp [convertAll, ih]

/-- A rule set converts a plan by one step over the conversions of its inputs. -/
theorem convert_eq_step (rs : RuleSet) (plan : Plan) :
    rs.convert plan = rs.step plan (plan.inputs.map rs.convert) := by
  cases plan <;> simp [convert, Plan.inputs]

end RuleSet

end Pushdown
