import Pushdown.Proofs.Compile.Scoping

/-!
# Operators that leave no trace

A projection that gives the row of its input, and a program that gives the row it declares as its
input, are left out of the statement (`RemotePlan.isTraceless`): the fragment is the input's.  All
other fragments carry the fields of their node (`RemotePlan.traceless_or_fields`).

So the fragments of a plan describe the rows of its nodes exactly if each program that is left out
declares the row of its actual input (`RemotePlan.described_everywhere_iff`).  Nothing sees to
that: a program over other names, or over fewer fields, is left out as well.
-/

namespace Pushdown

namespace RemotePlan

variable {dialect : Sql.Dialect} {p : RemotePlan} {names after : Aliases} {f : Fragment}

/-- Whether the compiler leaves out the node. -/
def isTraceless (p : RemotePlan) : Bool :=
  match p.op with
  | .project input projects =>
    Expr.isIdentity projects input.fields.length && p.fields == input.fields
  | .calculate _ program => program.isStar && program.condition.isNone
  | _ => false

/-- The fragment is that of the input of a node that is left out, or has the fields
of its node. -/
theorem traceless_or_fields (run : Gives (p.compile dialect) names f after) :
    (p.isTraceless = true ∧
      ∃ input, p.inputs = [input] ∧ Gives (input.compile dialect) names f after) ∨
    (p.isTraceless = false ∧ f.fields = p.fields) := by
  refine compile_induction (motive := fun p names f after => (p.isTraceless = true ∧
      ∃ input, p.inputs = [input] ∧ Gives (input.compile dialect) names f after) ∨
      (p.isTraceless = false ∧ f.fields = p.fields))
    ?scan ?join ?filter ?projectSame ?project ?calculateSame ?calculateWhere ?calculateItems
    ?calculateBoth ?aggregate ?sort ?set ?row ?rows run
  case projectSame =>
    intro convention fields input projects names after child childRun _ same
    exact .inl ⟨same, input, rfl, childRun⟩
  case calculateSame =>
    intro convention fields input program names after child childRun _ same
    exact .inl ⟨same, input, rfl, childRun⟩
  case project =>
    intro convention fields input projects names middle after child draft items _ _ other _ _
    exact .inr ⟨other, rfl⟩
  case calculateWhere =>
    intro convention fields input program names middle after child draft condition node _ _ _ _
      found _
    have present := conditionExpr_isSome found
    refine .inr ⟨?_, rfl⟩
    simp [isTraceless, Option.isNone_eq_false_iff.mpr present]
  case calculateItems =>
    intro convention fields input program names middle after child draft projects items _ _ other
      _ _ _ _
    exact .inr ⟨by simp [isTraceless, other], rfl⟩
  case calculateBoth =>
    intro convention fields input program names middle after child draft projects items condition
      node _ _ other _ _ _ _ _
    exact .inr ⟨by simp [isTraceless, other], rfl⟩
  all_goals
    intros
    exact .inr ⟨rfl, rfl⟩

/-! ## Runs for the inputs -/

/-- The node compiles, with some names taken. -/
def Compiles (dialect : Sql.Dialect) (p : RemotePlan) : Prop :=
  ∃ names f after, Gives (p.compile dialect) names f after

theorem compiles_of_queriesOf {inputs : List RemotePlan} {queries : List Sql.Node}
    (made : QueriesOf (fun input names f after => Gives (input.compile dialect) names f after)
      inputs names queries after) : ∀ input ∈ inputs, input.Compiles dialect := by
  induction made with
  | nil => simp
  | cons first _ _ ih => exact List.forall_mem_cons.mpr ⟨⟨_, _, _, first⟩, ih⟩

theorem compiles_only {input : RemotePlan} (only : p.inputs = [input])
    (run : Gives (input.compile dialect) names f after) :
    ∀ input ∈ p.inputs, input.Compiles dialect := by
  rw [only, List.forall_mem_singleton]
  exact ⟨_, _, _, run⟩

/-- To compile a node is to compile its inputs first. -/
theorem compiles_inputs (run : Gives (p.compile dialect) names f after) :
    ∀ input ∈ p.inputs, input.Compiles dialect := by
  rcases p with ⟨convention, fields, op⟩
  cases op with
  | scan | values => simp [inputs, RemoteOp.inputs]
  | modify => exact (not_gives_throw run).elim
  | join left right condition kind keys =>
    simp only [compile, gives_bind] at run
    rcases run with ⟨_, _, leftRun, _, _, rightRun, _⟩
    have leftCompiles : left.Compiles dialect := ⟨_, _, _, leftRun⟩
    have rightCompiles : right.Compiles dialect := ⟨_, _, _, rightRun⟩
    simpa [inputs, RemoteOp.inputs] using ⟨leftCompiles, rightCompiles⟩
  | set kind inputs all =>
    simp only [compile, gives_bind] at run
    rcases run with ⟨_, _, compiled, _⟩
    exact compiles_of_queriesOf (queriesOf_of_compileAll (fun _ _ {_ _ _} done => done) compiled)
  | filter | project | calculate | aggregate | sort =>
    simp only [compile, gives_bind] at run
    rcases run with ⟨_, _, childRun, _⟩
    exact compiles_only rfl childRun

theorem compiles_everywhere (run : Gives (p.compile dialect) names f after) :
    p.Everywhere (Compiles dialect) := by
  induction p using inputs_induction generalizing names f after with
  | step p ih =>
    rw [everywhere_iff]
    refine ⟨⟨_, _, _, run⟩, fun input member => ?_⟩
    rcases compiles_inputs run input member with ⟨_, _, _, inputRun⟩
    exact ih input member inputRun

/-! ## Rows -/

/-- Whenever the node compiles, the fragment has its fields. -/
def Described (dialect : Sql.Dialect) (p : RemotePlan) : Prop :=
  ∀ names f after, Gives (p.compile dialect) names f after → f.fields = p.fields

/-- A program that is left out declares the row of its actual input. -/
def ElisionFits (p : RemotePlan) : Prop :=
  match p.op with
  | .calculate input program => p.isTraceless = true → program.input = input.fields
  | _ => True

/-- A node that is left out has the row of its input exactly if its program fits. -/
theorem elisionFits_iff {input : RemotePlan} (sound : p.Sound) (traceless : p.isTraceless = true)
    (only : p.inputs = [input]) : p.ElisionFits ↔ p.fields = input.fields := by
  rcases p with ⟨convention, fields, op⟩
  cases op with
  | project child projects =>
    cases only
    simp only [isTraceless, Bool.and_eq_true, beq_iff_eq] at traceless
    exact iff_of_true trivial traceless.2
  | calculate child program =>
    cases only
    have star : program.isStar = true := (Bool.and_eq_true_iff.mp traceless).1
    have declared : fields = program.input := sound.1.trans (output_of_isStar star)
    rw [declared]
    exact ⟨fun fits => fits traceless, fun same _ => same⟩
  | _ => cases traceless

theorem elisionFits_of_not_traceless (traced : p.isTraceless = false) : p.ElisionFits := by
  rcases p with ⟨convention, fields, op⟩
  cases op with
  | calculate child program =>
    intro traceless
    rw [traced] at traceless
    cases traceless
  | _ => trivial

/-- With the rows of its inputs described, a node that compiles is described
exactly if it fits. -/
theorem described_iff_of_inputs (sound : p.Sound) (compiles : p.Compiles dialect)
    (inputs : ∀ input ∈ p.inputs, input.Described dialect) :
    p.Described dialect ↔ p.ElisionFits := by
  constructor
  · intro described
    -- A node that never compiles would be described whether it fits or not.
    rcases compiles with ⟨names, f, after, run⟩
    rcases traceless_or_fields run with ⟨traceless, input, only, inputRun⟩ | ⟨traced, _⟩
    · rw [elisionFits_iff sound traceless only, ← described _ _ _ run]
      exact inputs input (only ▸ List.mem_singleton_self input) _ _ _ inputRun
    · exact elisionFits_of_not_traceless traced
  · intro fits names f after run
    rcases traceless_or_fields run with ⟨traceless, input, only, inputRun⟩ | ⟨_, same⟩
    · rw [(elisionFits_iff sound traceless only).mp fits]
      exact inputs input (only ▸ List.mem_singleton_self input) _ _ _ inputRun
    · exact same

theorem described_everywhere_iff (sound : p.Everywhere Sound)
    (compiles : p.Everywhere (Compiles dialect)) :
    p.Everywhere (Described dialect) ↔ p.Everywhere ElisionFits := by
  induction p using inputs_induction with
  | step p ih =>
    have below : (∀ input ∈ p.inputs, input.Everywhere (Described dialect)) ↔
        ∀ input ∈ p.inputs, input.Everywhere ElisionFits :=
      forall₂_congr fun input member =>
        ih input member (sound.input member) (compiles.input member)
    rw [everywhere_iff, everywhere_iff p, ← below]
    refine and_congr_left fun described => ?_
    exact described_iff_of_inputs sound.root compiles.root
      fun input member => (described input member).root

end RemotePlan

/-- Of a converted plan that compiles, the fragments describe the rows of all nodes exactly if
each program that is left out declares the row of its actual input. -/
theorem RuleSet.described_iff {rs : RuleSet} {plan : Plan} {p : RemotePlan}
    {dialect : Sql.Dialect} {names after : Aliases} {f : Fragment}
    (converted : rs.convert plan = .ok (some p)) (run : Gives (p.compile dialect) names f after) :
    p.Everywhere (RemotePlan.Described dialect) ↔ p.Everywhere RemotePlan.ElisionFits :=
  RemotePlan.described_everywhere_iff (convert_sound converted)
    (RemotePlan.compiles_everywhere run)

namespace Staff

/-- Employees by their boss, as they are. -/
def untouched : Plan :=
  .calculate (.sort (.scan employees) [⟨1, .ascending, .unspecified⟩] none none)
    (.identity ["id", "boss"])

/-- Employees under names that the table does not have. -/
def relabelled : Plan := .calculate (.scan employees) (.identity ["number", "chief"])

end Staff

open Staff in
theorem RuleSet.described_iff_untouched :
    ∃ p f after, (RuleSet.full database).convert untouched = .ok (some p) ∧
      Gives (p.compile database.dialect) {} f after ∧ p.isTraceless = true ∧
      p.Everywhere RemotePlan.ElisionFits ∧
      p.Everywhere (RemotePlan.Described database.dialect) := by
  have converted :
      (RuleSet.full database).convert untouched = .ok (some (untouched.boundTo database)) := rfl
  have fits : (untouched.boundTo database).Everywhere RemotePlan.ElisionFits := by
    simp only [RemotePlan.Everywhere, untouched, Plan.boundTo, RemotePlan.parts,
      List.forall_mem_cons, RemotePlan.ElisionFits]
    exact ⟨fun _ => rfl, trivial, trivial, by simp⟩
  obtain ⟨f, after, run⟩ : ∃ f after,
      Gives ((untouched.boundTo database).compile database.dialect) {} f after := ⟨_, _, rfl⟩
  exact ⟨_, f, after, converted, run, rfl, fits, (RuleSet.described_iff converted run).mpr fits⟩

open Staff in
/-- A program under other names than its input's is left out with them: the fragment has the names
of the table. -/
theorem RuleSet.undescribed_relabelled :
    ∃ p f after, (Program.identity ["number", "chief"]).Built ∧
      (RuleSet.full database).convert relabelled = .ok (some p) ∧
      Gives (p.compile database.dialect) {} f after ∧ f.fields = ["id", "boss"] ∧
      p.fields = ["number", "chief"] ∧
      ¬ p.Everywhere (RemotePlan.Described database.dialect) := by
  have converted :
      (RuleSet.full database).convert relabelled = .ok (some (relabelled.boundTo database)) := rfl
  obtain ⟨f, after, run, fields⟩ : ∃ f after,
      Gives ((relabelled.boundTo database).compile database.dialect) {} f after ∧
        f.fields = ["id", "boss"] := ⟨_, _, rfl, rfl⟩
  refine ⟨_, f, after, .identity _, converted, run, fields, rfl, fun described => ?_⟩
  have same : f.fields = ["number", "chief"] := described.root {} f after run
  rw [fields] at same
  simp at same

end Pushdown
