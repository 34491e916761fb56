import Pushdown.Proofs.Compile.Elision
import Pushdown.Proofs.Relation.RebuildLaws

/-!
# Plans without idle nodes

An idle node gives the rows of its input as they are, under the same names: a projection to all
fields in order, or a program of that kind without a condition that declares the row it is given.
`RemotePlan.erased` is the plan without them, wherever they stand.

A node sees of an input only its fields, its convention and its fragment.  All three stay the same
when the input is erased, so the node over erased inputs can be built and compiles to the same
(`withInputs_onto`, `compile_onto`).  That leaves the idle node itself, which compiles to the
fragment of its input.
-/

namespace Pushdown

/-- The operator over other inputs, if they are as many as it takes. -/
def RemoteOp.onto (op : RemoteOp) (inputs : List RemotePlan) : RemoteOp :=
  match op, inputs with
  | .join _ _ condition kind keys, [left, right] => .join left right condition kind keys
  | .filter _ condition, [input] => .filter input condition
  | .project _ projects, [input] => .project input projects
  | .calculate _ program, [input] => .calculate input program
  | .aggregate _ groupSet groupingSets calls, [input] =>
    .aggregate input groupSet groupingSets calls
  | .sort _ keys, [input] => .sort input keys
  | .set kind _ all, inputs => .set kind inputs all
  | .modify table _ operation updateColumns flattened target query, [input] =>
    .modify table input operation updateColumns flattened target query
  | op, _ => op

namespace RemotePlan

/-- The node over other inputs, with everything else as it is. -/
def onto (p : RemotePlan) (inputs : List RemotePlan) : RemotePlan :=
  { p with op := p.op.onto inputs }

/-- The node gives the rows of its input as they are, under the same names. -/
def IsIdle (p : RemotePlan) : Prop :=
  match p.op with
  | .project input projects =>
    projects = (List.range input.fields.length).map .input ∧ p.fields = input.fields
  | .calculate input program =>
    program.condition = none ∧ program.isStar = true ∧ program.input = input.fields
  | _ => False

instance (p : RemotePlan) : Decidable p.IsIdle :=
  match p with
  | ⟨_, _, .project _ _⟩ =>
    @instDecidableAnd _ _ (decidable_of_iff _ Expr.isIdentity_iff)
      (inferInstanceAs (Decidable (_ = _)))
  | ⟨_, _, .calculate _ _⟩ => inferInstanceAs (Decidable (_ ∧ _ ∧ _))
  | ⟨_, _, .scan _⟩ | ⟨_, _, .join ..⟩ | ⟨_, _, .filter ..⟩ | ⟨_, _, .aggregate ..⟩
  | ⟨_, _, .sort ..⟩ | ⟨_, _, .set ..⟩ | ⟨_, _, .values _⟩ | ⟨_, _, .modify ..⟩ =>
    inferInstanceAs (Decidable False)

mutual

/-- The plan without idle nodes. -/
def erased : RemotePlan → RemotePlan
  | ⟨convention, fields, op⟩ =>
    match op with
    | .scan table => ⟨convention, fields, .scan table⟩
    | .join left right condition kind keys =>
      ⟨convention, fields, .join left.erased right.erased condition kind keys⟩
    | .filter input condition => ⟨convention, fields, .filter input.erased condition⟩
    | .project input projects =>
      if IsIdle ⟨convention, fields, .project input projects⟩ then input.erased
      else ⟨convention, fields, .project input.erased projects⟩
    | .calculate input program =>
      if IsIdle ⟨convention, fields, .calculate input program⟩ then input.erased
      else ⟨convention, fields, .calculate input.erased program⟩
    | .aggregate input groupSet groupingSets calls =>
      ⟨convention, fields, .aggregate input.erased groupSet groupingSets calls⟩
    | .sort input keys => ⟨convention, fields, .sort input.erased keys⟩
    | .set kind inputs all => ⟨convention, fields, .set kind (erasedAll inputs) all⟩
    | .values tuples => ⟨convention, fields, .values tuples⟩
    | .modify table input operation updateColumns flattened target query =>
      ⟨convention, fields,
        .modify table input.erased operation updateColumns flattened target query⟩

def erasedAll : List RemotePlan → List RemotePlan
  | [] => []
  | plan :: rest => plan.erased :: erasedAll rest

end

@[simp] theorem erasedAll_eq_map (plans : List RemotePlan) :
    erasedAll plans = plans.map erased := by
  induction plans with
  | nil => simp [erasedAll]
  | cons plan rest ih => simp [erasedAll, ih]

/-- An idle node is dropped, and any other stands over its inputs without idle nodes. -/
theorem erased_cases (p : RemotePlan) :
    (p.IsIdle ∧ ∃ input, p.inputs = [input] ∧ p.erased = input.erased) ∨
    (¬ p.IsIdle ∧ p.erased = p.onto (p.inputs.map erased)) := by
  rcases p with ⟨convention, fields, op⟩
  cases op with
  | project input projects =>
    rw [erased]
    split
    · rename_i idle
      exact .inl ⟨idle, input, rfl, rfl⟩
    · rename_i other
      exact .inr ⟨other, rfl⟩
  | calculate input program =>
    rw [erased]
    split
    · rename_i idle
      exact .inl ⟨idle, input, rfl, rfl⟩
    · rename_i other
      exact .inr ⟨other, rfl⟩
  | set kind inputs all => exact .inr ⟨id, by rw [erased, erasedAll_eq_map]; rfl⟩
  | _ => exact .inr ⟨id, by rw [erased]; rfl⟩

variable {p : RemotePlan} {others : List RemotePlan}

theorem inputs_onto (even : others.length = p.inputs.length) :
    (p.onto others).inputs = others := by
  rcases p with ⟨convention, fields, op⟩
  cases op with
  | scan | values => exact (List.eq_nil_of_length_eq_zero even).symm
  | join left right condition kind keys =>
    obtain ⟨first, second, rfl⟩ := List.length_eq_two.mp even
    rfl
  | set kind inputs all => rfl
  | _ =>
    obtain ⟨only, rfl⟩ := List.length_eq_one_iff.mp even
    rfl

/-! ## Building on erased inputs -/

/-- To a node over it, one plan looks like the other. -/
structure Alike (p q : RemotePlan) : Prop where
  fields : q.fields = p.fields
  convention : q.convention = p.convention

theorem bound_of_alike {c : Convention} {inputs : List RemotePlan}
    (alike : List.Forall₂ Alike inputs others) (bound : ∀ input ∈ inputs, input.convention = c) :
    ∀ other ∈ others, other.convention = c := by
  induction alike with
  | nil => simp
  | cons first _ ih =>
    obtain ⟨head, tail⟩ := List.forall_mem_cons.mp bound
    exact List.forall_mem_cons.mpr ⟨first.convention.trans head, ih tail⟩

/-- A node that rebuilds to itself also does so over inputs that look like its own. -/
theorem withInputs_onto (itself : p.withInputs p.inputs = .ok p)
    (alike : List.Forall₂ Alike p.inputs others) : p.withInputs others = .ok (p.onto others) := by
  rcases p with ⟨c, fields, op⟩
  cases op with
  | scan | values =>
    cases alike
    exact itself
  | join left right condition kind keys =>
    rcases alike with _ | ⟨leftAlike, _ | ⟨rightAlike, _ | _⟩⟩
    obtain ⟨bound, equi, same⟩ := join_eq_ok_iff.mp itself
    cases same
    refine join_eq_ok_iff.mpr ⟨?_, ?_, ?_⟩
    · rw [leftAlike.convention, rightAlike.convention]
      exact bound
    · rw [leftAlike.fields, rightAlike.fields]
      exact equi
    · rw [leftAlike.fields, rightAlike.fields]
      rfl
  | filter input condition =>
    rcases alike with _ | ⟨alike, _ | _⟩
    obtain ⟨bound, inRange, same⟩ := filter_eq_ok_iff.mp itself
    cases same
    refine filter_eq_ok_iff.mpr ⟨alike.convention.trans bound, ?_, ?_⟩
    · rw [alike.fields]
      exact inRange
    · rw [alike.fields]
      rfl
  | project input projects =>
    rcases alike with _ | ⟨alike, _ | _⟩
    obtain ⟨bound, ⟨named, inRange⟩, _⟩ := project_eq_ok_iff.mp itself
    refine project_eq_ok_iff.mpr ⟨alike.convention.trans bound, ⟨named, ?_⟩, rfl⟩
    rw [alike.fields]
    exact inRange
  | calculate input program =>
    rcases alike with _ | ⟨alike, _ | _⟩
    obtain ⟨bound, same⟩ := calculate_eq_ok_iff.mp itself
    cases same
    exact calculate_eq_ok_iff.mpr ⟨alike.convention.trans bound, rfl⟩
  | aggregate input groupSet groupingSets calls =>
    rcases alike with _ | ⟨alike, _ | _⟩
    obtain ⟨bound, valid, _⟩ := aggregate_eq_ok_iff.mp itself
    refine aggregate_eq_ok_iff.mpr ⟨alike.convention.trans bound, ?_, rfl⟩
    rw [alike.fields]
    exact valid
  | sort input keys =>
    rcases alike with _ | ⟨alike, _ | _⟩
    obtain ⟨bound, inRange, same⟩ := sort_eq_ok_iff.mp itself
    cases same
    refine sort_eq_ok_iff.mpr ⟨alike.convention.trans bound, ?_, ?_⟩
    · rw [alike.fields]
      exact inRange
    · rw [alike.fields]
      rfl
  | set kind inputs all =>
    rcases alike with _ | ⟨first, rest⟩
    · cases itself
    · obtain ⟨bound, valid, _⟩ := set_eq_ok_iff.mp itself
      exact set_eq_ok_iff.mpr ⟨bound_of_alike (.cons first rest) bound, ⟨by simp, valid.2⟩, rfl⟩
  | modify table input operation updateColumns flattened target query =>
    rcases alike with _ | ⟨alike, _ | _⟩
    obtain ⟨bound, capable, same⟩ := modify_eq_ok_iff.mp itself
    cases same
    exact modify_eq_ok_iff.mpr ⟨alike.convention.trans bound, capable, rfl⟩

/-! ## Compiling over erased inputs -/

variable {dialect : Sql.Dialect}

theorem compileAll_congr {inputs : List RemotePlan}
    (same : List.Forall₂ (fun input other => other.compile dialect = input.compile dialect) inputs
      others) : compileAll dialect others = compileAll dialect inputs := by
  induction same with
  | nil => rfl
  | cons first _ ih => rw [compileAll, compileAll, first, ih]

/-- A node compiles to the same over inputs that have the fields of its own and compile to the
same. -/
theorem compile_onto (same : List.Forall₂ (fun input other => other.fields = input.fields ∧
      other.compile dialect = input.compile dialect) p.inputs others) :
    (p.onto others).compile dialect = p.compile dialect := by
  rcases p with ⟨c, fields, op⟩
  cases op with
  | scan | values =>
    cases same
    rfl
  | join left right condition kind keys =>
    rcases same with _ | ⟨⟨_, left⟩, _ | ⟨⟨_, right⟩, _ | _⟩⟩
    simp only [onto, RemoteOp.onto, compile, left, right]
  | set kind inputs all =>
    have branches : compileAll dialect others = compileAll dialect inputs :=
      compileAll_congr (same.imp fun _ _ both => both.2)
    simp only [onto, RemoteOp.onto, compile, branches]
  | filter | project | calculate | aggregate | sort =>
    rcases same with _ | ⟨⟨fields, input⟩, _ | _⟩
    simp only [onto, RemoteOp.onto, compile, fields, input]
  | modify =>
    rcases same with _ | ⟨_, _ | _⟩
    rfl

/-- A node that is left out compiles as its input. -/
theorem compile_of_isTraceless {input : RemotePlan} (traceless : p.isTraceless = true)
    (only : p.inputs = [input]) : p.compile dialect = input.compile dialect := by
  rcases p with ⟨c, fields, op⟩
  cases op with
  | project child projects =>
    cases only
    have skip : ∀ f : Fragment, (if Expr.isIdentity projects input.fields.length &&
        fields == input.fields then pure f
        else Fragment.project fields projects f : CompileM Fragment) =
        pure f := fun f => if_pos traceless
    simp only [compile, skip, bind_pure]
  | calculate child program =>
    cases only
    have skip : ∀ f : Fragment, (if program.isStar && program.condition.isNone then pure f
        else Fragment.calculate fields program f : CompileM Fragment) = pure f := fun f =>
      if_pos traceless
    simp only [compile, skip, bind_pure]
  | _ => cases traceless

theorem IsIdle.isTraceless (idle : p.IsIdle) : p.isTraceless = true := by
  rcases p with ⟨c, fields, op⟩
  cases op with
  | project input projects =>
    have identity := Expr.isIdentity_iff.mpr idle.1
    have same : fields = input.fields := idle.2
    simp [RemotePlan.isTraceless, identity, same]
  | calculate input program =>
    obtain ⟨unconditional, star, _⟩ := idle
    simp [RemotePlan.isTraceless, unconditional, star]
  | _ => exact idle.elim

/-! ## What is left of a plan -/

theorem IsIdle.fields_eq {input : RemotePlan} (idle : p.IsIdle) (follows : p.RowFollows)
    (only : p.inputs = [input]) : p.fields = input.fields := by
  rcases p with ⟨c, fields, op⟩
  cases op with
  | project child projects =>
    cases only
    exact idle.2
  | calculate child program =>
    cases only
    obtain ⟨_, star, declared⟩ := idle
    calc fields = program.output := follows.mpr trivial
      _ = program.input := output_of_isStar star
      _ = input.fields := declared
  | _ => exact idle.elim

/-- Whether a node is idle depends on the fields of its input alone. -/
theorem isIdle_onto_iff
    (same : List.Forall₂ (fun input other => other.fields = input.fields) p.inputs others) :
    (p.onto others).IsIdle ↔ p.IsIdle := by
  rcases p with ⟨c, fields, op⟩
  cases op with
  | scan | values => exact Iff.rfl
  | join =>
    rcases same with _ | ⟨_, _ | ⟨_, _ | _⟩⟩
    exact Iff.rfl
  | project | calculate =>
    rcases same with _ | ⟨same, _ | _⟩
    simp only [onto, RemoteOp.onto, IsIdle, same]
  | set => exact Iff.rfl
  | _ =>
    rcases same with _ | ⟨_, _ | _⟩
    exact Iff.rfl

end RemotePlan

namespace Reachable

variable {p : RemotePlan}

theorem alike_erased (reachable : Reachable p) : p.Alike p.erased := by
  induction p using RemotePlan.inputs_induction with
  | step p ih =>
    obtain ⟨builtOver, obtained⟩ := reachable.builtOver
    obtain ⟨idle, input, only, same⟩ | ⟨_, same⟩ := p.erased_cases
    · have member : input ∈ p.inputs := only ▸ List.mem_singleton_self input
      have alike := ih input member (obtained input member)
      rw [same]
      exact ⟨alike.fields.trans (idle.fields_eq reachable.rowFollows only).symm,
        alike.convention.trans (builtOver.bound input member)⟩
    · rw [same]
      exact ⟨rfl, rfl⟩

theorem inputs_alike_erased (reachable : Reachable p) :
    List.Forall₂ RemotePlan.Alike p.inputs (p.inputs.map RemotePlan.erased) :=
  List.forall₂_map_right_iff.mpr <| List.forall₂_same.mpr fun input member =>
    (reachable.builtOver.2 input member).alike_erased

/-- The plan without idle nodes can be obtained: what is left is rebuilt over what
is left below. -/
theorem erased (reachable : Reachable p) : Reachable p.erased := by
  induction p using RemotePlan.inputs_induction with
  | step p ih =>
    obtain ⟨_, obtained⟩ := reachable.builtOver
    obtain ⟨_, input, only, same⟩ | ⟨_, same⟩ := p.erased_cases
    · have member : input ∈ p.inputs := only ▸ List.mem_singleton_self input
      rw [same]
      exact ih input member (obtained input member)
    · rw [same]
      by_cases empty : p.SetOfNone
      · -- It cannot be rebuilt, but there is nothing below it to erase.
        obtain ⟨kind, all, none⟩ := empty
        rcases p with ⟨c, fields, op⟩
        cases none
        exact reachable
      · refine .rebuilt reachable ?_ (RemotePlan.withInputs_onto
          (reachable.withInputs_inputs empty) reachable.inputs_alike_erased)
        rw [List.forall_mem_map]
        exact fun input member => ih input member (obtained input member)

theorem not_isIdle_erased (reachable : Reachable p) :
    p.erased.Everywhere fun part => ¬ part.IsIdle := by
  induction p using RemotePlan.inputs_induction with
  | step p ih =>
    obtain ⟨_, obtained⟩ := reachable.builtOver
    obtain ⟨_, input, only, same⟩ | ⟨working, same⟩ := p.erased_cases
    · have member : input ∈ p.inputs := only ▸ List.mem_singleton_self input
      rw [same]
      exact ih input member (obtained input member)
    · rw [same, RemotePlan.everywhere_iff, RemotePlan.inputs_onto (List.length_map _),
        List.forall_mem_map, RemotePlan.isIdle_onto_iff
          (reachable.inputs_alike_erased.imp fun _ _ alike => alike.fields)]
      exact ⟨working, fun input member => ih input member (obtained input member)⟩

theorem compile_erased (reachable : Reachable p) (dialect : Sql.Dialect) :
    p.erased.compile dialect = p.compile dialect := by
  induction p using RemotePlan.inputs_induction with
  | step p ih =>
    obtain ⟨_, obtained⟩ := reachable.builtOver
    obtain ⟨idle, input, only, same⟩ | ⟨_, same⟩ := p.erased_cases
    · have member : input ∈ p.inputs := only ▸ List.mem_singleton_self input
      rw [same, ih input member (obtained input member),
        RemotePlan.compile_of_isTraceless idle.isTraceless only]
    · rw [same]
      refine RemotePlan.compile_onto (List.forall₂_map_right_iff.mpr (List.forall₂_same.mpr ?_))
      intro input member
      exact ⟨(obtained input member).alike_erased.fields, ih input member (obtained input member)⟩

/-- A plan and what is left of it without idle nodes, which can be obtained as well and describes
the same rows, compile to the same statement with the same names, or fail with the same error,
whatever names are taken before. -/
theorem toSql_erased (reachable : Reachable p) :
    (Reachable p.erased ∧ p.erased.fields = p.fields ∧
      p.erased.Everywhere fun part => ¬ part.IsIdle) ∧
    p.erased.toSql = p.toSql ∧
    ∀ dialect, p.erased.compileWith dialect = p.compileWith dialect := by
  have alike := reachable.alike_erased
  have compiled (dialect : Sql.Dialect) :
      p.erased.compileWith dialect = p.compileWith dialect := by
    rw [RemotePlan.compileWith, RemotePlan.compileWith, reachable.compile_erased]
  refine ⟨⟨reachable.erased, alike.fields, reachable.not_isIdle_erased⟩, ?_, compiled⟩
  rw [RemotePlan.toSql, RemotePlan.toSql, alike.convention, compiled]

end Reachable

namespace Staff

/-- Employees next to their bosses, by number. -/
def chain : Plan :=
  .sort (.join (.scan employees) (.scan employees) (.scalarCall .eq [.input 1, .input 2]) .inner)
    [⟨0, .ascending, .unspecified⟩] none none

/-- The same with nodes in between that do nothing: a program on one side of the join, and two
projections of what it gives. -/
def paddedChain : Plan :=
  .sort
    (.project
      (.project
        (.join (.calculate (.scan employees) (.identity ["id", "boss"])) (.scan employees)
          (.scalarCall .eq [.input 1, .input 2]) .inner)
        [.input 0, .input 1, .input 2, .input 3] ["id", "boss", "id0", "boss0"])
      [.input 0, .input 1, .input 2, .input 3] ["id", "boss", "id0", "boss0"])
    [⟨0, .ascending, .unspecified⟩] none none

theorem paddedChain_converts :
    (RuleSet.full database).convert paddedChain = .ok (some (paddedChain.boundTo database)) := rfl

end Staff

open Staff in
theorem Reachable.toSql_erased_paddedChain :
    let p := paddedChain.boundTo database
    Reachable p ∧ p.erased = chain.boundTo database ∧
      (chain.boundTo database).toSql = p.toSql ∧ ∃ s, p.toSql = .ok s := by
  intro p
  have made : Reachable p := .of_convert paddedChain_converts
  have left : p.erased = chain.boundTo database := rfl
  have same := (Reachable.toSql_erased made).2.1
  rw [left] at same
  exact ⟨made, left, same, _, rfl⟩

end Pushdown
