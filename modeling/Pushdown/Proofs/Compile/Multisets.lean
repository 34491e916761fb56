import Pushdown.Compile.Statement
import Pushdown.Proofs.Relation.Reachable
import Pushdown.Proofs.Scalar.Expansion

/-!
# Programs without multiset operators

The rule for programs looks for multiset operators in the list of shared expressions as it stands,
and what the compiler translates are expansions, which are made of entries of the list through
chains of references.  Expansion brings no operator of its own: one that an expansion applies is
applied by the expression it came from or by an entry of the list (`applies_of_expandWithin`).  So
the look at the list is enough.

`Fragment.calculateBy` compiles a program by any translation of expressions.  For a program that
the rule accepts all translations give the same that agree on expressions without multiset
operators; the compiler never asks for any other.
-/

namespace Pushdown

open Sql (Node)

namespace Expr

/-- The operator is applied in the expression, at whatever depth. -/
inductive Applies (op : PlanOp) : Expr → Prop
  | root {operands : List Expr} : Applies op (.call op operands)
  | operand {other : PlanOp} {operands : List Expr} {e : Expr} (member : e ∈ operands)
      (below : Applies op e) : Applies op (.call other operands)

/-- No multiset operator is applied in the expression. -/
def Scalar (e : Expr) : Prop := ∀ op, ¬ e.Applies (.multiset op)

variable {op : PlanOp} {e r : Expr}

theorem hasMultiset_eq_false_iff : e.hasMultiset = false ↔ e.Scalar := by
  induction e with
  | literal value =>
    refine ⟨fun _ op applied => ?_, fun _ => rfl⟩
    cases applied
  | input ordinal =>
    refine ⟨fun _ op applied => ?_, fun _ => rfl⟩
    cases applied
  | shared index =>
    refine ⟨fun _ op applied => ?_, fun _ => rfl⟩
    cases applied
  | call own operands ih =>
    rw [hasMultiset, anyMultiset_eq_any, Bool.or_eq_false_iff, List.any_eq_false]
    constructor
    · rintro ⟨scalar, each⟩ op applied
      cases applied with
      | root => cases scalar
      | operand member below =>
        have free := (ih _ member).mp (Bool.eq_false_iff.mpr (each _ member))
        exact free op below
    · intro free
      constructor
      · cases own with
        | scalar op => rfl
        | multiset op => exact absurd .root (free op)
      · intro operand member
        rw [Bool.not_eq_true]
        apply (ih operand member).mpr
        intro op applied
        exact free op (.operand member applied)

/-- What is applied after references were replaced was applied before, or in what
they stand for. -/
theorem applies_of_bindShared {ε : Type} {resolve : Nat → Except ε Expr}
    (bound : e.bindShared resolve = .ok r) (applied : r.Applies op) :
    e.Applies op ∨ ∃ i t, resolve i = .ok t ∧ t.Applies op := by
  induction e generalizing r with
  | literal value =>
    cases bound
    exact .inl applied
  | input ordinal =>
    cases bound
    exact .inl applied
  | shared index => exact .inr ⟨index, r, bound, applied⟩
  | call own operands ih =>
    simp only [bindShared, bindSharedAll_eq_mapM, Except.bind_eq_ok_iff] at bound
    obtain ⟨es, each, built⟩ := bound
    cases built
    cases applied with
    | root => exact .inl .root
    | operand member below =>
      obtain ⟨operand, mem, done⟩ := Except.exists_of_mem_mapM each member
      rcases ih operand mem done below with inside | brought
      · exact .inl (.operand mem inside)
      · exact .inr brought

end Expr

namespace Program

variable {exprs : List Expr} {p : Program} {op : PlanOp} {e r : Expr}

/-- Expansion brings no operators but those of the list. -/
theorem applies_of_expandWithin {budget : Nat} (expanded : expandWithin exprs budget e = .ok r)
    (applied : r.Applies op) : e.Applies op ∨ ∃ t ∈ exprs, t.Applies op := by
  induction budget generalizing e r with
  | zero =>
    rcases Expr.applies_of_bindShared expanded applied with own | ⟨_, _, resolved, _⟩
    · exact .inl own
    · cases resolved
  | succ budget ih =>
    rcases Expr.applies_of_bindShared expanded applied with own | ⟨i, t, resolved, below⟩
    · exact .inl own
    · cases entry : exprs[i]? with
      | none =>
        rw [entry] at resolved
        cases resolved
      | some target =>
        simp only [entry] at resolved
        rcases ih resolved below with inside | brought
        · exact .inr ⟨target, List.mem_of_getElem? entry, inside⟩
        · exact .inr brought

theorem scalar_of_expand (free : p.hasMultiset = false) {i : Nat}
    (expanded : p.expand (.shared i) = .ok r) :
    r.Scalar := by
  intro op applied
  rcases applies_of_expandWithin expanded applied with own | ⟨t, member, below⟩
  · cases own
  · have unused := List.any_eq_false.mp free t member
    exact Expr.hasMultiset_eq_false_iff.mp (Bool.eq_false_iff.mpr unused) op below

theorem scalar_of_projectExprs (free : p.hasMultiset = false) {es : List Expr}
    (expanded : p.projectExprs = .ok es) : ∀ e ∈ es, e.Scalar := by
  intro e member
  obtain ⟨_, _, done⟩ := Except.exists_of_mem_mapM expanded member
  exact scalar_of_expand free done

theorem scalar_of_conditionExpr (free : p.hasMultiset = false)
    (found : p.conditionExpr = .ok (some e)) :
    e.Scalar := by
  unfold conditionExpr at found
  split at found
  · cases found
  · obtain ⟨_, expanded, same⟩ := Except.map_eq_ok_iff.mp found
    cases same
    exact scalar_of_expand free expanded

end Program

/-! ## What the compiler translates -/

/-- What follows a step that takes no names is asked for the outcome of that step alone. -/
theorem except_bind_congr {α β : Type} {outcome : Except Error α} {next other : α → CompileM β}
    (same : ∀ a, outcome = .ok a → next a = other a) :
    ((liftM outcome : CompileM α) >>= next) = (liftM outcome >>= other) := by
  cases outcome with
  | error e => rfl
  | ok a => exact same a rfl

/-- The query of a draft with the condition of a program, translated in a given way. -/
def Draft.restrictBy (translate : Scope → Expr → Except Error Node) (fields : Fields)
    (program : Program)
    (draft : Draft) : CompileM Fragment := do
  match ← program.conditionExpr with
  | none => return draft.finish fields
  | some condition =>
    return (draft.withSelection (← translate draft.scope condition)).finish fields

/-- The rows that a program computes, with its expressions translated in a given way. -/
def Fragment.calculateBy (translate : Scope → Expr → Except Error Node) (fields : Fields)
    (program : Program) (input : Fragment) : CompileM Fragment := do
  let draft ← input.draft (if program.condition.isSome then [.source, .selection] else [.source])
  if program.isStar then draft.restrictBy translate fields program
  else do
    let projects ← program.projectExprs
    let items ← (projects.mapM (translate draft.scope) : Except Error (List Node))
    (draft.withProjection (selectList fields items)).restrictBy translate fields program

section Translation

variable {translate : Scope → Expr → Except Error Node} {fields : Fields} {program : Program}

theorem Fragment.calculate_eq_calculateBy (fields : Fields) (program : Program)
    (input : Fragment) :
    calculate fields program input = calculateBy Scope.expression fields program input := by
  unfold calculate calculateBy
  refine bind_congr fun draft => ?_
  split
  · rfl
  · simp only [Scope.expressions_eq_mapM]
    rfl

/-- Translations that agree on expressions without multiset operators give the same on a program
without them: the same query, or the same failure. -/
theorem Fragment.calculateBy_congr (free : program.hasMultiset = false)
    (agrees : ∀ scope e, e.Scalar → translate scope e = scope.expression e) (input : Fragment) :
    calculateBy translate fields program input =
      calculateBy Scope.expression fields program input := by
  have restricted (draft : Draft) : draft.restrictBy translate fields program =
      draft.restrictBy Scope.expression fields program := by
    refine except_bind_congr fun condition found => ?_
    cases condition with
    | none => rfl
    | some condition => simp only [agrees _ _ (Program.scalar_of_conditionExpr free found)]
  unfold calculateBy
  refine bind_congr fun draft => ?_
  split
  · exact restricted draft
  · refine except_bind_congr fun projects expanded => ?_
    have each : projects.mapM (translate draft.scope) = projects.mapM draft.scope.expression := by
      apply Except.mapM_congr
      intro e member
      exact agrees draft.scope e (Program.scalar_of_projectExprs free expanded e member)
    rw [each]
    exact bind_congr fun items => restricted _

end Translation

/-- The rule for programs accepts a plan only if its program has no multiset operator. -/
theorem calculate_of_convertBy {c : Convention} {convertInput : Plan → Conversion} {plan : Plan}
    {p : RemotePlan} (accepted : convertBy c .calculate convertInput plan = .ok (some p)) :
    ∃ source program input, plan = .calculate source program ∧ program.hasMultiset = false ∧
      p = ⟨c, program.output, .calculate input program⟩ := by
  unfold convertBy at accepted
  split at accepted
  · rename_i kind
    cases plan with
    | calculate source program =>
      simp only [Plan.inputs, List.map_cons, List.map_nil, convertNode] at accepted
      split at accepted
      · cases accepted
      · rename_i free
        obtain ⟨input, _, built⟩ := withInput_eq_some_iff.mp accepted
        obtain ⟨_, same⟩ := RemotePlan.calculate_eq_ok_iff.mp (accept_eq_some_iff.mp built)
        exact ⟨source, program, input, rfl, Bool.eq_false_iff.mpr free, same⟩
    | _ => cases kind
  · cases accepted

/-- The check for multiset operators on the shared expressions covers what is written.  For a
program that passed its own check, with no such operator in its list, the projections and the
condition expand to expressions without one.  So for each plan that the rule for programs accepts,
and in whatever way the inputs were converted, everything that is translated for the select list
and for the condition is free of them: a translation that differs on other expressions gives the
same fragment, or the same failure. -/
theorem Program.hasMultiset_covers_expansions :
    (∀ p q : Program, p.check = .ok q → q.hasMultiset = false →
      (∃ projects, q.projectExprs = .ok projects ∧ ∀ e ∈ projects, e.Scalar) ∧
      ∃ condition, q.conditionExpr = .ok condition ∧ ∀ e ∈ condition, e.Scalar) ∧
    ∀ (c : Convention) (convertInput : Plan → Conversion) (plan : Plan) (p : RemotePlan),
      convertBy c .calculate convertInput plan = .ok (some p) →
      ∃ source program input, plan = .calculate source program ∧ p.op = .calculate input program ∧
        (∀ projects, program.projectExprs = .ok projects → ∀ e ∈ projects, e.Scalar) ∧
        (∀ e, program.conditionExpr = .ok (some e) → e.Scalar) ∧
        ∀ (dialect : Sql.Dialect) (translate : Scope → Expr → Except Error Node),
          (∀ scope e, e.Scalar → translate scope e = scope.expression e) →
          p.compile dialect = (do
            let child ← input.compile dialect
            if program.isStar && program.condition.isNone then return child
            else Fragment.calculateBy translate p.fields program child) := by
  refine ⟨fun p q passed free => ?_, fun c convertInput plan p accepted => ?_⟩
  · have checked := checked_of_check passed
    obtain ⟨projects, expanded, _⟩ := checked.exists_projectExprs
    obtain ⟨condition, found, _⟩ := checked.exists_conditionExpr
    refine ⟨⟨projects, expanded, scalar_of_projectExprs free expanded⟩, condition, found, ?_⟩
    intro e present
    cases present
    exact scalar_of_conditionExpr free found
  · obtain ⟨source, program, input, rfl, free, rfl⟩ := calculate_of_convertBy accepted
    refine ⟨source, program, input, rfl, rfl, fun projects => scalar_of_projectExprs free,
      fun e => scalar_of_conditionExpr free, fun dialect translate agrees => ?_⟩
    simp only [RemotePlan.compile, Fragment.calculate_eq_calculateBy,
      Fragment.calculateBy_congr free agrees]

namespace Staff

/-- The hosts that were their own guests, with each host found through two references. -/
def selfHosts : Program where
  input := ["guest", "host"]
  exprs := [.shared 1, .shared 3, .scalarCall .eq [.input 0, .shared 0], .input 1]
  projects := [0]
  condition := some 2
  output := ["host"]

/-- The same with a multiset operator at the end of the references. -/
def selfHostSets : Program :=
  { selfHosts with
    exprs := [.shared 1, .shared 3, .scalarCall .eq [.input 0, .shared 0],
      .call (.multiset .element) [.input 1]] }

/-- The rule for programs, on rows of visits. -/
def selected (program : Program) : Conversion :=
  convertBy archive .calculate (RuleSet.full archive).convert (.calculate (.scan visits) program)

end Staff

open Staff in
/-- The projection of either program is a reference alone, and what it leads to decides. -/
theorem Program.hasMultiset_covers_expansions_selfHosts :
    selfHosts.check = .ok selfHosts ∧ selfHosts.hasMultiset = false ∧
      selfHosts.projectExprs = .ok [.input 1] ∧ (∀ e ∈ [Expr.input 1], e.Scalar) ∧
      (∃ p, selected selfHosts = .ok (some p) ∧
        ∀ e, selfHosts.conditionExpr = .ok (some e) → e.Scalar) ∧
      selfHostSets.check = .ok selfHostSets ∧
      selfHostSets.projectExprs = .ok [.call (.multiset .element) [.input 1]] ∧
      selected selfHostSets = .ok none := by
  have passed : selfHosts.check = .ok selfHosts := rfl
  obtain ⟨programs, plans⟩ := Program.hasMultiset_covers_expansions
  obtain ⟨⟨projects, expanded, scalar⟩, _⟩ := programs selfHosts selfHosts passed rfl
  cases expanded
  have accepted : selected selfHosts =
      .ok (some ((Plan.calculate (.scan visits) selfHosts).boundTo archive)) := rfl
  obtain ⟨_, _, _, same, _, _, condition, _⟩ := plans archive _ _ _ accepted
  cases same
  exact ⟨passed, rfl, rfl, scalar, ⟨_, accepted, condition⟩, rfl, rfl, rfl⟩

end Pushdown
