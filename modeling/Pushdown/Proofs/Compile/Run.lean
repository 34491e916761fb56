import Pushdown.Compile.Statement
import Pushdown.Proofs.Relation.Tree
import Pushdown.Proofs.Outcome

/-!
# Runs of the compiler

`Gives step names result after` says that a step of the compiler, started with the names `names`
taken, succeeds with `result` and leaves the names `after` taken.  `Drafted` says what a draft on
a fragment can be: a new query over the fragment as a row source, or the fragment's own query.

`RemotePlan.compile_induction` is the induction over a run that succeeds, one case for each way in
which an operator turns the fragments of its inputs into its own.
-/

namespace Pushdown

open Sql (Node Select OrderItem)

/-- The step succeeds with the result, and takes names from `names` to `after`. -/
def Gives {α : Type} (step : CompileM α) (names : Aliases) (result : α) (after : Aliases) :
    Prop :=
  step.run.run names = (.ok result, after)

section Steps

variable {α β : Type} {names after : Aliases}

theorem gives_pure {a b : α} : Gives (pure a) names b after ↔ a = b ∧ names = after := by
  constructor
  · intro run
    cases run
    exact ⟨rfl, rfl⟩
  · rintro ⟨rfl, rfl⟩
    rfl

theorem gives_bind {step : CompileM α} {next : α → CompileM β} {b : β} :
    Gives (step >>= next) names b after ↔
      ∃ a middle, Gives step names a middle ∧ Gives (next a) middle b after := by
  have unfolded : (step >>= next).run.run names =
      match step.run.run names with
      | (.ok a, middle) => (next a).run.run middle
      | (.error e, middle) => (.error e, middle) := by
    simp only [ExceptT.run, StateT.run, bind, ExceptT.bind, ExceptT.mk, StateT.bind]
    generalize step names = outcome
    rcases outcome with ⟨e | a, middle⟩ <;> rfl
  unfold Gives
  rw [unfolded]
  generalize step.run.run names = outcome
  rcases outcome with ⟨e | a, middle⟩
  · exact ⟨nofun, fun ⟨_, _, failed, _⟩ => nomatch failed⟩
  · constructor
    · intro done
      exact ⟨a, middle, rfl, done⟩
    · rintro ⟨_, _, same, done⟩
      cases same
      exact done

/-- A step that only takes names. -/
theorem gives_state {step : StateM Aliases α} {a : α} :
    Gives (liftM step : CompileM α) names a after ↔ step.run names = (a, after) := by
  have unfolded : (liftM step : CompileM α).run.run names =
      ((.ok (step.run names).1, (step.run names).2) : Except Error α × Aliases) := rfl
  unfold Gives
  rw [unfolded]
  generalize step.run names = outcome
  rcases outcome with ⟨result, middle⟩
  constructor
  · intro done
    cases done
    rfl
  · intro done
    cases done
    rfl

/-- A step that takes no names. -/
theorem gives_except {outcome : Except Error α} {a : α} :
    Gives (liftM outcome : CompileM α) names a after ↔ outcome = .ok a ∧ names = after := by
  constructor
  · intro done
    cases done
    exact ⟨rfl, rfl⟩
  · rintro ⟨rfl, rfl⟩
    rfl

theorem not_gives_throw {e : Error} {a : α} : ¬ Gives (throw e) names a after := nofun

end Steps

/-! ## Clauses -/

namespace ClauseSet

variable {s : ClauseSet} {c d : Clause}

/-- A query that has used a clause cannot take that clause or an earlier one. -/
theorem conflicts_of_contains (used : s.contains c = true) (order : d.rank ≤ c.rank) :
    s.conflicts d = true := by
  unfold conflicts
  by_cases set : c = .setOp
  · rw [← set, used, Bool.true_or]
  · refine Bool.or_eq_true_iff.mpr (.inr (List.any_eq_true.mpr ⟨c, mem_toList.mpr used, ?_⟩))
    simp [set, order]

/-- A query that cannot take a clause cannot take an earlier one. -/
theorem conflicts_of_le (conflict : s.conflicts c = true) (order : d.rank ≤ c.rank) :
    s.conflicts d = true := by
  unfold conflicts at conflict ⊢
  rcases Bool.or_eq_true_iff.mp conflict with set | later
  · rw [set, Bool.true_or]
  · obtain ⟨used, member, blocks⟩ := List.any_eq_true.mp later
    simp only [Bool.and_eq_true, decide_eq_true_eq] at blocks
    refine Bool.or_eq_true_iff.mpr (.inr (List.any_eq_true.mpr ⟨used, member, ?_⟩))
    simpa using ⟨by simpa using blocks.1, Nat.le_trans order blocks.2⟩

theorem conflicts_of_needsWrap {requested : List Clause} (free : s.needsWrap requested = false)
    (member : c ∈ requested) : s.conflicts c = false := by
  simpa using List.any_eq_false.mp free c member

end ClauseSet

/-! ## Row sources -/

/-- What a fragment as a row source can be. -/
inductive Sourced (f : Fragment) (names : Aliases) : Node → List Source → Aliases → Prop
  | table {parts : List String} {name : String} {after : Aliases}
      (own : f.node = .identifier parts)
      (named : (nameOr f.chosen (parts.getLast?.getD "t")).run names = (name, after)) :
      Sourced f names
        (if parts.getLast? = some name then .identifier parts
          else .named (.identifier parts) name)
        [⟨name, f.fields⟩] after
  | join {join : Sql.Join} (own : f.node = .join join) :
      Sourced f names (.join join) f.sources names
  | query {query : Select} {name : String} {after : Aliases} (own : f.node = .select query)
      (named : (nameOr f.chosen "t").run names = (name, after)) :
      Sourced f names (.named (.select (expandStar query f.sources f.fields)) name)
        [⟨name, f.fields⟩] after
  | setOp {operator : Sql.SetOperator} {inputs : List Node} {name : String} {after : Aliases}
      (own : f.node = .setOp operator inputs)
      (named : (nameOr f.chosen "t").run names = (name, after)) :
      Sourced f names (.named (.setOp operator inputs) name) [⟨name, f.fields⟩] after

/-- The fragments that the compiler makes: tables, joins and queries. -/
def Fragment.Relational (f : Fragment) : Prop :=
  match f.node with
  | .identifier _ | .join _ | .select _ | .setOp _ _ => True
  | _ => False

theorem Fragment.sourced_of_toSource {f : Fragment} {names after : Aliases} {node : Node}
    {sources : List Source} (relational : f.Relational)
    (run : f.toSource.run names = ((node, sources), after)) :
    Sourced f names node sources after := by
  unfold Relational at relational
  split at relational
  · rename_i parts own
    have unfolded : f.toSource.run names =
        (let (name, after) := (nameOr f.chosen (parts.getLast?.getD "t")).run names
         ((if parts.getLast? = some name then .identifier parts
            else .named (.identifier parts) name, [⟨name, f.fields⟩]), after)) := by
      unfold toSource
      rw [own]
      rfl
    generalize named : (nameOr f.chosen (parts.getLast?.getD "t")).run names = outcome at unfolded
    rw [unfolded] at run
    cases run
    exact .table own named
  · rename_i join own
    have unfolded : f.toSource.run names = ((.join join, f.sources), names) := by
      unfold toSource
      rw [own]
      rfl
    rw [unfolded] at run
    cases run
    exact .join own
  · rename_i query own
    have unfolded : f.toSource.run names =
        (let (name, after) := (nameOr f.chosen "t").run names
         ((.named (.select (expandStar query f.sources f.fields)) name, [⟨name, f.fields⟩]),
          after)) := by
      unfold toSource
      rw [own]
      rfl
    generalize named : (nameOr f.chosen "t").run names = outcome at unfolded
    rw [unfolded] at run
    cases run
    exact .query own named
  · rename_i operator inputs own
    have unfolded : f.toSource.run names =
        (let (name, after) := (nameOr f.chosen "t").run names
         ((.named (.setOp operator inputs) name, [⟨name, f.fields⟩]), after)) := by
      unfold toSource
      rw [own]
      rfl
    generalize named : (nameOr f.chosen "t").run names = outcome at unfolded
    rw [unfolded] at run
    cases run
    exact .setOp own named
  · exact relational.elim

/-! ## Drafts -/

/-- What the fields of a query in the making are: its select list, or else the columns of its
sources. -/
def Sql.Select.scope (query : Select) (sources : List Source) : Scope :=
  match query.projection with
  | some items => .ofItems items
  | none => .ofSources sources

/-- What a draft for some clauses on a fragment can be.  `keys` are the fields that the clauses
repeat. -/
inductive Drafted (f : Fragment) (requested : List Clause) (keys : List Nat) (names : Aliases) :
    Draft → Aliases → Prop
  /-- A new query over the fragment, which cannot take the clauses. -/
  | wrapped {source : Node} {sources : List Source} {after : Aliases}
      (blocked : (keys.any f.isConstant || f.clauses.needsWrap requested) = true)
      (taken : f.toSource.run names = ((source, sources), after)) :
      Drafted f requested keys names
        { query := .starFrom source
          clauses := (ClauseSet.ofList [.source]).insertAll requested
          sources
          scope := .ofSources sources } after
  /-- A new query over the fragment, which is no query itself. -/
  | opened {source : Node} {sources : List Source} {after : Aliases}
      (free : (keys.any f.isConstant || f.clauses.needsWrap requested) = false)
      (bare : ∀ query, f.node ≠ .select query)
      (taken : f.toSource.run names = ((source, sources), after)) :
      Drafted f requested keys names
        { query := .starFrom source
          clauses := f.clauses.insertAll requested
          sources
          scope := .ofSources sources } after
  /-- The fragment's own query. -/
  | extended {query : Select}
      (free : (keys.any f.isConstant || f.clauses.needsWrap requested) = false)
      (own : f.node = .select query) :
      Drafted f requested keys names
        { query
          clauses := f.clauses.insertAll requested
          sources := f.sources
          scope := query.scope f.sources } names

section Drafts

variable {f : Fragment} {requested : List Clause} {keys : List Nat} {names after : Aliases}
  {d : Draft}

theorem Fragment.toSelect_of_bare (bare : ∀ query, f.node ≠ .select query) :
    f.toSelect = do let (source, sources) ← f.toSource; return (.starFrom source, sources) := by
  unfold toSelect
  split
  · rename_i query own
    exact absurd own (bare query)
  · rfl

theorem Fragment.toSelect_of_select {query : Select} (own : f.node = .select query) :
    f.toSelect = pure (query, f.sources) := by
  unfold toSelect
  rw [own]

theorem Fragment.drafted_of_wrap
    (blocked : (keys.any f.isConstant || f.clauses.needsWrap requested) = true)
    (run : (f.wrap requested).run names = (d, after)) :
    Drafted f requested keys names d after := by
  generalize taken : f.toSource.run names = outcome
  rcases outcome with ⟨⟨source, sources⟩, middle⟩
  have unfolded : (f.wrap requested).run names =
      (let ((source, sources), after) := f.toSource.run names
       ({ query := .starFrom source
          clauses := (ClauseSet.ofList [.source]).insertAll requested
          sources
          scope := .ofSources sources }, after)) := rfl
  rw [unfolded, taken] at run
  cases run
  exact .wrapped blocked taken

theorem Fragment.drafted_of_extend
    (free : (keys.any f.isConstant || f.clauses.needsWrap requested) = false)
    (run : (f.extend requested).run names = (d, after)) :
    Drafted f requested keys names d after := by
  have unfolded : (f.extend requested).run names =
      (let ((query, sources), after) := f.toSelect.run names
       ({ query
          clauses := f.clauses.insertAll requested
          sources
          scope := query.scope sources }, after)) := rfl
  rw [unfolded] at run
  by_cases own : ∃ query, f.node = .select query
  · obtain ⟨query, own⟩ := own
    rw [toSelect_of_select own] at run
    cases run
    exact .extended free own
  · have bare : ∀ query, f.node ≠ .select query := fun query same => own ⟨query, same⟩
    rw [toSelect_of_bare bare] at run
    generalize taken : f.toSource.run names = outcome
    rcases outcome with ⟨⟨source, sources⟩, middle⟩
    have opened : (do
        let (source, sources) ← f.toSource
        return (Select.starFrom source, sources) :
        StateM Aliases (Select × List Source)).run names =
        (let ((source, sources), after) := f.toSource.run names
         ((.starFrom source, sources), after)) := rfl
    rw [opened, taken] at run
    cases run
    exact .opened free bare taken

/-- A draft for repeated fields is one of the three. -/
theorem Fragment.drafted_of_draftForKeys
    (run : (f.draftForKeys requested keys).run names = (d, after)) :
    Drafted f requested keys names d after := by
  unfold draftForKeys draft at run
  split at run
  · rename_i constant
    exact drafted_of_wrap (by simp [constant]) run
  · rename_i varying
    split at run
    · rename_i blocked
      exact drafted_of_wrap (by simp [blocked]) run
    · rename_i free
      refine drafted_of_extend (Bool.or_eq_false_iff.mpr ⟨?_, ?_⟩) run
      · exact Bool.eq_false_iff.mpr varying
      · exact Bool.eq_false_iff.mpr free

theorem Fragment.drafted_of_draft (run : (f.draft requested).run names = (d, after)) :
    Drafted f requested [] names d after :=
  drafted_of_draftForKeys (by simpa [draftForKeys] using run)

/-- A draft reads either from the fragment as a row source or, as the fragment's own query, from
where that reads. -/
theorem Drafted.fresh_or_extended (drafted : Drafted f requested keys names d after) :
    (∃ source, f.toSource.run names = ((source, d.sources), after) ∧ d.query = .starFrom source ∧
      d.scope = .ofSources d.sources) ∨
    (f.node = .select d.query ∧ keys.any f.isConstant = false ∧
      f.clauses.needsWrap requested = false ∧ after = names ∧ d.sources = f.sources ∧
      d.scope = d.query.scope d.sources) := by
  cases drafted with
  | wrapped _ taken => exact .inl ⟨_, taken, rfl, rfl⟩
  | opened _ _ taken => exact .inl ⟨_, taken, rfl, rfl⟩
  | extended free own =>
    rw [Bool.or_eq_false_iff] at free
    exact .inr ⟨own, free.1, free.2, rfl, rfl, rfl⟩

/-- A draft has the clauses that it was asked for. -/
theorem Drafted.contains (drafted : Drafted f requested keys names d after) {c : Clause}
    (member : c ∈ requested) : d.clauses.contains c = true := by
  cases drafted <;> simp [ClauseSet.contains_insertAll, member]

/-- The fields in the scope of a draft are those of its query. -/
theorem Drafted.scope_eq (drafted : Drafted f requested keys names d after) :
    d.scope = d.query.scope d.sources := by
  cases drafted <;> rfl

/-- A complete query is the fragment's own with its star written out, or such a query over the
fragment as a row source. -/
theorem Fragment.toQuery_cases {query : Node} (run : f.toQuery.run names = (query, after)) :
    (∃ own, f.node = .select own ∧ query = .select (expandStar own f.sources f.fields) ∧
      after = names) ∨
    (∃ source sources, (∀ own, f.node ≠ .select own) ∧
      f.toSource.run names = ((source, sources), after) ∧
      query = .select (expandStar (.starFrom source) sources f.fields)) := by
  have unfolded : f.toQuery.run names =
      (let ((query, sources), after) := f.toSelect.run names
       (.select (expandStar query sources f.fields), after)) := rfl
  rw [unfolded] at run
  by_cases own : ∃ own, f.node = .select own
  · obtain ⟨own, isQuery⟩ := own
    rw [toSelect_of_select isQuery] at run
    cases run
    exact .inl ⟨own, isQuery, rfl, rfl⟩
  · have bare : ∀ own, f.node ≠ .select own := fun query same => own ⟨query, same⟩
    rw [toSelect_of_bare bare] at run
    have opened : (do
        let (source, sources) ← f.toSource
        return (Select.starFrom source, sources) :
        StateM Aliases (Select × List Source)).run names =
        (let ((source, sources), after) := f.toSource.run names
         ((.starFrom source, sources), after)) := rfl
    generalize f.toSource.run names = outcome at opened ⊢
    rcases outcome with ⟨⟨source, sources⟩, middle⟩
    rw [opened] at run
    cases run
    exact .inr ⟨source, sources, bare, rfl, rfl⟩

/-- The root of a statement is a set operation as it stands, or a complete query. -/
theorem Fragment.toStatement_cases {root : Node} (run : f.toStatement.run names = (root, after)) :
    (∃ operator inputs, f.node = .setOp operator inputs ∧ root = .setOp operator inputs) ∨
    f.toQuery.run names = (root, after) := by
  unfold toStatement at run
  split at run
  · rename_i operator inputs own
    cases run
    exact .inl ⟨operator, inputs, own, rfl⟩
  · exact .inr run

end Drafts

/-- A plan that compiles has a fragment, which is the root of the statement. -/
theorem RemotePlan.fragment_of_toSql {p : RemotePlan} {s : Sql.Statement}
    (compiled : p.toSql = .ok s) :
    ∃ f middle after, Gives (p.compile p.convention.dialect) {} f middle ∧
      f.toStatement.run middle = (s.root, after) := by
  have whole : Gives (p.compileWith p.convention.dialect) {} s
      ((p.compileWith p.convention.dialect).run.run {}).2 := by
    unfold Gives
    rw [← compiled]
    rfl
  simp only [compileWith, gives_bind, gives_state, gives_pure] at whole
  obtain ⟨f, middle, run, root, after, stated, rfl, _⟩ := whole
  exact ⟨f, middle, after, run, stated⟩

/-! ## Induction over a run -/

/-- The queries of the inputs of a set operation, from left to right.  `Compiled` says what the
compiler makes of a single input. -/
inductive QueriesOf (Compiled : RemotePlan → Aliases → Fragment → Aliases → Prop) :
    List RemotePlan → Aliases → List Node → Aliases → Prop
  | nil {names : Aliases} : QueriesOf Compiled [] names [] names
  | cons {plan : RemotePlan} {rest : List RemotePlan} {names middle taken after : Aliases}
      {f : Fragment} {query : Node} {queries : List Node}
      (first : Compiled plan names f middle) (complete : f.toQuery.run middle = (query, taken))
      (others : QueriesOf Compiled rest taken queries after) :
      QueriesOf Compiled (plan :: rest) names (query :: queries) after

theorem QueriesOf.imp {P Q : RemotePlan → Aliases → Fragment → Aliases → Prop}
    {inputs : List RemotePlan} {names after : Aliases} {queries : List Node}
    (made : QueriesOf P inputs names queries after)
    (imp : ∀ input ∈ inputs, ∀ {names f after}, P input names f after → Q input names f after) :
    QueriesOf Q inputs names queries after := by
  induction made with
  | nil => exact .nil
  | cons first complete _ ih =>
    obtain ⟨head, tail⟩ := List.forall_mem_cons.mp imp
    exact .cons (head first) complete (ih tail)

/-- What the query of each input has exactly if the input has it, all queries have exactly if all
inputs have it. -/
theorem QueriesOf.forall_iff {Compiled : RemotePlan → Aliases → Fragment → Aliases → Prop}
    {P : RemotePlan → Prop} {Q : Node → Prop} {inputs : List RemotePlan} {names after : Aliases}
    {queries : List Node} (made : QueriesOf Compiled inputs names queries after)
    (each : ∀ {input names middle taken f query}, Compiled input names f middle →
      f.toQuery.run middle = (query, taken) → (Q query ↔ P input)) :
    (∀ query ∈ queries, Q query) ↔ ∀ input ∈ inputs, P input := by
  induction made with
  | nil => simp
  | cons first complete _ ih =>
    rw [List.forall_mem_cons, List.forall_mem_cons, each first complete, ih]

namespace RemotePlan

variable {dialect : Sql.Dialect}

theorem queriesOf_of_compileAll {motive : RemotePlan → Aliases → Fragment → Aliases → Prop}
    {inputs : List RemotePlan} {names after : Aliases} {queries : List Node}
    (ih : ∀ input ∈ inputs, ∀ {names f after}, Gives (input.compile dialect) names f after →
      motive input names f after)
    (run : Gives (compileAll dialect inputs) names queries after) :
    QueriesOf motive inputs names queries after := by
  induction inputs generalizing names queries with
  | nil =>
    obtain ⟨rfl, rfl⟩ := gives_pure.mp run
    exact .nil
  | cons plan rest tail =>
    obtain ⟨head, others⟩ := List.forall_mem_cons.mp ih
    simp only [compileAll, gives_bind, gives_state, gives_pure] at run
    obtain ⟨f, _, first, query, _, complete, queries, _, done, rfl, rfl⟩ := run
    exact .cons (head first) complete (tail others done)

theorem conditionExpr_eq_none_iff {program : Program} :
    program.conditionExpr = .ok none ↔ program.condition = none := by
  unfold Program.conditionExpr
  split
  · rename_i absent
    simp [absent]
  · rename_i index present
    rw [Except.map_eq_ok_iff]
    simp [present]

theorem conditionExpr_isSome {program : Program} {condition : Expr}
    (found : program.conditionExpr = .ok (some condition)) : program.condition.isSome = true := by
  cases present : program.condition with
  | none =>
    rw [conditionExpr_eq_none_iff.mpr present] at found
    cases found
  | some index => rfl

/-- What holds of each way to compile an operator, given that it holds of the runs for its inputs,
holds of every run that succeeds. -/
theorem compile_induction {motive : RemotePlan → Aliases → Fragment → Aliases → Prop}
    (scan : ∀ {convention fields table names name after},
      names.reserve table.baseName = (name, after) →
      motive ⟨convention, fields, .scan table⟩ names
        { node := .identifier table.name, clauses := .ofList [.source],
          sources := [⟨name, fields⟩], fields, chosen := some name } after)
    (join : ∀ {convention fields left right condition kind keys names middle compiled taken after}
      {leftFragment rightFragment : Fragment} {leftNode rightNode leftSources rightSources
        equalities},
      Gives (left.compile dialect) names leftFragment middle →
      motive left names leftFragment middle →
      Gives (right.compile dialect) middle rightFragment compiled →
      motive right middle rightFragment compiled →
      leftFragment.toSource.run compiled = ((leftNode, leftSources), taken) →
      rightFragment.toSource.run taken = ((rightNode, rightSources), after) →
      Scope.equalities (.ofColumns leftSources true) (.ofColumns rightSources true) keys =
        .ok equalities →
      motive ⟨convention, fields, .join left right condition kind keys⟩ names
        { node := .join ⟨leftNode, kind, rightNode, Node.conjunction? equalities⟩,
          clauses := .ofList [.source], sources := leftSources ++ rightSources, fields } after)
    (filter : ∀ {convention fields input condition names middle after} {child : Fragment}
      {draft : Draft} {node},
      Gives (input.compile dialect) names child middle → motive input names child middle →
      Drafted child [.selection] [] middle draft after →
      draft.scope.expression condition = .ok node →
      motive ⟨convention, fields, .filter input condition⟩ names
        ((draft.withSelection node).finish fields) after)
    (projectSame : ∀ {convention fields input projects names after} {child : Fragment},
      Gives (input.compile dialect) names child after → motive input names child after →
      (Expr.isIdentity projects input.fields.length && fields == input.fields) = true →
      motive ⟨convention, fields, .project input projects⟩ names child after)
    (project : ∀ {convention fields input projects names middle after} {child : Fragment}
      {draft : Draft} {items},
      Gives (input.compile dialect) names child middle → motive input names child middle →
      (Expr.isIdentity projects input.fields.length && fields == input.fields) = false →
      Drafted child [.select] [] middle draft after →
      draft.scope.expressions projects = .ok items →
      motive ⟨convention, fields, .project input projects⟩ names
        ((draft.withProjection (selectList fields items)).finish fields) after)
    (calculateSame : ∀ {convention fields input program names after} {child : Fragment},
      Gives (input.compile dialect) names child after → motive input names child after →
      (program.isStar && program.condition.isNone) = true →
      motive ⟨convention, fields, .calculate input program⟩ names child after)
    (calculateWhere : ∀ {convention fields input program names middle after} {child : Fragment}
      {draft : Draft} {condition node},
      Gives (input.compile dialect) names child middle → motive input names child middle →
      program.isStar = true →
      Drafted child [.source, .selection] [] middle draft after →
      program.conditionExpr = .ok (some condition) →
      draft.scope.expression condition = .ok node →
      motive ⟨convention, fields, .calculate input program⟩ names
        ((draft.withSelection node).finish fields) after)
    (calculateItems : ∀ {convention fields input program names middle after} {child : Fragment}
      {draft : Draft} {projects items},
      Gives (input.compile dialect) names child middle → motive input names child middle →
      program.isStar = false → program.condition = none →
      Drafted child [.source] [] middle draft after → program.projectExprs = .ok projects →
      draft.scope.expressions projects = .ok items →
      motive ⟨convention, fields, .calculate input program⟩ names
        ((draft.withProjection (selectList fields items)).finish fields) after)
    (calculateBoth : ∀ {convention fields input program names middle after} {child : Fragment}
      {draft : Draft} {projects items condition node},
      Gives (input.compile dialect) names child middle → motive input names child middle →
      program.isStar = false →
      Drafted child [.source, .selection] [] middle draft after →
      program.projectExprs = .ok projects → draft.scope.expressions projects = .ok items →
      program.conditionExpr = .ok (some condition) →
      draft.scope.expression condition = .ok node →
      motive ⟨convention, fields, .calculate input program⟩ names
        (((draft.withProjection (selectList fields items)).withSelection node).finish fields)
          after)
    (aggregate : ∀ {convention fields input groupSet groupingSets calls names middle after}
      {child : Fragment} {draft : Draft} {groups aggregates},
      Gives (input.compile dialect) names child middle → motive input names child middle →
      Drafted child [.groupBy] groupSet middle draft after →
      draft.scope.fields groupSet = .ok groups → draft.scope.aggregates calls = .ok aggregates →
      motive ⟨convention, fields, .aggregate input groupSet groupingSets calls⟩ names
        ((if groups.isEmpty && !calls.isEmpty then
            draft.withProjection (selectList fields (groups ++ aggregates))
          else
            (draft.withProjection (selectList fields (groups ++ aggregates))).withGroupBy
              groups).finish fields) after)
    (sort : ∀ {convention fields input keys names middle after} {child : Fragment}
      {draft : Draft} {items},
      Gives (input.compile dialect) names child middle → motive input names child middle →
      Drafted child [.orderBy] (keys.map (·.field)) middle draft after →
      draft.scope.ordering dialect keys = .ok items →
      motive ⟨convention, fields, .sort input keys⟩ names
        ((draft.withOrderBy items).finish fields) after)
    (set : ∀ {convention fields kind inputs all names queries after},
      QueriesOf (fun input names f after => Gives (input.compile dialect) names f after ∧
        motive input names f after) inputs names queries after →
      motive ⟨convention, fields, .set kind inputs all⟩ names
        (Fragment.ofQueries fields (kind.toSql all) queries) after)
    (row : ∀ {convention fields tuple names},
      motive ⟨convention, fields, .values [tuple]⟩ names
        { node := Fragment.tupleQuery fields tuple, clauses := .ofList [.select], sources := [],
          fields } names)
    (rows : ∀ {convention fields first second rest names},
      motive ⟨convention, fields, .values (first :: second :: rest)⟩ names
        (Fragment.ofQueries fields .unionAll
          ((first :: second :: rest).map (Fragment.tupleQuery fields))) names)
    {p : RemotePlan} {names after : Aliases} {f : Fragment}
    (run : Gives (p.compile dialect) names f after) : motive p names f after := by
  induction p generalizing names f after with
  | scan convention fields table =>
    simp only [compile, Fragment.scan, gives_bind, gives_state, gives_pure] at run
    obtain ⟨name, _, reserved, rfl, rfl⟩ := run
    exact scan reserved
  | join convention fields left right condition kind keys ihl ihr =>
    simp only [compile, Fragment.join, gives_bind, gives_state, gives_except, gives_pure] at run
    obtain ⟨_, _, leftRun, _, _, rightRun, ⟨_, _⟩, _, leftTaken, ⟨_, _⟩, _, rightTaken, _, _,
      ⟨equated, rfl⟩, rfl, rfl⟩ := run
    exact join leftRun (ihl leftRun) rightRun (ihr rightRun) leftTaken rightTaken equated
  | filter convention fields input condition ih =>
    simp only [compile, Fragment.filter, gives_bind, gives_state, gives_except, gives_pure] at run
    obtain ⟨child, _, childRun, draft, _, drafted, node, _, ⟨translated, rfl⟩, rfl, rfl⟩ := run
    exact filter childRun (ih childRun) (Fragment.drafted_of_draft drafted) translated
  | project convention fields input projects ih =>
    simp only [compile, gives_bind] at run
    obtain ⟨child, _, childRun, run⟩ := run
    split at run
    · rename_i same
      obtain ⟨rfl, rfl⟩ := gives_pure.mp run
      exact projectSame childRun (ih childRun) same
    · rename_i other
      simp only [Fragment.project, gives_bind, gives_state, gives_except, gives_pure] at run
      obtain ⟨draft, _, drafted, items, _, ⟨translated, rfl⟩, rfl, rfl⟩ := run
      exact project childRun (ih childRun) (Bool.eq_false_iff.mpr other)
        (Fragment.drafted_of_draft drafted) translated
  | calculate convention fields input program ih =>
    simp only [compile, gives_bind] at run
    obtain ⟨child, _, childRun, run⟩ := run
    split at run
    · rename_i same
      obtain ⟨rfl, rfl⟩ := gives_pure.mp run
      exact calculateSame childRun (ih childRun) same
    · rename_i other
      simp only [Fragment.calculate, gives_bind, gives_state] at run
      obtain ⟨draft, _, drafted, run⟩ := run
      have base := Fragment.drafted_of_draft drafted
      by_cases star : program.isStar = true
      · simp only [star, if_true, gives_bind, gives_except, gives_pure] at run
        obtain ⟨_, _, ⟨rfl, rfl⟩, condition?, _, ⟨found, rfl⟩, run⟩ := run
        cases condition? with
        | none => exact absurd (conditionExpr_eq_none_iff.mp found) (by simpa [star] using other)
        | some condition =>
          rw [if_pos (conditionExpr_isSome found)] at base
          simp only [gives_bind, gives_except, gives_pure] at run
          obtain ⟨node, _, ⟨selected, rfl⟩, rfl, rfl⟩ := run
          exact calculateWhere childRun (ih childRun) star base found selected
      · rw [Bool.not_eq_true] at star
        simp only [star, Bool.false_eq_true, if_false, gives_bind, gives_except,
          gives_pure] at run
        obtain ⟨projects, _, ⟨expanded, rfl⟩, items, _, ⟨translated, rfl⟩, _, _, ⟨rfl, rfl⟩,
          condition?, _, ⟨found, rfl⟩, run⟩ := run
        cases condition? with
        | none =>
          have absent := conditionExpr_eq_none_iff.mp found
          obtain ⟨rfl, rfl⟩ := gives_pure.mp run
          rw [absent] at base
          exact calculateItems childRun (ih childRun) star absent base expanded translated
        | some condition =>
          rw [if_pos (conditionExpr_isSome found)] at base
          simp only [gives_bind, gives_except, gives_pure] at run
          obtain ⟨node, _, ⟨selected, rfl⟩, rfl, rfl⟩ := run
          exact calculateBoth childRun (ih childRun) star base expanded translated found selected
  | aggregate convention fields input groupSet groupingSets calls ih =>
    simp only [compile, Fragment.aggregate, gives_bind, gives_state, gives_except,
      gives_pure] at run
    obtain ⟨child, _, childRun, draft, _, drafted, groups, _, ⟨grouped, rfl⟩, aggregates, _,
      ⟨aggregated, rfl⟩, rfl, rfl⟩ := run
    exact aggregate childRun (ih childRun) (Fragment.drafted_of_draftForKeys drafted) grouped
      aggregated
  | sort convention fields input keys ih =>
    simp only [compile, Fragment.sort, gives_bind, gives_state, gives_except, gives_pure] at run
    obtain ⟨child, _, childRun, draft, _, drafted, items, _, ⟨ordered, rfl⟩, rfl, rfl⟩ := run
    exact sort childRun (ih childRun) (Fragment.drafted_of_draftForKeys drafted) ordered
  | set convention fields kind inputs all ih =>
    simp only [compile, gives_bind, gives_pure] at run
    obtain ⟨queries, _, compiled, rfl, rfl⟩ := run
    exact set (queriesOf_of_compileAll (fun input member _ _ _ run => ⟨run, ih input member run⟩)
      compiled)
  | values convention fields tuples =>
    match tuples with
    | [] => exact (not_gives_throw run).elim
    | [tuple] =>
      obtain ⟨rfl, rfl⟩ := gives_pure.mp run
      exact row
    | first :: second :: rest =>
      obtain ⟨rfl, rfl⟩ := gives_pure.mp run
      exact rows
  | modify => exact (not_gives_throw run).elim

end RemotePlan

end Pushdown
