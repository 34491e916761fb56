import Pushdown.Proofs.Compile.Outline
import Pushdown.Proofs.Compile.Resolution
import Pushdown.Proofs.Compile.Scoping
import Pushdown.Proofs.Scalar.Expansion
import Pushdown.Proofs.Scalar.JoinKeys

/-!
# When a plan can be written

A converted plan has a statement unless one of its nodes has no SQL form
(`RemotePlan.Unwritable`): a table modification, constant rows without a row, a reference to a
shared expression outside a program, or a program that reads fields its input does not have.

The fields in the scope of a draft are as many as the input of the operator has, whichever clauses
the operators below have used: `Outline.Even` says so of the outline of a plan, and
`Fragment.Outlined.resolves` carries it to the draft.
-/

namespace Pushdown

open Sql (Node)

/-! ## Steps that succeed -/

/-- The step has a result when it is started with the names `names` taken. -/
def Succeeds {α : Type} (step : CompileM α) (names : Aliases) : Prop :=
  ∃ result after, Gives step names result after

section Steps

variable {α β : Type} {names : Aliases}

theorem succeeds_pure (a : α) : Succeeds (pure a) names := ⟨a, names, rfl⟩

theorem not_succeeds_throw {e : Error} : ¬ Succeeds (throw e : CompileM α) names := by
  intro succeeds
  rcases succeeds with ⟨_, _, gives⟩
  exact not_gives_throw gives

theorem succeeds_bind {step : CompileM α} {next : α → CompileM β} :
    Succeeds (step >>= next) names ↔
      ∃ a middle, Gives step names a middle ∧ Succeeds (next a) middle := by
  simp only [Succeeds, gives_bind]
  constructor
  · intro whole
    rcases whole with ⟨b, after, a, middle, first, second⟩
    exact ⟨a, middle, first, b, after, second⟩
  · intro both
    rcases both with ⟨a, middle, first, b, after, second⟩
    exact ⟨b, after, a, middle, first, second⟩

/-- Where the success of the second step does not depend on how the first went, each is to
succeed. -/
theorem succeeds_bind_iff {step : CompileM α} {next : α → CompileM β} {P : Prop}
    (second : ∀ a middle, Gives step names a middle → (Succeeds (next a) middle ↔ P)) :
    Succeeds (step >>= next) names ↔ Succeeds step names ∧ P := by
  rw [succeeds_bind]
  constructor
  · intro both
    rcases both with ⟨a, middle, first, done⟩
    exact ⟨⟨a, middle, first⟩, (second a middle first).mp done⟩
  · intro both
    rcases both with ⟨⟨a, middle, first⟩, holds⟩
    exact ⟨a, middle, first, (second a middle first).mpr holds⟩

/-- Taking names never fails. -/
theorem succeeds_state_bind {step : StateM Aliases α} {next : α → CompileM β} {P : Prop}
    (second : ∀ a middle, step.run names = (a, middle) → (Succeeds (next a) middle ↔ P)) :
    Succeeds ((liftM step : CompileM α) >>= next) names ↔ P := by
  rw [succeeds_bind_iff fun a middle first => second a middle (gives_state.mp first)]
  exact and_iff_right ⟨_, _, gives_state.mpr rfl⟩

theorem succeeds_except_bind {outcome : Except Error α} {next : α → CompileM β} :
    Succeeds ((liftM outcome : CompileM α) >>= next) names ↔
      ∃ a, outcome = .ok a ∧ Succeeds (next a) names := by
  simp only [succeeds_bind, gives_except]
  constructor
  · intro both
    rcases both with ⟨a, _, ⟨done, rfl⟩, second⟩
    exact ⟨a, done, second⟩
  · intro both
    rcases both with ⟨a, done, second⟩
    exact ⟨a, names, ⟨done, rfl⟩, second⟩

/-- A last step that only puts the result together. -/
theorem succeeds_except_pure {outcome : Except Error α} {result : α → β} :
    Succeeds ((liftM outcome : CompileM α) >>= fun a => pure (result a)) names ↔
      ∃ a, outcome = .ok a := by
  rw [succeeds_except_bind]
  exact exists_congr fun a => and_iff_left (succeeds_pure _)

end Steps

theorem RemotePlan.exists_toSql_iff {p : RemotePlan} :
    (∃ s, p.toSql = .ok s) ↔ Succeeds (p.compile p.convention.dialect) {} := by
  constructor
  · intro written
    rcases written with ⟨s, compiled⟩
    rcases fragment_of_toSql compiled with ⟨f, middle, _, run, _⟩
    exact ⟨f, middle, run⟩
  · intro compiles
    have whole : Succeeds (p.compileWith p.convention.dialect) {} := by
      refine (succeeds_bind_iff (P := True) fun f middle _ => ?_).mpr ⟨compiles, trivial⟩
      exact succeeds_state_bind fun _ _ _ => iff_true_intro (succeeds_pure _)
    rcases whole with ⟨s, after, run⟩
    exact ⟨s, congrArg Prod.fst run⟩

/-! ## As many fields as the plan has -/

namespace Outline

variable {o : Outline} {clauses : ClauseSet} {requested : List Clause} {keys : List Nat}

/-- The query has as many columns as fields: a join in its row sources, a query in its select
list. -/
def Even (o : Outline) : Prop :=
  match o.form with
  | .relation => True
  | .join => o.columns.length = o.fields.length
  | .query => o.items.length = o.fields.length

theorem wrapped_form : (o.wrapped clauses).form = .query := by
  unfold wrapped
  split <;> rfl

/-- As a row source, a fragment has a column for each of its fields. -/
theorem Even.wrapped_columns (even : o.Even) :
    (o.wrapped clauses).columns.length = o.fields.length := by
  unfold Even at even
  unfold wrapped
  split
  · rename_i join
    rw [join] at even
    exact even
  · rfl

theorem Even.wrapped_items (even : o.Even) :
    (o.wrapped clauses).items.length = o.fields.length := by
  have star : (o.wrapped clauses).list = none := by
    unfold wrapped
    split <;> rfl
  have columns : (o.wrapped clauses).columns.length = o.fields.length := even.wrapped_columns
  rw [items, star]
  simpa [columnItems] using columns

theorem draft_form : (o.draft requested keys).form = .query := by
  unfold draft
  split
  · exact wrapped_form
  · split
    · rename_i query
      exact query
    · exact wrapped_form

/-- A draft has a field for each field of the fragment. -/
theorem Even.draft_items (even : o.Even) :
    (o.draft requested keys).items.length = o.fields.length := by
  unfold draft
  split
  · exact even.wrapped_items
  · split
    · rename_i query
      unfold Even at even
      rw [query] at even
      exact even
    · exact even.wrapped_items

/-- A draft that keeps its select list keeps the fields. -/
theorem Even.draft (even : o.Even) {fields : Fields} (same : fields = o.fields) :
    ({ o.draft requested keys with fields } : Outline).Even := by
  simp only [Even, draft_form]
  rw [same]
  exact even.draft_items

theorem even_withList {fields : Fields} {listed : List Item}
    (length : listed.length = fields.length)
    (form : o.form = .query) : (o.withList fields listed).Even := by
  simp only [Even, withList, form]
  exact length

end Outline

namespace RemotePlan

variable {p : RemotePlan} {dialect : Sql.Dialect}

/-- The rules saw to the node, and its program, if it has one, is one for its input. -/
def Fit (p : RemotePlan) : Prop := p.Sound ∧ p.ProgramFits

/-- The outline of a plan has the fields of the plan. -/
theorem even_outline (fit : p.Everywhere Fit) : p.outline.fields = p.fields ∧ p.outline.Even := by
  induction p with
  | scan convention fields table => exact ⟨rfl, trivial⟩
  | join convention fields left right condition kind keys ihl ihr =>
    rcases fit.root with ⟨⟨joined, _⟩, _⟩
    rcases ihl (fit.input (.head _)) with ⟨leftFields, leftEven⟩
    rcases ihr (fit.input (.tail _ (.head _))) with ⟨rightFields, rightEven⟩
    dsimp only at joined
    refine ⟨rfl, ?_⟩
    simp only [outline, Outline.Even]
    rw [List.length_append, leftEven.wrapped_columns, rightEven.wrapped_columns, leftFields,
      rightFields, joined, Fields.joined_length]
  | filter convention fields input condition ih =>
    rcases fit.root with ⟨⟨same, _⟩, _⟩
    rcases ih (fit.input (.head _)) with ⟨inputFields, even⟩
    rw [outline]
    exact ⟨rfl, even.draft (same.trans inputFields.symm)⟩
  | project convention fields input projects ih =>
    rcases fit.root with ⟨⟨length, _⟩, _⟩
    rcases ih (fit.input (.head _)) with ⟨inputFields, even⟩
    rw [outline]
    split
    · rename_i identity
      rw [Bool.and_eq_true, beq_iff_eq] at identity
      exact ⟨inputFields.trans identity.2.symm, even⟩
    · exact ⟨rfl, Outline.even_withList (by simpa using length) Outline.draft_form⟩
  | calculate convention fields input program ih =>
    rcases fit.root with ⟨⟨output, _⟩, built, same⟩
    rcases ih (fit.input (.head _)) with ⟨inputFields, even⟩
    dsimp only at output
    rw [outline]
    by_cases star : program.isStar = true
    · have unchanged : fields = input.outline.fields := by
        rw [output, output_of_isStar star, same, inputFields]
      split
      · exact ⟨unchanged.symm, even⟩
      · exact ⟨rfl, even.draft unchanged⟩
    · rcases built.toChecked.exists_projectExprs with ⟨es, expanded, _⟩
      rw [if_neg (by simp [star])]
      dsimp only
      rw [if_neg star]
      refine ⟨rfl, Outline.even_withList ?_ Outline.draft_form⟩
      rw [List.length_map, expanded, output, ← built.length_eq,
        ← Program.length_of_projectExprs expanded]
      rfl
  | aggregate convention fields input groupSet groupingSets calls ih =>
    rcases fit.root with ⟨⟨named, _⟩, _⟩
    dsimp only at named
    rw [outline]
    refine ⟨rfl, Outline.even_withList ?_ Outline.draft_form⟩
    rw [named, aggregateFields_length, List.length_append, List.length_map, List.length_map]
  | sort convention fields input keys ih =>
    rcases fit.root with ⟨⟨same, _⟩, _⟩
    rcases ih (fit.input (.head _)) with ⟨inputFields, even⟩
    rw [outline]
    exact ⟨rfl, even.draft (same.trans inputFields.symm)⟩
  | set convention fields kind inputs all ih => exact ⟨rfl, trivial⟩
  | values convention fields tuples =>
    have even := fit.root.1
    rcases tuples with _ | ⟨first, _ | ⟨second, rest⟩⟩
    · exact ⟨rfl, trivial⟩
    · refine ⟨rfl, ?_⟩
      change (first.map _).length = _
      rw [List.length_map]
      exact even first (.head _)
    · exact ⟨rfl, trivial⟩
  | modify convention fields table input operation updateColumns flattened target query ih =>
    exact ⟨rfl, trivial⟩

end RemotePlan

/-! ## Operators -/

section Operators

variable {f g : Fragment} {o l r : Outline} {names after : Aliases} {fields : Fields}

/-- The fields in the scope of a draft are those of the fragment. -/
theorem Fragment.Outlined.resolves (outlined : f.Outlined o) (even : o.Even)
    {requested : List Clause} {keys : List Nat} {d : Draft}
    (drafted : Drafted f requested keys names d after) {c : Clause} (asked : c ∈ requested)
    (early : c.rank ≤ Clause.orderBy.rank) : d.scope.Resolves o.fields.length := by
  rcases outlined.draft drafted asked early with ⟨fits, _, _⟩
  have width : (o.draft requested keys).items.length = o.fields.length := even.draft_items
  intro ordinal
  rw [drafted.scope_eq, Scope.exists_field_iff, ← Option.isSome_map (f := Item.ofNode),
    fits.field?, ← width]
  simp

/-- A fragment as a row source has as many columns as fields. -/
theorem Fragment.Outlined.resolves_toSource (outlined : f.Outlined o) (even : o.Even)
    {node : Node} {sources : List Source} (run : f.toSource.run names = ((node, sources), after))
    (qualified : Bool) : (Scope.ofColumns sources qualified).Resolves o.fields.length := by
  rcases outlined.toSource run .empty with ⟨_, columns, _⟩
  have width : (Scope.ofColumns sources qualified).width = o.fields.length := by
    rw [Scope.width, ← columns, even.wrapped_columns]
  rw [← width]
  exact Scope.resolves_width _

theorem Fragment.succeeds_join (left : f.Outlined l) (right : g.Outlined r) (leftEven : l.Even)
    (rightEven : r.Even) {kind : JoinKind} {keys : List (Nat × Nat)} :
    Succeeds (Fragment.join fields kind keys f g) names ↔
      ∀ key ∈ keys, key.1 < l.fields.length ∧ key.2 < r.fields.length := by
  unfold Fragment.join
  refine succeeds_state_bind fun leftSource taken leftTaken => ?_
  refine succeeds_state_bind fun rightSource after rightTaken => ?_
  rw [succeeds_except_pure]
  exact (left.resolves_toSource leftEven leftTaken true).equalities
    (right.resolves_toSource rightEven rightTaken true)

theorem Fragment.succeeds_filter (outlined : f.Outlined o) (even : o.Even) {condition : Expr} :
    Succeeds (Fragment.filter fields condition f) names ↔ condition.Over o.fields.length := by
  unfold Fragment.filter
  refine succeeds_state_bind fun d after drafted => ?_
  rw [succeeds_except_pure]
  exact (outlined.resolves even (drafted_of_draft drafted) (.head _) (by decide)).expression

theorem Fragment.succeeds_project (outlined : f.Outlined o) (even : o.Even)
    {projects : List Expr} :
    Succeeds (Fragment.project fields projects f) names ↔
      ∀ e ∈ projects, e.Over o.fields.length := by
  unfold Fragment.project
  refine succeeds_state_bind fun d after drafted => ?_
  rw [succeeds_except_pure]
  exact (outlined.resolves even (drafted_of_draft drafted) (.head _) (by decide)).expressions

theorem Fragment.succeeds_calculate (outlined : f.Outlined o) (even : o.Even) {program : Program}
    {projects : List Expr} {condition : Option Expr}
    (expanded : program.projectExprs = .ok projects)
    (found : program.conditionExpr = .ok condition) :
    Succeeds (Fragment.calculate fields program f) names ↔
      (program.isStar = false → ∀ e ∈ projects, e.Over o.fields.length) ∧
        ∀ e ∈ condition, e.Over o.fields.length := by
  unfold Fragment.calculate
  refine succeeds_state_bind fun d after drafted => ?_
  have asked : .source ∈
      (if program.condition.isSome then [Clause.source, .selection] else [Clause.source]) := by
    split <;> simp
  have resolves := outlined.resolves even (drafted_of_draft drafted) asked (by decide)
  by_cases star : program.isStar = true
  · simp only [star, if_true, pure_bind]
    rw [succeeds_except_bind]
    simp only [found, Except.ok.injEq, exists_eq_left', Bool.true_eq_false,
      false_implies, true_and]
    cases condition with
    | none => exact iff_of_true (succeeds_pure _) nofun
    | some e =>
      rw [succeeds_except_pure, resolves.expression]
      simp
  · rw [Bool.not_eq_true] at star
    simp only [star, Bool.false_eq_true, if_false, pure_bind, true_implies]
    rw [succeeds_except_bind]
    simp only [expanded, Except.ok.injEq, exists_eq_left']
    rw [succeeds_except_bind, ← resolves.expressions, ← exists_and_right]
    refine exists_congr fun items => and_congr_right fun _ => ?_
    rw [succeeds_except_bind]
    simp only [found, Except.ok.injEq, exists_eq_left']
    cases condition with
    | none => exact iff_of_true (succeeds_pure _) nofun
    | some e =>
      rw [succeeds_except_pure, Draft.withProjection, resolves.expression]
      simp

theorem Fragment.succeeds_aggregate (outlined : f.Outlined o) (even : o.Even)
    {groupSet : List Nat} {calls : List AggregateCall} :
    Succeeds (Fragment.aggregate fields groupSet calls f) names ↔
      (∀ i ∈ groupSet, i < o.fields.length) ∧
        ∀ call ∈ calls, ∀ i ∈ call.args, i < o.fields.length := by
  unfold Fragment.aggregate
  refine succeeds_state_bind fun d after drafted => ?_
  have resolves := outlined.resolves even (drafted_of_draftForKeys drafted) (.head _) (by decide)
  rw [← resolves.fields, ← resolves.aggregates, succeeds_except_bind, ← exists_and_right]
  exact exists_congr fun groups => and_congr_right fun _ => succeeds_except_pure

theorem Fragment.succeeds_sort (outlined : f.Outlined o) (even : o.Even) {dialect : Sql.Dialect}
    {keys : List SortKey} :
    Succeeds (Fragment.sort dialect fields keys f) names ↔
      ∀ key ∈ keys, key.field < o.fields.length := by
  unfold Fragment.sort
  refine succeeds_state_bind fun d after drafted => ?_
  rw [succeeds_except_pure]
  exact (outlined.resolves even (drafted_of_draftForKeys drafted) (.head _) (by decide)).ordering

end Operators

/-! ## Plans -/

/-- Expressions that are the fields of a row are over these. -/
theorem Expr.over_of_isIdentity {es : List Expr} {width : Nat}
    (identity : isIdentity es width = true) : ∀ e ∈ es, e.Over width := by
  rw [isIdentity_iff.mp identity, List.forall_mem_map]
  intro ordinal within
  simpa [Over, sharedRefs, inputs] using within

theorem Program.over_of_isStar {program : Program} {projects : List Expr}
    (star : program.isStar = true) (expanded : program.projectExprs = .ok projects) :
    ∀ e ∈ projects, e.Over program.input.length := by
  rw [isStar, Bool.and_eq_true, expanded] at star
  exact Expr.over_of_isIdentity star.2

namespace RemotePlan

variable {p : RemotePlan} {dialect : Sql.Dialect}

/-- The node has no SQL form, whatever its inputs are. -/
def Unwritable (p : RemotePlan) : Prop :=
  match p.op with
  | .modify .. => True
  | .values tuples => tuples = []
  | .filter _ condition => condition.sharedRefs ≠ []
  | .project _ projects => ∃ e ∈ projects, e.sharedRefs ≠ []
  | .calculate input program =>
    (∃ projects, program.projectExprs = .ok projects ∧
      ∃ e ∈ projects, ∃ i ∈ e.inputs, input.fields.length ≤ i) ∨
    ∃ condition, program.conditionExpr = .ok (some condition) ∧
      ∃ i ∈ condition.inputs, input.fields.length ≤ i
  | _ => False

/-- The keys of a join, the group columns and arguments of an aggregate and the keys of a sort are
found in whatever its inputs compile to. -/
def KeysResolve (dialect : Sql.Dialect) (p : RemotePlan) : Prop :=
  match p.op with
  | .join left right _ kind keys => ∀ {names middle after f g},
    Gives (left.compile dialect) names f middle → Gives (right.compile dialect) middle g after →
      Succeeds (Fragment.join p.fields kind keys f g) after
  | .aggregate input groupSet _ calls => ∀ {names after f},
    Gives (input.compile dialect) names f after →
      Succeeds (Fragment.aggregate p.fields groupSet calls f) after
  | .sort input keys => ∀ {names after f},
    Gives (input.compile dialect) names f after →
      Succeeds (Fragment.sort dialect p.fields keys f) after
  | _ => True

/-- What a plan compiles to has its outline, in which there is a column for each field. -/
theorem outlined_of_fit (fit : p.Everywhere Fit) {names after : Aliases} {f : Fragment}
    (run : Gives (p.compile dialect) names f after) :
    f.Outlined p.outline ∧ p.outline.fields = p.fields ∧ p.outline.Even :=
  ⟨compile_fits run fun part member => (fit part member).1, even_outline fit⟩

theorem keysResolve_of_fit (fit : p.Everywhere Fit) : p.KeysResolve dialect := by
  rcases p with ⟨convention, fields, op⟩
  have sound := fit.root.1
  cases op with
  | join left right condition kind keys =>
    intro names middle after f g leftRun rightRun
    rcases outlined_of_fit (fit.input (.head _)) leftRun with ⟨leftOut, leftFields, leftEven⟩
    rcases outlined_of_fit (fit.input (.tail _ (.head _))) rightRun with
      ⟨rightOut, rightFields, rightEven⟩
    rcases sound with ⟨_, pairs, _, _⟩
    rw [Fragment.succeeds_join leftOut rightOut leftEven rightEven, leftFields,
      rightFields, pairs]
    exact fun key member => JoinKeys.lt_of_mem_pairs member
  | aggregate input groupSet groupingSets calls =>
    intro names after f run
    rcases outlined_of_fit (fit.input (.head _)) run with ⟨outlined, inputFields, even⟩
    rcases checkAggregate_eq_ok_iff.mp sound.2 with ⟨groups, _, _, arguments⟩
    rw [Fragment.succeeds_aggregate outlined even, inputFields]
    exact ⟨groups, arguments⟩
  | sort input keys =>
    intro names after f run
    rcases outlined_of_fit (fit.input (.head _)) run with ⟨outlined, inputFields, even⟩
    rw [Fragment.succeeds_sort outlined even, inputFields]
    exact sound.2
  | _ => trivial

theorem everywhere_keysResolve (fit : p.Everywhere Fit) : p.Everywhere (KeysResolve dialect) := by
  induction p using inputs_induction with
  | step p ih =>
    rw [everywhere_iff]
    exact ⟨keysResolve_of_fit fit, fun input member => ih input member (fit.input member)⟩

theorem succeeds_compileAll {inputs : List RemotePlan} {P : RemotePlan → Prop} {names : Aliases}
    (each : ∀ input ∈ inputs, ∀ names, Succeeds (input.compile dialect) names ↔ P input) :
    Succeeds (compileAll dialect inputs) names ↔ ∀ input ∈ inputs, P input := by
  induction inputs generalizing names with
  | nil => exact iff_of_true (succeeds_pure _) nofun
  | cons input rest ih =>
    rcases List.forall_mem_cons.mp each with ⟨head, tail⟩
    rw [compileAll, List.forall_mem_cons, ← head names]
    refine succeeds_bind_iff fun f middle _ => succeeds_state_bind fun query after _ => ?_
    rw [succeeds_bind_iff (P := True) fun _ _ _ => iff_true_intro (succeeds_pure _), ih tail]
    exact and_iff_left trivial

/-- A program reads no field that its input lacks when its expansions are over the input alone. -/
theorem not_unwritable_calculate_iff {convention : Convention} {fields : Fields}
    {input : RemotePlan} {program : Program} {projects : List Expr} {condition : Option Expr}
    (expanded : program.projectExprs = .ok projects) (free : ∀ e ∈ projects, e.sharedRefs = [])
    (found : program.conditionExpr = .ok condition) (bound : ∀ e ∈ condition, e.sharedRefs = []) :
    ¬ (RemotePlan.mk convention fields (.calculate input program)).Unwritable ↔
      (∀ e ∈ projects, e.Over input.fields.length) ∧
      ∀ e ∈ condition, e.Over input.fields.length := by
  simp only [Unwritable, expanded, found, Except.ok.injEq, exists_eq_left', not_or, not_exists,
    not_and, Nat.not_le, Expr.Over]
  refine and_congr (forall₂_congr fun e member => ?_) (forall₂_congr fun e member => ?_)
  · exact (and_iff_right (free e member)).symm
  · exact (and_iff_right (bound e member)).symm

/-- A plan compiles unless one of its nodes has no SQL form. -/
theorem succeeds_compile_iff (fit : p.Everywhere Fit) (names : Aliases) :
    Succeeds (p.compile dialect) names ↔ p.Everywhere fun part => ¬ part.Unwritable := by
  have single {p input : RemotePlan} (only : p.inputs = [input]) :
      (p.Everywhere fun part => ¬ part.Unwritable) ↔
        (input.Everywhere fun part => ¬ part.Unwritable) ∧ ¬ p.Unwritable := by
    rw [everywhere_iff, only, List.forall_mem_singleton, and_comm]
  induction p generalizing names with
  | scan convention fields table =>
    have reserved : Succeeds (Fragment.scan table fields) names :=
      (succeeds_state_bind (P := True) fun _ _ _ => iff_true_intro (succeeds_pure _)).mpr trivial
    rw [everywhere_iff]
    exact iff_of_true reserved ⟨id, List.forall_mem_nil _⟩
  | join convention fields left right condition kind keys ihl ihr =>
    have leftFit := fit.input (.head _)
    have rightFit := fit.input (.tail _ (.head _))
    have keyed : KeysResolve dialect ⟨convention, fields, .join left right condition kind keys⟩ :=
      keysResolve_of_fit fit
    rw [compile]
    refine (succeeds_bind_iff (P := right.Everywhere fun part => ¬ part.Unwritable)
      fun f middle leftRun => ?_).trans ?_
    · refine (succeeds_bind_iff fun g after rightRun =>
        iff_true_intro (keyed leftRun rightRun)).trans ?_
      exact (and_iff_left trivial).trans (ihr rightFit middle)
    · refine (and_congr_left fun _ => ihl leftFit names).trans (Iff.symm ?_)
      refine (everywhere_iff _).trans ?_
      change (¬ False ∧ ∀ input ∈ [left, right], input.Everywhere _) ↔ _
      simp
  | filter convention fields input condition ih =>
    have below := fit.input (.head _)
    rw [compile, single rfl]
    refine (succeeds_bind_iff fun child middle run => ?_).trans
      (and_congr_left fun _ => ih below names)
    rcases outlined_of_fit below run with ⟨outlined, inputFields, even⟩
    rw [Fragment.succeeds_filter outlined even, inputFields]
    simpa [Unwritable, Expr.Over] using fun _ => fit.root.1.2
  | project convention fields input projects ih =>
    have below := fit.input (.head _)
    rw [compile, single rfl]
    refine (succeeds_bind_iff fun child middle run => ?_).trans
      (and_congr_left fun _ => ih below names)
    have inRange := fit.root.1.2
    have writable : ¬ Unwritable ⟨convention, fields, .project input projects⟩ ↔
        ∀ e ∈ projects, e.Over input.fields.length := by
      simp only [Unwritable, not_exists, not_and, not_not, Expr.Over]
      exact forall₂_congr fun e member => (and_iff_left (inRange e member)).symm
    rw [writable]
    split
    · rename_i identity
      rw [Bool.and_eq_true] at identity
      exact iff_of_true (succeeds_pure _) (Expr.over_of_isIdentity identity.1)
    · rcases outlined_of_fit below run with ⟨outlined, inputFields, even⟩
      rw [Fragment.succeeds_project outlined even, inputFields]
  | calculate convention fields input program ih =>
    have below := fit.input (.head _)
    rcases fit.root.2 with ⟨built, same⟩
    rcases built.toChecked.exists_projectExprs with ⟨projects, expanded, free⟩
    rcases built.toChecked.exists_conditionExpr with ⟨condition, found, bound⟩
    rw [compile, single rfl]
    refine (succeeds_bind_iff fun child middle run => ?_).trans
      (and_congr_left fun _ => ih below names)
    rw [not_unwritable_calculate_iff expanded free found bound, ← same]
    split
    · rename_i star
      rw [Bool.and_eq_true, Option.isNone_iff_eq_none] at star
      rw [conditionExpr_eq_none_iff.mpr star.2] at found
      cases found
      refine iff_of_true (succeeds_pure _) ⟨Program.over_of_isStar star.1 expanded, ?_⟩
      exact fun e known => absurd known (Option.not_mem_none e)
    · rcases outlined_of_fit below run with ⟨outlined, inputFields, even⟩
      rw [Fragment.succeeds_calculate outlined even expanded found, inputFields, same]
      refine and_congr_left fun _ => ⟨fun other => ?_, fun all _ => all⟩
      cases star : program.isStar with
      | true =>
        rw [← same]
        exact Program.over_of_isStar star expanded
      | false => exact other star
  | aggregate convention fields input groupSet groupingSets calls ih =>
    have keyed : KeysResolve dialect
        ⟨convention, fields, .aggregate input groupSet groupingSets calls⟩ :=
      keysResolve_of_fit fit
    rw [compile, single rfl]
    exact (succeeds_bind_iff fun child middle run => iff_of_true (keyed run) id).trans
      (and_congr_left fun _ => ih (fit.input (.head _)) names)
  | sort convention fields input keys ih =>
    have keyed : KeysResolve dialect ⟨convention, fields, .sort input keys⟩ :=
      keysResolve_of_fit fit
    rw [compile, single rfl]
    exact (succeeds_bind_iff fun child middle run => iff_of_true (keyed run) id).trans
      (and_congr_left fun _ => ih (fit.input (.head _)) names)
  | set convention fields kind inputs all ih =>
    rw [compile, everywhere_iff,
      succeeds_bind_iff (P := True) fun _ _ _ => iff_true_intro (succeeds_pure _),
      succeeds_compileAll fun input member names => ih input member (fit.input member) names]
    exact and_comm.trans (and_congr_left fun _ => iff_of_true trivial id)
  | values convention fields tuples =>
    rw [compile, everywhere_iff]
    rcases tuples with _ | ⟨first, _ | ⟨second, rest⟩⟩
    · exact iff_of_false not_succeeds_throw fun all => all.1 rfl
    · exact iff_of_true (succeeds_pure _) ⟨List.cons_ne_nil _ _, List.forall_mem_nil _⟩
    · exact iff_of_true (succeeds_pure _) ⟨List.cons_ne_nil _ _, List.forall_mem_nil _⟩
  | modify convention fields table input operation updateColumns flattened target query ih =>
    exact iff_of_false not_succeeds_throw fun all => all.root trivial

end RemotePlan

/-- A converted plan, whose programs were checked and are ones for their inputs, fails to compile
exactly when one of its nodes has no SQL form.  Keys, group columns and aggregate arguments are
always found. -/
theorem RuleSet.toSql_fails_iff {rs : RuleSet} {plan : Plan} {p : RemotePlan}
    (converted : rs.convert plan = .ok (some p))
    (programs : p.Everywhere RemotePlan.ProgramFits) :
    ((∃ e, p.toSql = .error e) ↔ ∃ part ∈ p.parts, part.Unwritable) ∧
      ∀ dialect, p.Everywhere (RemotePlan.KeysResolve dialect) := by
  have fit : p.Everywhere RemotePlan.Fit := fun part member =>
    ⟨convert_sound converted part member, programs part member⟩
  refine ⟨?_, fun dialect => RemotePlan.everywhere_keysResolve fit⟩
  have written := RemotePlan.exists_toSql_iff.trans
    (RemotePlan.succeeds_compile_iff fit {})
  have failed : (∃ e, p.toSql = .error e) ↔ ¬ ∃ s, p.toSql = .ok s := by
    cases p.toSql <;> simp
  rw [failed, written, RemotePlan.Everywhere]
  simp only [not_forall, not_not, exists_prop]

namespace Staff

/-- Of an employee, a sum with a third field, which employees do not have. -/
def beyond : Program where
  input := ["id", "boss"]
  exprs := [.input 0, .scalarCall .plus [.shared 0, .input 2]]
  projects := [0, 1]
  condition := none
  output := ["id", "sum"]

/-- An order of the rows of such a program. -/
def strayed : Plan :=
  .sort (.calculate (.scan employees) beyond) [⟨1, .ascending, .unspecified⟩] none none

theorem strayed_programFits : (strayed.boundTo database).Everywhere RemotePlan.ProgramFits := by
  have built : beyond.Built := .checked (p := beyond) rfl
  simp only [RemotePlan.Everywhere, strayed, Plan.boundTo, RemotePlan.parts, List.forall_mem_cons,
    RemotePlan.ProgramFits]
  exact ⟨trivial, ⟨built, rfl⟩, trivial, by simp⟩

end Staff

open Staff in
theorem RuleSet.toSql_fails_iff_strayed :
    ∃ p, (RuleSet.full database).convert strayed = .ok (some p) ∧
      p.Everywhere RemotePlan.ProgramFits ∧ p.toSql = .error (.fieldOutOfRange 2 2) ∧
      ((∃ e, p.toSql = .error e) ↔ ∃ part ∈ p.parts, part.Unwritable) ∧
        ∀ dialect, p.Everywhere (RemotePlan.KeysResolve dialect) := by
  have converted :
      (RuleSet.full database).convert strayed = .ok (some (strayed.boundTo database)) := rfl
  exact ⟨_, converted, strayed_programFits, rfl,
    RuleSet.toSql_fails_iff converted strayed_programFits⟩

end Pushdown
