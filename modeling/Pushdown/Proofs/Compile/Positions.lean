import Mathlib.Data.Nat.PSub
import Pushdown.Proofs.Compile.Resolution

/-!
# Fields by position

A scope of sources numbers the fields of all of them, one source after the other.  To find a field
the compiler walks along the sources and takes the width of each that it leaves behind off the
offset.  `Scope.Locates` says without a walk where a position falls: which name stands there when
the fields are laid end to end, and which source the name is of.  The walk ends at that name, also
when sources without fields lie on its way, and it never takes off more than is left
(`Scope.exactColumn?_eq`).

Over the fields in scope an expression keeps its form: `Scope.Mirrors` relates it to its SQL node
by node.
-/

namespace Pushdown

open Sql (Node)

/-- The SQL operator that an operator of a plan becomes: one that SQL has too stays itself, and
for each multiset operator there is a function. -/
inductive PlanOp.Becomes : PlanOp → Sql.Operator → Prop
  | scalar (op : ScalarOp) : Becomes (.scalar op) (.scalar op)
  | collect : Becomes (.multiset .collect) (.scalar (.function "MULTISET"))
  | union : Becomes (.multiset .union) (.scalar (.function "MULTISET_UNION"))
  | intersect : Becomes (.multiset .intersect) (.scalar (.function "MULTISET_INTERSECT"))
  | except : Becomes (.multiset .except) (.scalar (.function "MULTISET_EXCEPT"))
  | subset : Becomes (.multiset .subset) (.scalar (.function "SUBMULTISET_OF"))
  | member : Becomes (.multiset .member) (.scalar (.function "MEMBER_OF"))
  | cardinality : Becomes (.multiset .cardinality) (.scalar (.function "CARDINALITY"))
  | element : Becomes (.multiset .element) (.scalar (.function "ELEMENT"))

theorem PlanOp.becomes_iff {op : PlanOp} {operator : Sql.Operator} :
    op.Becomes operator ↔ op.toSql = operator := by
  constructor
  · intro becomes
    cases becomes <;> rfl
  · rintro rfl
    cases op with
    | scalar op => exact .scalar op
    | multiset op => cases op <;> constructor

namespace Scope

section Locating

variable {qualified : Bool} {source owner : Source} {sources rest : List Source}
  {ordinal offset : Nat} {name : String} {node : Node}

/-- The name stands at the position when the fields of the sources are laid end to end, and it is
one of the owner's own: the position is as far beyond the fields before the owner as the name is
within it. -/
structure Locates (sources : List Source) (ordinal : Nat) (owner : Source) (name : String) :
    Prop where
  entry : (sources.flatMap (·.fields))[ordinal]? = some name
  own : ∃ before after offset, sources = before ++ owner :: after ∧
    ordinal = (before.flatMap (·.fields)).length + offset ∧ owner.fields[offset]? = some name

theorem locates_of_own (before after : List Source) (found : owner.fields[offset]? = some name) :
    Locates (before ++ owner :: after) ((before.flatMap (·.fields)).length + offset)
      owner name where
  entry := by
    obtain ⟨within, _⟩ := List.getElem?_eq_some_iff.mp found
    rw [List.flatMap_append, List.flatMap_cons, List.getElem?_append_right (Nat.le_add_right _ _),
      Nat.add_sub_cancel_left, List.getElem?_append_left within, found]
  own := ⟨before, after, offset, rfl, rfl, found⟩

/-- Every position among the fields falls into a source. -/
theorem exists_locates (within : ordinal < (sources.flatMap (·.fields)).length) :
    ∃ owner name, Locates sources ordinal owner name := by
  induction sources generalizing ordinal with
  | nil => exact absurd within (Nat.not_lt_zero _)
  | cons source rest ih =>
    by_cases near : ordinal < source.fields.length
    · have here := locates_of_own [] rest (List.getElem?_eq_getElem near)
      exact ⟨source, _, by simpa using here⟩
    · obtain ⟨offset, rfl⟩ := Nat.exists_eq_add_of_le (Nat.not_lt.mp near)
      rw [List.flatMap_cons, List.length_append] at within
      obtain ⟨owner, name, located⟩ := ih (Nat.lt_of_add_lt_add_left within)
      obtain ⟨before, after, _, rfl, rfl, found⟩ := located.own
      have later := locates_of_own (source :: before) after found
      rw [List.flatMap_cons, List.length_append, Nat.add_assoc] at later
      exact ⟨owner, name, later⟩

/-- One turn of the walk: a source that ends before the field is left behind. -/
theorem column?_pass :
    column? qualified (source :: rest) (source.fields.length + offset) =
      column? qualified rest offset := by
  have beyond : source.fields[source.fields.length + offset]? = none :=
    List.getElem?_eq_none (Nat.le_add_right _ _)
  simp only [column?, beyond, Nat.add_sub_cancel_left]

/-- The walk past any number of sources: the offset is what the position is beyond all of them. -/
theorem column?_beyond (before : List Source) :
    column? qualified (before ++ rest) ((before.flatMap (·.fields)).length + offset) =
      column? qualified rest offset := by
  induction before with
  | nil => rw [List.nil_append, List.flatMap_nil, List.length_nil, Nat.zero_add]
  | cons source before ih =>
    rw [List.cons_append, List.flatMap_cons, List.length_append, Nat.add_assoc, column?_pass, ih]

theorem Locates.column? (located : Locates sources ordinal owner name) :
    column? qualified sources ordinal =
      some (.identifier (if qualified then [owner.name, name] else [name])) := by
  obtain ⟨before, after, offset, rfl, rfl, found⟩ := located.own
  rw [column?_beyond, Scope.column?, found]

/-- A field of the sources is the name at its position, under the name of the source it is of. -/
theorem field_ofColumns_iff :
    (ofColumns sources qualified).field ordinal = .ok node ↔
      ∃ owner name, Locates sources ordinal owner name ∧
        node = .identifier (if qualified then [owner.name, name] else [name]) := by
  constructor
  · intro resolved
    have within := (resolves_width (ofColumns sources qualified) ordinal).mp ⟨node, resolved⟩
    obtain ⟨owner, name, located⟩ := exists_locates within
    have found := field_eq_ok_iff.mp resolved
    rw [field?, located.column?] at found
    exact ⟨owner, name, located, (Option.some.inj found).symm⟩
  · rintro ⟨owner, name, located, rfl⟩
    exact field_eq_ok_iff.mpr located.column?

/-- The walk along the sources with a subtraction that fails below zero; `none` tells
that it did. -/
def exactColumn? (qualified : Bool) : List Source → Nat → Option (Option Node)
  | [], _ => some none
  | source :: rest, offset =>
    match source.fields[offset]? with
    | some name => some (some (.identifier (if qualified then [source.name, name] else [name])))
    | none => (offset.psub source.fields.length).bind (exactColumn? qualified rest)

/-- The offset never falls below zero. -/
theorem exactColumn?_eq (qualified : Bool) (sources : List Source) (ordinal : Nat) :
    exactColumn? qualified sources ordinal = some (column? qualified sources ordinal) := by
  induction sources generalizing ordinal with
  | nil => rfl
  | cons source rest ih =>
    cases found : source.fields[ordinal]? with
    | some name => simp only [exactColumn?, Scope.column?, found]
    | none =>
      -- A source without a field at the offset is no wider than the offset.
      have narrow : source.fields.length ≤ ordinal := List.getElem?_eq_none_iff.mp found
      simp only [exactColumn?, Scope.column?, found, Nat.psub_eq_sub narrow, Option.bind_some, ih]

end Locating

variable {scope : Scope} {e : Expr} {node : Node}

/-- A field fails to resolve only beyond the fields in scope, and the error tells their number. -/
theorem field_eq_error_iff {ordinal : Nat} {error : Error} :
    scope.field ordinal = .error error ↔
      scope.width ≤ ordinal ∧ error = .fieldOutOfRange ordinal scope.width := by
  rw [← Nat.not_lt, ← resolves_width scope ordinal]
  unfold field
  cases scope.field? ordinal with
  | some node => simp
  | none => simp [eq_comm]

/-- The node has the form of the expression: a literal for a literal, the field in scope for a
reference to it, and for a call one of the operator that stands for the call's, on operands that
have the form of its operands, one for one. -/
inductive Mirrors (scope : Scope) : Expr → Node → Prop
  | literal (value : Literal) : Mirrors scope (.literal value) (.literal value)
  | field {ordinal : Nat} {node : Node} (found : scope.field ordinal = .ok node) :
      Mirrors scope (.input ordinal) node
  | call {op : PlanOp} {operator : Sql.Operator} {operands : List Expr} {nodes : List Node}
      (stands : op.Becomes operator) (each : List.Forall₂ (Mirrors scope) operands nodes) :
      Mirrors scope (.call op operands) (.call operator nodes)

/-- Translation gives the node of the form of the expression, and nothing else has that form. -/
theorem expression_eq_ok_iff : scope.expression e = .ok node ↔ scope.Mirrors e node := by
  induction e generalizing node with
  | literal value =>
    constructor
    · intro translated
      cases translated
      exact .literal value
    · intro mirrors
      cases mirrors
      rfl
  | input ordinal =>
    constructor
    · exact .field
    · intro mirrors
      cases mirrors with
      | field found => exact found
  | shared index =>
    constructor <;> intro impossible <;> cases impossible
  | call op operands ih =>
    rw [expression, expressions_eq_mapM, Except.bind_eq_ok_iff]
    constructor
    · rintro ⟨nodes, translated, built⟩
      cases built
      refine .call (PlanOp.becomes_iff.mpr rfl)
        (forall₂_imp_of_mem (Except.mapM_eq_ok_iff.mp translated) ?_)
      intro operand member _
      exact (ih operand member).mp
    · intro mirrors
      cases mirrors with
      | call stands each =>
        rw [← PlanOp.becomes_iff.mp stands]
        have translated := forall₂_imp_of_mem each fun operand member _ => (ih operand member).mpr
        exact ⟨_, Except.mapM_eq_ok_iff.mpr translated, rfl⟩

/-- Fields resolve by position and expressions by their fields.  A position resolves when it is
below the number of fields in scope.  Among sources it gives the name at that place of all their
fields laid end to end, under the name of the source that has it if names are qualified, and the
offset never falls below zero on the way.  An expression is translated when it has no reference to
a shared expression and only to fields in scope, and the result has its form. -/
theorem resolves_by_position :
    (∀ (scope : Scope) (ordinal : Nat),
      ((∃ node, scope.field ordinal = .ok node) ↔ ordinal < scope.width) ∧
      ∀ error, scope.field ordinal = .error error ↔
        scope.width ≤ ordinal ∧ error = .fieldOutOfRange ordinal scope.width) ∧
    (∀ (sources : List Source) (qualified : Bool) (ordinal : Nat),
      (∀ node, (ofColumns sources qualified).field ordinal = .ok node ↔
        ∃ owner name, Locates sources ordinal owner name ∧
          node = .identifier (if qualified then [owner.name, name] else [name])) ∧
      exactColumn? qualified sources ordinal =
        some ((ofColumns sources qualified).field? ordinal)) ∧
    ∀ (scope : Scope) (e : Expr),
      ((∃ node, scope.expression e = .ok node) ↔
        e.sharedRefs = [] ∧ ∀ ordinal ∈ e.inputs, ordinal < scope.width) ∧
      ∀ node, scope.expression e = .ok node ↔ scope.Mirrors e node := by
  refine ⟨fun scope ordinal => ?_, fun sources qualified ordinal => ?_, fun scope e => ?_⟩
  · exact ⟨resolves_width scope ordinal, fun _ => field_eq_error_iff⟩
  · exact ⟨fun _ => field_ofColumns_iff, exactColumn?_eq qualified sources ordinal⟩
  · exact ⟨(resolves_width scope).expression, fun _ => expression_eq_ok_iff⟩

/-- A source without fields takes up no position. -/
example :
    (ofColumns [⟨"guests", ["id", "name"]⟩, ⟨"dual", []⟩, ⟨"visits", ["host"]⟩] true).field 2 =
      .ok (.identifier ["visits", "host"]) := rfl

end Scope

end Pushdown
