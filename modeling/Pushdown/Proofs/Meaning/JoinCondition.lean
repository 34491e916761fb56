import Pushdown.Proofs.Meaning.Preservation

/-!
# Join conditions by their keys

Of the condition of a join only the keys reach the statement: each is written as an equality of a
column of the left source and a column of the right one.  `JoinKeys.carry_condition` follows the
condition all the way: into keys and what remains, on a left and a right row, and, when nothing
remains, in the condition between the two sources.

A frame may have columns of any names, and two of them may have the same.  So the last part is
about a row of a frame that shows the two rows at the keys (`Scope.Shows`), wherever else they may
be unclear.
-/

namespace Pushdown

open Sql (Node)

/-- The row sources that the inputs of a join become, after both were compiled. -/
def RemotePlan.JoinSources (dialect : Sql.Dialect) (p q : RemotePlan) (names after : Aliases)
    (left right : Node × List Source) : Prop :=
  ∃ f g first second third, Gives (p.compile dialect) names f first ∧
    Gives (q.compile dialect) first g second ∧
    f.toSource.run second = (left, third) ∧ g.toSource.run third = (right, after)

/-- A join is written over the sources of its inputs, with an equality for each key. -/
theorem RemotePlan.exists_joinSources {dialect : Sql.Dialect} {c : Convention} {fields : Fields}
    {p q : RemotePlan} {condition : Expr} {kind : JoinKind} {keys : List (Nat × Nat)}
    {names after : Aliases} {f : Fragment}
    (run : Gives (compile dialect ⟨c, fields, .join p q condition kind keys⟩) names f after) :
    ∃ leftNode leftSources rightNode rightSources equalities,
      JoinSources dialect p q names after (leftNode, leftSources) (rightNode, rightSources) ∧
      Scope.equalities (.ofColumns leftSources true) (.ofColumns rightSources true) keys =
        .ok equalities ∧
      f.node = .join ⟨leftNode, kind, rightNode, Node.conjunction? equalities⟩ := by
  simp only [compile, Fragment.join, gives_bind, gives_state, gives_except, gives_pure] at run
  obtain ⟨_, _, leftRun, _, _, rightRun, ⟨_, _⟩, _, leftTaken, ⟨_, _⟩, _, rightTaken,
    equalities, _, ⟨equated, rfl⟩, rfl, rfl⟩ := run
  exact ⟨_, _, _, _, equalities, ⟨_, _, _, _, _, leftRun, rightRun, leftTaken, rightTaken⟩,
    equated, rfl⟩

namespace JoinKeys

variable {V : Type} {left right : Nat} {condition : Expr}

/-- On a left and a right row the condition is true if they are equal at all keys and everything
that remains is true on both together. -/
theorem isTrue_append_iff (I : Interpretation V) (right : Nat) {l : Row V}
    (even : l.length = left) (r : Row V) :
    I.isTrue (condition.valueOn I (l ++ r)) = true ↔
      (∀ key ∈ (ofCondition left right condition).pairs, matched I l r key = true) ∧
        ∀ e ∈ (ofCondition left right condition).remaining,
          I.isTrue (e.valueOn I (l ++ r)) = true := by
  subst even
  rw [(judges_valueOn I (l ++ r)).condition_iff l.length right]
  refine and_congr_left fun _ => forall₂_congr fun key member => ?_
  rw [isTrue_equality, equal_append (lt_of_mem_pairs member).1]

/-- The keys carry the whole condition.  Its parts, other than truth, go in order to the key that
they are, or else remain; so whatever tells which expressions are true finds the condition true
exactly if it does the equalities of the keys and all that remains.  On a left and a right row the
keys compare their fields.  When nothing remains, the condition that the compiler writes between
the sources of a join is true, on every row that shows a left and a right row, exactly if the
plan's condition is true on those. -/
theorem carry_condition (bounded : left + right < UInt64.size) (condition : Expr) :
    let keys := ofCondition left right condition
    (∃ parts, condition.Flattens parts ∧
      Splits (Equates left right) parts keys.pairs keys.remaining) ∧
    (∀ holds, Judges holds → (holds condition ↔
      (∀ key ∈ keys.pairs, holds (equality left key)) ∧ ∀ e ∈ keys.remaining, holds e)) ∧
    (∀ {V : Type} (I : Interpretation V) (l r : Row V), l.length = left →
      (I.isTrue (condition.valueOn I (l ++ r)) = true ↔
        (∀ key ∈ keys.pairs, matched I l r key = true) ∧
          ∀ e ∈ keys.remaining, I.isTrue (e.valueOn I (l ++ r)) = true)) ∧
    (keys.remaining = [] → ∀ {dialect c fields p q kind names f after},
      Gives (RemotePlan.compile dialect ⟨c, fields, .join p q condition kind keys.pairs⟩) names f
        after →
      ∃ leftNode leftSources rightNode rightSources on,
        p.JoinSources dialect q names after (leftNode, leftSources) (rightNode, rightSources) ∧
        f.node = .join ⟨leftNode, kind, rightNode, on⟩ ∧
        ∀ {V : Type} (I : Interpretation V) (columns : List (String × String)) (row l r : Row V),
          l.length = left →
          (∀ key ∈ keys.pairs,
            (Scope.ofColumns leftSources true).Shows I columns row key.1 (l.getD key.1 I.null) ∧
            (Scope.ofColumns rightSources true).Shows I columns row key.2 (r.getD key.2 I.null)) →
          ∃ test, Sql.condition? I columns on = some test ∧
            (test row = true ↔ I.isTrue (condition.valueOn I (l ++ r)) = true)) := by
  intro keys
  -- The bound is needed here alone: a wider row would hide keys, and they would remain.
  have isKey : (fun e key => pair? left right e = some key) = Equates left right := by
    funext e key
    exact propext (pair?_eq_some_iff bounded)
  refine ⟨⟨condition.conjuncts, condition.flattens_conjuncts, ?_⟩,
    fun holds judges => judges.condition_iff left right condition,
    fun I l r even => isTrue_append_iff I right even r, fun equi _ _ _ _ _ _ _ _ _ run => ?_⟩
  · rw [← isKey]
    exact splits_ofCondition left right condition
  · obtain ⟨leftNode, leftSources, rightNode, rightSources, equalities, sources,
      equated, written⟩ :=
      RemotePlan.exists_joinSources run
    refine ⟨_, _, _, _, _, sources, written, fun I columns row l r even shown => ?_⟩
    obtain ⟨test, computed, truth⟩ := exists_condition?_equalities equated shown
    refine ⟨test, computed, ?_⟩
    have nothing : ∀ e ∈ keys.remaining, I.isTrue (e.valueOn I (l ++ r)) = true := by simp [equi]
    rw [truth, List.all_eq_true, isTrue_append_iff I right even r]
    exact (and_iff_left nothing).symm

end JoinKeys

namespace Staff

/-- Of two employees, each is the boss of the other; with truth and nothing in between. -/
def mutualBosses : Expr :=
  .scalarCall .and [.ofBool true, .scalarCall .and [],
    .scalarCall .and [.scalarCall .eq [.input 2, .input 1], .ofBool true],
    .scalarCall .eq [.input 0, .input 3]]

/-- Pairs of employees of whom each is the boss of the other. -/
def couples : Plan := .join (.scan employees) (.scan employees) mutualBosses .inner

end Staff

open Staff in
/-- Both equalities are keys, the first one with its sides exchanged.  The condition in the
statement is true of employees 1 and 2 if each is the boss of the other, and not if 3 is the boss
of 2. -/
theorem JoinKeys.carry_condition_mutualBosses :
    2 + 2 < UInt64.size ∧ (ofCondition 2 2 mutualBosses).pairs = [(1, 0), (0, 1)] ∧
    ∃ f after leftNode rightNode on test,
      Gives ((couples.boundTo database).compile database.dialect) {} f after ∧
      f.node = .join ⟨leftNode, .inner, rightNode, on⟩ ∧
      Sql.condition? numbers (columnsOf f.sources) on = some test ∧
      test [some 1, some 2, some 2, some 1] = true ∧
      test [some 1, some 2, some 2, some 3] = false := by
  have bounded : 2 + 2 < UInt64.size := by decide
  obtain ⟨f, after, run, columns⟩ : ∃ f after,
      Gives ((couples.boundTo database).compile database.dialect) {} f after ∧
        columnsOf f.sources =
          [("emp", "id"), ("emp", "boss"), ("emp0", "id"), ("emp0", "boss")] :=
    ⟨_, _, rfl, rfl⟩
  obtain ⟨leftNode, leftSources, rightNode, rightSources, on, sources, written, onRow⟩ :=
    (JoinKeys.carry_condition bounded mutualBosses).2.2.2 rfl run
  obtain ⟨_, _, _, _, _, leftRun, rightRun, leftTaken, rightTaken⟩ := sources
  cases leftRun
  cases rightRun
  cases leftTaken
  cases rightTaken
  have pairs : (ofCondition 2 2 mutualBosses).pairs = [(1, 0), (0, 1)] := rfl
  have onPair (r : Row (Option Int)) :
      ∃ test, Sql.condition? numbers (columnsOf f.sources) on = some test ∧
        (test ([some 1, some 2] ++ r) = true ↔
          numbers.isTrue (mutualBosses.valueOn numbers ([some 1, some 2] ++ r)) = true) := by
    refine onRow numbers _ _ [some 1, some 2] r rfl ?_
    rw [columns, pairs, List.forall_mem_cons, List.forall_mem_singleton]
    refine ⟨⟨?_, ?_⟩, ?_, ?_⟩
    all_goals
      intro node found
      cases found
      exact ⟨_, rfl, rfl⟩
  obtain ⟨test, computed, together⟩ := onPair [some 2, some 1]
  obtain ⟨_, same, apart⟩ := onPair [some 2, some 3]
  rw [computed] at same
  cases same
  refine ⟨bounded, pairs, f, _, _, _, on, test, run, written, computed,
    together.mpr rfl, ?_⟩
  exact Bool.eq_false_iff.mpr fun found => Bool.false_ne_true (apart.mp found)

end Pushdown
