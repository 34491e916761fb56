import Pushdown.Proofs.Outcome
import Pushdown.Proofs.Scalar.Expr
import Pushdown.Scalar.Program

/-!
# Programs that were checked

`Program.Built` are the programs that the functions which check them give: every reference leads
somewhere, and there is a projection for each field of the output.
-/

namespace Pushdown.Program

/-- The programs that are made by a checked construction. -/
inductive Built : Program → Prop
  | checked {p q : Program} (passed : p.check = .ok q) : Built q
  | ofProjects {input output : Fields} {projects : List Expr} {condition : Option Expr}
      {p : Program}
      (passed : ofProjects input projects condition output = .ok p) : Built p
  | identity (input : Fields) : Built (identity input)

/-- The check passes a program on when its projections are those of its output, its places are in
the list and every entry of the list expands. -/
theorem check_eq_ok_iff {p q : Program} :
    p.check = .ok q ↔
      p.projects.length = p.output.length ∧
      (∀ i ∈ p.projects ++ p.condition.toList, i < p.exprs.length) ∧
      (∀ e ∈ p.exprs, ∃ r, p.expand e = .ok r) ∧ q = p := by
  unfold check
  by_cases even : p.projects.length = p.output.length
  · rw [if_neg (not_not.mpr even)]
    dsimp only
    cases place : (p.projects ++ p.condition.toList).find? fun i => p.exprs.length ≤ i with
    | some index =>
      have outside := List.find?_some place
      have member := List.mem_of_find?_eq_some place
      constructor
      · exact nofun
      · rintro ⟨-, inRange, -, -⟩
        have := inRange index member
        simp only [decide_eq_true_eq] at outside
        omega
    | none =>
      have inRange : ∀ i ∈ p.projects ++ p.condition.toList, i < p.exprs.length := by
        simpa using List.find?_eq_none.mp place
      rw [← Except.exists_mapM_eq_ok_iff]
      change (p.exprs.mapM p.expand >>= fun _ => pure p) = .ok q ↔ _
      simp only [Except.bind_eq_ok_iff, Except.pure_eq_ok_iff, exists_and_right, eq_comm (a := p)]
      constructor
      · exact fun ⟨expanded, same⟩ => ⟨even, inRange, expanded, same⟩
      · exact fun ⟨_, _, expanded, same⟩ => ⟨expanded, same⟩
  · rw [if_pos even]
    constructor
    · exact nofun
    · exact fun conditions => absurd conditions.1 even

theorem length_eq_of_check {p q : Program} (passed : p.check = .ok q) :
    q.projects.length = q.output.length := by
  rcases check_eq_ok_iff.mp passed with ⟨even, -, -, rfl⟩
  exact even

/-- A checked program has a projection for each field of its output. -/
theorem Built.length_eq {p : Program} (built : p.Built) :
    p.projects.length = p.output.length := by
  cases built with
  | checked passed => exact length_eq_of_check passed
  | ofProjects passed => exact length_eq_of_check passed
  | identity input => simp [Program.identity]

theorem length_of_projectExprs {p : Program} {projects : List Expr}
    (expanded : p.projectExprs = .ok projects) : projects.length = p.projects.length :=
  (Except.mapM_eq_ok_iff.mp expanded).length_eq.symm

end Pushdown.Program
