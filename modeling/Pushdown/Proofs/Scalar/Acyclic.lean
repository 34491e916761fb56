import Mathlib.Data.Fintype.EquivFin
import Pushdown.Proofs.Scalar.Expansion

/-!
# Programs without cycles

`Refers exprs i j` says that the entry at `i` refers to the one at `j`.  A program is `Grounded`
when its places and references are entries of its list and no chain of references comes back to
where it began.

The check of a program knows nothing of cycles.  It expands every entry within a budget, and a
chain that is cut off looks to it like a reference to nowhere.  The two agree: down a chain the
budget that settles an entry goes down (`exists_lower_of_chain`), so that a settled entry is on no
cycle; and without cycles the entries are settled from the ends of the chains on, all of them by
the time that the budget is the length of the list.
-/

namespace Pushdown

namespace Program

open Relation (TransGen)

variable {exprs : List Expr} {budget i j : Nat}

/-- The entry at `i` refers to the one at `j`. -/
def Refers (exprs : List Expr) (i j : Nat) : Prop := ∃ e ∈ exprs[i]?, j ∈ e.sharedRefs

/-- No chain of references comes back to where it began. -/
def Acyclic (exprs : List Expr) : Prop := ∀ i, ¬ TransGen (Refers exprs) i i

/-- The entries refer to entries of the list only. -/
def Closed (exprs : List Expr) : Prop := ∀ e ∈ exprs, ∀ i ∈ e.sharedRefs, i < exprs.length

/-- There is a projection for each field of the output, all places and references are entries of
the list, and no chain of references is a cycle. -/
structure Grounded (p : Program) : Prop where
  even : p.projects.length = p.output.length
  projects : ∀ i ∈ p.projects, i < p.exprs.length
  condition : ∀ i ∈ p.condition, i < p.exprs.length
  closed : Closed p.exprs
  acyclic : Acyclic p.exprs

/-! ## Settled entries are on no cycle -/

theorem lt_length_of_mem_settledEntries (settled : i ∈ settledEntries exprs budget) :
    i < exprs.length := by
  rcases mem_settledEntries.mp settled with ⟨t, entry, -⟩
  exact (List.getElem?_eq_some_iff.mp entry).1

/-- What a settled entry refers to takes less. -/
theorem exists_lower_of_refers (refers : Refers exprs i j)
    (settled : i ∈ settledEntries exprs budget) :
    ∃ lower < budget, j ∈ settledEntries exprs lower := by
  rcases refers with ⟨e, entry, member⟩
  rcases mem_settledEntries.mp settled with ⟨t, same, done⟩
  cases entry.symm.trans same
  cases budget with
  | zero =>
    rw [settled_zero_iff.mp done] at member
    exact (List.not_mem_nil member).elim
  | succ budget => exact ⟨budget, Nat.lt_succ_self budget, settled_succ_iff.mp done j member⟩

theorem exists_lower_of_chain (chain : TransGen (Refers exprs) i j)
    (settled : i ∈ settledEntries exprs budget) :
    ∃ lower < budget, j ∈ settledEntries exprs lower := by
  induction chain with
  | single refers => exact exists_lower_of_refers refers settled
  | tail _ refers ih =>
    rcases ih with ⟨middle, below, reached⟩
    rcases exists_lower_of_refers refers reached with ⟨lower, further, last⟩
    exact ⟨lower, further.trans below, last⟩

/-- Around a cycle the budget would go down for ever. -/
theorem not_cycle_of_settled (settled : i ∈ settledEntries exprs budget) :
    ¬ TransGen (Refers exprs) i i := by
  intro cycle
  induction budget using Nat.strong_induction_on with
  | _ budget ih =>
    rcases exists_lower_of_chain cycle settled with ⟨lower, below, again⟩
    exact ih lower below again

/-- Where all entries expand, the references stay in the list and make no cycle. -/
theorem closed_and_acyclic_of_settled
    (settled : ∀ e ∈ exprs, Settled exprs (exprs.length + 1) e) :
    Closed exprs ∧ Acyclic exprs := by
  constructor
  · intro e member i refers
    exact lt_length_of_mem_settledEntries (settled_succ_iff.mp (settled e member) i refers)
  · intro i cycle
    -- An index beyond the list begins no chain.
    obtain ⟨j, ⟨e, entry, _⟩, _⟩ := Relation.TransGen.head'_iff.mp cycle
    have done := settled e (List.mem_of_getElem? entry)
    exact not_cycle_of_settled (mem_settledEntries.mpr ⟨e, entry, done⟩) cycle

/-! ## Without cycles all entries are settled -/

/-- The list is finite, so that without cycles there is an end to every chain. -/
theorem wellFounded_of_acyclic (acyclic : Acyclic exprs) :
    WellFounded fun j i : Fin exprs.length => TransGen (Refers exprs) i j := by
  have : IsTrans (Fin exprs.length) fun j i => TransGen (Refers exprs) i j :=
    ⟨fun _ _ _ first second => second.trans first⟩
  have : Std.Irrefl fun j i : Fin exprs.length => TransGen (Refers exprs) i j :=
    ⟨fun i cycle => acyclic i cycle⟩
  exact Finite.wellFounded_of_trans_of_irrefl _

theorem mem_settledEntries_of_acyclic (closed : Closed exprs) (acyclic : Acyclic exprs)
    (i : Fin exprs.length) : (i : Nat) ∈ settledEntries exprs exprs.length := by
  induction i using (wellFounded_of_acyclic acyclic).induction with
  | _ i ih =>
    have entry : exprs[(i : Nat)]? = some exprs[i] := List.getElem?_eq_getElem i.isLt
    rw [← settledEntries_length_succ, mem_settledEntries]
    refine ⟨exprs[i], entry, settled_succ_iff.mpr fun j refers => ?_⟩
    have bound := closed exprs[i] (List.getElem_mem i.isLt) j refers
    exact ih ⟨j, bound⟩ (.single ⟨exprs[i], entry, refers⟩)

/-- Every entry expands exactly if the references stay in the list and make no cycle. -/
theorem settled_iff_acyclic :
    (∀ e ∈ exprs, Settled exprs (exprs.length + 1) e) ↔ Closed exprs ∧ Acyclic exprs := by
  constructor
  · exact closed_and_acyclic_of_settled
  · rintro ⟨closed, acyclic⟩ e member
    refine settled_succ_iff.mpr fun i refers => ?_
    exact mem_settledEntries_of_acyclic closed acyclic ⟨i, closed e member i refers⟩

/-! ## Checked programs -/

variable {p : Program}

theorem check_eq_ok_iff_grounded {q : Program} : p.check = .ok q ↔ p.Grounded ∧ q = p := by
  have settled : (∀ e ∈ p.exprs, ∃ r, p.expand e = .ok r) ↔ Closed p.exprs ∧ Acyclic p.exprs :=
    settled_iff_acyclic
  rw [check_eq_ok_iff, settled, List.forall_mem_append]
  constructor
  · rintro ⟨even, ⟨projects, condition⟩, ⟨closed, acyclic⟩, same⟩
    exact ⟨⟨even, projects, fun i present => condition i (Option.mem_toList.mpr present), closed,
      acyclic⟩, same⟩
  · rintro ⟨⟨even, projects, condition, closed, acyclic⟩, same⟩
    exact ⟨even, ⟨projects, fun i present => condition i (Option.mem_toList.mp present)⟩,
      ⟨closed, acyclic⟩, same⟩

/-- A larger budget than the length of the list asks for changes nothing. -/
theorem Checked.expandWithin_eq (checked : p.Checked) {e : Expr}
    (inRange : ∀ i ∈ e.sharedRefs, i < p.exprs.length) (enough : p.exprs.length + 1 ≤ budget) :
    expandWithin p.exprs budget e = p.expand e := by
  rcases checked.exists_expand inRange with ⟨r, expanded⟩
  rw [expanded]
  exact expandWithin_mono enough expanded

/-- A reference expands to what its entry does, although its chain is one longer. -/
theorem Checked.expand_shared (checked : p.Checked) {e : Expr} (entry : p.exprs[i]? = some e) :
    p.expand (.shared i) = p.expand e := by
  have bound : i < p.exprs.length := (List.getElem?_eq_some_iff.mp entry).1
  rcases checked.exists_expand (e := .shared i) (by simpa [Expr.sharedRefs] using bound)
    with ⟨r, expanded⟩
  have within : expandWithin p.exprs p.exprs.length e = .ok r := by
    simpa [expand, expandWithin, Expr.bindShared, entry] using expanded
  rw [expanded]
  exact (expandWithin_mono (Nat.le_succ _) within).symm

/-- The check accepts exactly the grounded programs, as they are.  In an accepted program
expansion leads from references in range to an expression without references, whatever the budget
beyond the length of the list, and a reference stands for its entry. -/
theorem check_accepts_grounded (p : Program) :
    (∀ q, p.check = .ok q ↔ p.Grounded ∧ q = p) ∧
    (p.check = .ok p →
      (∀ e : Expr, (∀ i ∈ e.sharedRefs, i < p.exprs.length) →
        ∃ r, p.expand e = .ok r ∧ r.sharedRefs = [] ∧
          ∀ budget ≥ p.exprs.length + 1, expandWithin p.exprs budget e = .ok r) ∧
      (∀ i e, p.exprs[i]? = some e → p.expand (.shared i) = p.expand e) ∧
      (∃ projects, p.projectExprs = .ok projects) ∧
      ∃ condition, p.conditionExpr = .ok condition) := by
  refine ⟨fun q => check_eq_ok_iff_grounded, fun passed => ?_⟩
  have checked : p.Checked := checked_of_check passed
  refine ⟨fun e inRange => ?_, fun i e entry => checked.expand_shared entry, ?_, ?_⟩
  · rcases checked.exists_expand inRange with ⟨r, expanded⟩
    refine ⟨r, expanded, sharedRefs_of_expandWithin expanded, fun budget enough => ?_⟩
    rw [checked.expandWithin_eq inRange enough, expanded]
  · rcases checked.exists_projectExprs with ⟨projects, expanded, -⟩
    exact ⟨projects, expanded⟩
  · rcases checked.exists_conditionExpr with ⟨condition, expanded, -⟩
    exact ⟨condition, expanded⟩

end Program

namespace Staff

/-- Whether an employee is their own boss, by a chain of references that goes through the whole
list. -/
def ownBoss : Program where
  input := ["id", "boss"]
  exprs := [.shared 2, .input 1, .scalarCall .eq [.input 0, .shared 3], .shared 1]
  projects := [1, 0]
  condition := some 2
  output := ["boss", "own"]

/-- The same with the end of the chain tied to its beginning. -/
def ownBossTied : Program :=
  { ownBoss with
    exprs := [.shared 2, .shared 0, .scalarCall .eq [.input 0, .shared 3], .shared 1] }

end Staff

open Staff in
/-- A chain as long as the list is within the budget, also with one reference in front of it; a
chain that never ends is not. -/
theorem Program.check_accepts_grounded_ownBoss :
    ownBoss.check = .ok ownBoss ∧ ownBoss.Grounded ∧
      ownBossTied.check = .error (.unknownShared 3) ∧ ¬ ownBossTied.Grounded ∧
      (∃ r, ownBoss.expand (.scalarCall .not [.shared 0]) = .ok r ∧ r.sharedRefs = [] ∧
        ∀ budget ≥ 5,
          Program.expandWithin ownBoss.exprs budget (.scalarCall .not [.shared 0]) = .ok r) ∧
      ownBoss.expand (.shared 0) = ownBoss.expand (.shared 2) ∧
      (∃ projects, ownBoss.projectExprs = .ok projects) ∧
      ∃ condition, ownBoss.conditionExpr = .ok condition := by
  have passed : ownBoss.check = .ok ownBoss := rfl
  have refused : ownBossTied.check = .error (.unknownShared 3) := rfl
  rcases Program.check_accepts_grounded ownBoss with ⟨accepts, expansions⟩
  rcases expansions passed with ⟨expands, stands, projects, condition⟩
  refine ⟨passed, ((accepts ownBoss).mp passed).1, refused, fun grounded => ?_,
    expands _ (by decide), stands 0 _ rfl, projects, condition⟩
  have passes := ((Program.check_accepts_grounded ownBossTied).1 ownBossTied).mpr ⟨grounded, rfl⟩
  cases refused.symm.trans passes

end Pushdown
