import Mathlib.Data.Finset.Card
import Mathlib.Order.Monotone.Basic
import Pushdown.Proofs.Scalar.Program

/-!
# Expansion of checked programs

Expansion follows chains of references up to a budget.  `Settled exprs budget e` says that the
budget is enough for `e`.

The entries of the list that are settled within a budget grow with it, and which are settled
within the next one depends on nothing but them.  So they stop growing once they fail to, which is
after at most as many steps as there are entries (`settledEntries_length_succ`).  A check from an
entry itself, which may follow one reference more than the list is long, therefore settles the
references to it as well.
-/

namespace Pushdown

namespace Expr

variable {ε : Type} {resolve : Nat → Except ε Expr}

/-- Replacing references succeeds when each of them is resolved. -/
theorem exists_bindShared_iff {e : Expr} :
    (∃ r, e.bindShared resolve = .ok r) ↔ ∀ i ∈ e.sharedRefs, ∃ r, resolve i = .ok r := by
  induction e with
  | literal value => simp [bindShared, sharedRefs]
  | input ordinal => simp [bindShared, sharedRefs]
  | shared index => simp [bindShared, sharedRefs]
  | call op operands ih =>
    rw [bindShared, bindSharedAll_eq_mapM, Except.exists_bind_pure_iff,
      Except.exists_mapM_eq_ok_iff, sharedRefs, sharedRefsAll_eq_flatMap]
    constructor
    · intro each i mem
      rcases List.mem_flatMap.mp mem with ⟨e, member, within⟩
      exact (ih e member).mp (each e member) i within
    · intro resolved e member
      exact (ih e member).mpr fun i within =>
        resolved i (List.mem_flatMap.mpr ⟨e, member, within⟩)

/-- No reference is left when none is in what they are replaced by. -/
theorem sharedRefs_of_bindShared {e r : Expr} (bound : e.bindShared resolve = .ok r)
    (free : ∀ i t, resolve i = .ok t → t.sharedRefs = []) : r.sharedRefs = [] := by
  induction e generalizing r with
  | literal value =>
    cases bound
    simp [sharedRefs]
  | input ordinal =>
    cases bound
    simp [sharedRefs]
  | shared index => exact free index r (by simpa [bindShared] using bound)
  | call op operands ih =>
    simp only [bindShared, bindSharedAll_eq_mapM, Except.bind_eq_ok_iff] at bound
    rcases bound with ⟨es, each, built⟩
    cases built
    rw [sharedRefs, sharedRefsAll_eq_flatMap, List.flatMap_eq_nil_iff]
    intro e member
    rcases Except.exists_of_mem_mapM each member with ⟨operand, mem, done⟩
    exact ih operand mem done

/-- What references are replaced by may become more, as long as it stays what it was. -/
theorem bindShared_extend {wider : Nat → Except ε Expr} {e r : Expr}
    (bound : e.bindShared resolve = .ok r)
    (keeps : ∀ i t, resolve i = .ok t → wider i = .ok t) : e.bindShared wider = .ok r := by
  induction e generalizing r with
  | literal value => exact bound
  | input ordinal => exact bound
  | shared index => exact keeps index r bound
  | call op operands ih =>
    simp only [bindShared, bindSharedAll_eq_mapM, Except.bind_eq_ok_iff] at bound ⊢
    rcases bound with ⟨es, each, built⟩
    refine ⟨es, Except.mapM_eq_ok_iff.mpr ?_, built⟩
    exact forall₂_imp_of_mem (Except.mapM_eq_ok_iff.mp each) fun e member _ done =>
      ih e member done

end Expr

namespace Program

variable {exprs : List Expr} {budget : Nat} {e : Expr}

/-- A larger budget gives the same expansion. -/
theorem expandWithin_mono {larger : Nat} {r : Expr} (more : budget ≤ larger)
    (expanded : expandWithin exprs budget e = .ok r) : expandWithin exprs larger e = .ok r := by
  induction budget generalizing larger e r with
  | zero =>
    cases larger with
    | zero => exact expanded
    | succ larger =>
      refine Expr.bindShared_extend expanded fun i t failed => ?_
      cases failed
  | succ budget ih =>
    obtain ⟨larger, rfl⟩ := Nat.exists_eq_add_one_of_ne_zero (n := larger) (by omega)
    refine Expr.bindShared_extend expanded fun i t resolved => ?_
    cases entry : exprs[i]? with
    | none =>
      rw [entry] at resolved
      cases resolved
    | some target =>
      simp only [entry] at resolved ⊢
      exact ih (by omega) resolved

/-- The budget is enough to expand the expression. -/
def Settled (exprs : List Expr) (budget : Nat) (e : Expr) : Prop :=
  ∃ r, expandWithin exprs budget e = .ok r

instance : Decidable (Settled exprs budget e) :=
  match done : expandWithin exprs budget e with
  | .ok r => isTrue ⟨r, done⟩
  | .error _ => isFalse fun ⟨_, other⟩ => nomatch done.symm.trans other

/-- The entries of the list that are settled within the budget. -/
def settledEntries (exprs : List Expr) (budget : Nat) : Finset Nat :=
  {i ∈ Finset.range exprs.length | ∃ t ∈ exprs[i]?, Settled exprs budget t}

theorem mem_settledEntries {i : Nat} :
    i ∈ settledEntries exprs budget ↔ ∃ t ∈ exprs[i]?, Settled exprs budget t := by
  rw [settledEntries, Finset.mem_filter, Finset.mem_range]
  constructor
  · exact fun both => both.2
  · intro found
    rcases found with ⟨t, entry, settled⟩
    exact ⟨(List.getElem?_eq_some_iff.mp entry).1, t, entry, settled⟩

theorem settled_zero_iff : Settled exprs 0 e ↔ e.sharedRefs = [] := by
  rw [Settled, expandWithin, Expr.exists_bindShared_iff, List.eq_nil_iff_forall_not_mem]
  simp

/-- What is settled within a budget depends on the entries that are within the one before. -/
theorem settled_succ_iff :
    Settled exprs (budget + 1) e ↔ ∀ i ∈ e.sharedRefs, i ∈ settledEntries exprs budget := by
  rw [Settled, expandWithin, Expr.exists_bindShared_iff]
  refine forall₂_congr fun i _ => ?_
  rw [mem_settledEntries]
  cases entry : exprs[i]? with
  | none => simp
  | some t => simp [Settled]

theorem settledEntries_subset_succ (exprs : List Expr) (budget : Nat) :
    settledEntries exprs budget ⊆ settledEntries exprs (budget + 1) := by
  intro i member
  rcases mem_settledEntries.mp member with ⟨t, entry, r, expanded⟩
  exact mem_settledEntries.mpr ⟨t, entry, r, expandWithin_mono (Nat.le_succ budget) expanded⟩

/-- Once they fail to grow, the settled entries have stopped growing. -/
theorem settledEntries_succ_eq
    (same : settledEntries exprs budget = settledEntries exprs (budget + 1)) :
    settledEntries exprs (budget + 1) = settledEntries exprs (budget + 2) := by
  have grown {e : Expr} : Settled exprs (budget + 1) e ↔ Settled exprs (budget + 2) e := by
    rw [settled_succ_iff, settled_succ_iff, ← same]
  ext i
  simp only [mem_settledEntries, grown]

/-- A budget of more than the length of the list settles no entry that the length does not. -/
theorem settledEntries_length_succ (exprs : List Expr) :
    settledEntries exprs (exprs.length + 1) = settledEntries exprs exprs.length := by
  have grows := settledEntries_subset_succ exprs
  have sizes : (settledEntries exprs (exprs.length + 1)).card =
      (settledEntries exprs exprs.length).card := by
    refine Nat.stabilises_of_monotone (f := fun budget => (settledEntries exprs budget).card)
      ?_ ?_ ?_ (Nat.le_succ _)
    · exact monotone_nat_of_le_succ fun budget => Finset.card_le_card (grows budget)
    · intro budget
      have within : settledEntries exprs budget ⊆ Finset.range exprs.length :=
        Finset.filter_subset _ _
      simpa using Finset.card_le_card within
    · intro budget same
      have stopped := Finset.eq_of_subset_of_card_le (grows budget) (Nat.le_of_eq same.symm)
      exact congrArg Finset.card (settledEntries_succ_eq stopped)
  exact (Finset.eq_of_subset_of_card_le (grows _) (Nat.le_of_eq sizes)).symm

/-- An expansion holds no references. -/
theorem sharedRefs_of_expandWithin {r : Expr} (expanded : expandWithin exprs budget e = .ok r) :
    r.sharedRefs = [] := by
  induction budget generalizing e r with
  | zero => exact Expr.sharedRefs_of_bindShared expanded nofun
  | succ budget ih =>
    refine Expr.sharedRefs_of_bindShared expanded fun i t resolved => ?_
    cases entry : exprs[i]? with
    | none =>
      rw [entry] at resolved
      cases resolved
    | some target =>
      simp only [entry] at resolved
      exact ih resolved

/-! ## Checked programs -/

variable {p : Program}

/-- What the check of a program sees to. -/
structure Checked (p : Program) : Prop where
  projects : ∀ i ∈ p.projects, i < p.exprs.length
  condition : ∀ i ∈ p.condition, i < p.exprs.length
  settled : ∀ e ∈ p.exprs, Settled p.exprs (p.exprs.length + 1) e

theorem checked_of_check {q : Program} (passed : p.check = .ok q) : q.Checked := by
  rcases check_eq_ok_iff.mp passed with ⟨-, inRange, settled, rfl⟩
  rcases List.forall_mem_append.mp inRange with ⟨projects, condition⟩
  exact ⟨projects, fun i present => condition i (Option.mem_toList.mpr present), settled⟩

theorem Built.toChecked (built : p.Built) : p.Checked := by
  cases built with
  | checked passed => exact checked_of_check passed
  | ofProjects passed => exact checked_of_check passed
  | identity input =>
    refine ⟨by simp [Program.identity], nofun, ?_⟩
    intro e member
    rcases List.mem_map.mp member with ⟨ordinal, _, rfl⟩
    exact ⟨.input ordinal, rfl⟩

/-- Expansion in a checked program succeeds on references to entries of its list. -/
theorem Checked.exists_expand (checked : p.Checked)
    (inRange : ∀ i ∈ e.sharedRefs, i < p.exprs.length) : ∃ r, p.expand e = .ok r := by
  refine settled_succ_iff.mpr fun i member => ?_
  rw [← settledEntries_length_succ, mem_settledEntries]
  have bound := inRange i member
  exact ⟨_, List.getElem?_eq_getElem bound, checked.settled _ (List.getElem_mem bound)⟩

/-- The projections of a checked program expand to expressions over the input alone. -/
theorem Checked.exists_projectExprs (checked : p.Checked) :
    ∃ es, p.projectExprs = .ok es ∧ ∀ e ∈ es, e.sharedRefs = [] := by
  have each : ∀ i ∈ p.projects, ∃ r, p.expand (.shared i) = .ok r := fun i member =>
    checked.exists_expand (by simpa [Expr.sharedRefs] using checked.projects i member)
  rcases Except.exists_mapM_eq_ok_iff.mpr each with ⟨es, expanded⟩
  refine ⟨es, expanded, fun e member => ?_⟩
  rcases Except.exists_of_mem_mapM expanded member with ⟨_, _, done⟩
  exact sharedRefs_of_expandWithin done

/-- So does its condition. -/
theorem Checked.exists_conditionExpr (checked : p.Checked) :
    ∃ condition, p.conditionExpr = .ok condition ∧ ∀ e ∈ condition, e.sharedRefs = [] := by
  unfold conditionExpr
  cases present : p.condition with
  | none => exact ⟨none, rfl, nofun⟩
  | some index =>
    have bound := checked.condition index present
    rcases checked.exists_expand (e := .shared index) (by simpa [Expr.sharedRefs] using bound)
      with ⟨r, expanded⟩
    refine ⟨some r, Except.map_eq_ok_iff.mpr ⟨r, expanded, rfl⟩, ?_⟩
    intro e known
    cases known
    exact sharedRefs_of_expandWithin expanded

end Program

end Pushdown
