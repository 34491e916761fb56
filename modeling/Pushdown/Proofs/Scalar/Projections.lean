import Pushdown.Proofs.Scalar.Program

/-!
# Programs of given projections

`Program.ofProjects` shares the fields of the input: a projection that is one of them is given the
place of the field, and any other is appended to the list, also a field that the input does not
have and a projection that is there already.

The list only grows while the projections are placed, so that a place keeps what it was given for
(`allot_allotted`).  Read back through the places, the projections and the condition come out as
they went in (`ofProjects_faithful`).
-/

namespace Pushdown

/-- Without references there is nothing to replace. -/
theorem Expr.bindShared_of_free {ε : Type} {resolve : Nat → Except ε Expr} {e : Expr}
    (free : e.sharedRefs = []) : e.bindShared resolve = .ok e := by
  induction e with
  | literal value => rfl
  | input ordinal => rfl
  | shared index => simp [sharedRefs] at free
  | call op operands ih =>
    rw [sharedRefs, sharedRefsAll_eq_flatMap, List.flatMap_eq_nil_iff] at free
    have each : operands.mapM (bindShared resolve) = .ok operands := by
      rw [Except.mapM_eq_ok_iff, List.forall₂_same]
      exact fun operand member => ih operand member (free operand member)
    rw [bindShared, bindSharedAll_eq_mapM, each]
    rfl

namespace Program

theorem expandWithin_of_free (exprs : List Expr) (budget : Nat) {e : Expr}
    (free : e.sharedRefs = []) : expandWithin exprs budget e = .ok e := by
  cases budget with
  | zero => exact Expr.bindShared_of_free free
  | succ budget => exact Expr.bindShared_of_free free

/-- A reference to an entry without references stands for it. -/
theorem expand_place {p : Program} {place : Nat} {e : Expr} (entry : p.exprs[place]? = some e)
    (free : e.sharedRefs = []) : p.expand (.shared place) = .ok e := by
  rw [expand, expandWithin, Expr.bindShared, entry]
  exact expandWithin_of_free p.exprs p.exprs.length free

/-! ## Places -/

variable {width : Nat} {exprs all projects : List Expr} {places : List Nat}

/-- Growing a list keeps what is at its places. -/
theorem getElem?_of_grown {place : Nat} {e : Expr} (grown : exprs <+: all)
    (entry : exprs[place]? = some e) : all[place]? = some e := by
  obtain ⟨more, rfl⟩ := grown
  have bound := (List.getElem?_eq_some_iff.mp entry).1
  rw [List.getElem?_append_left bound, entry]

/-- The projections are the entries of the list at the places. -/
abbrev Placed (exprs : List Expr) : List Nat → List Expr → Prop :=
  List.Forall₂ fun place project => exprs[place]? = some project

/-- The projections are at the places, in a list that the old one was grown to. -/
structure Allotted (exprs projects all : List Expr) (places : List Nat) : Prop where
  grown : exprs <+: all
  placed : Placed all places projects
  added : ∀ e ∈ all, e ∈ exprs ∨ e ∈ projects

theorem allotted_nil (exprs : List Expr) : Allotted exprs [] exprs [] :=
  ⟨List.prefix_rfl, .nil, fun _ member => .inl member⟩

/-- A projection that is in the list already may take its place there. -/
theorem Allotted.reuse (allotted : Allotted exprs projects all places) {place : Nat}
    {project : Expr} (entry : exprs[place]? = some project) :
    Allotted exprs (project :: projects) all (place :: places) where
  grown := allotted.grown
  placed := .cons (getElem?_of_grown allotted.grown entry) allotted.placed
  added e member := (allotted.added e member).imp_right (List.mem_cons_of_mem project)

/-- A projection may be appended, and takes the place behind the list. -/
theorem Allotted.append {project : Expr}
    (allotted : Allotted (exprs ++ [project]) projects all places) :
    Allotted exprs (project :: projects) all (exprs.length :: places) where
  grown := (List.prefix_append exprs [project]).trans allotted.grown
  placed := .cons (getElem?_of_grown allotted.grown (by simp)) allotted.placed
  added e member := by
    rcases allotted.added e member with old | later
    · rcases List.mem_append.mp old with earlier | new
      · exact .inl earlier
      · rw [List.mem_singleton.mp new]
        exact .inr (.head _)
    · exact .inr (.tail _ later)

/-- The list begins with the fields of the input. -/
def Leads (width : Nat) (exprs : List Expr) : Prop := ∀ i < width, exprs[i]? = some (.input i)

theorem Leads.append (leads : Leads width exprs) (more : List Expr) :
    Leads width (exprs ++ more) :=
  fun i inRange => getElem?_of_grown (List.prefix_append exprs more) (leads i inRange)

theorem leads_range (width : Nat) : Leads width ((List.range width).map .input) := by
  intro i inRange
  simp [inRange]

/-- In a list that begins with the fields of the input, all projections get their places. -/
theorem allot_allotted (leads : Leads width exprs) :
    Allotted exprs projects (allot width exprs projects).1 (allot width exprs projects).2 := by
  induction projects generalizing exprs with
  | nil => exact allotted_nil exprs
  | cons project projects ih =>
    have appended := (ih (leads.append [project])).append
    rw [allot]
    cases field : project.input? with
    | none => exact appended
    | some ordinal =>
      rw [Expr.input?_eq_some_iff] at field
      dsimp only
      split
      · rename_i inRange
        rw [field]
        exact (ih leads).reuse (leads ordinal inRange)
      · exact appended

/-! ## Reading the projections back -/

theorem Placed.lt_length (placed : Placed exprs places projects) :
    ∀ place ∈ places, place < exprs.length := by
  induction placed with
  | nil => simp
  | cons first _ ih =>
    rw [List.forall_mem_cons]
    exact ⟨(List.getElem?_eq_some_iff.mp first).1, ih⟩

theorem Placed.append (placed : Placed exprs places projects) (more : List Expr) :
    Placed (exprs ++ more) places projects :=
  placed.imp fun _ _ => getElem?_of_grown (List.prefix_append exprs more)

theorem Placed.projectExprs {p : Program} (placed : Placed p.exprs p.projects projects)
    (free : ∀ e ∈ projects, e.sharedRefs = []) : p.projectExprs = .ok projects := by
  rw [Program.projectExprs, Except.mapM_eq_ok_iff]
  refine (forall₂_imp_of_mem placed.flip fun project member place entry => ?_).flip
  exact expand_place entry (free project member)

/-- A list without references expands as it is. -/
theorem check_of_free {p : Program} (even : p.projects.length = p.output.length)
    (inRange : ∀ i ∈ p.projects ++ p.condition.toList, i < p.exprs.length)
    (free : ∀ e ∈ p.exprs, e.sharedRefs = []) : p.check = .ok p := by
  refine check_eq_ok_iff.mpr ⟨even, inRange, fun e member => ⟨e, ?_⟩, rfl⟩
  exact expandWithin_of_free p.exprs _ (free e member)

section Layout

variable (input output : Fields) (projects : List Expr) (condition : Option Expr)

/-- The program of the projections and the condition, before it is checked. -/
def layout : Program :=
  let given := allot input.length ((List.range input.length).map .input) projects
  { input
    exprs := given.1 ++ condition.toList
    projects := given.2
    condition := condition.map fun _ => given.1.length
    output }

theorem ofProjects_eq_check :
    ofProjects input projects condition output =
      (layout input output projects condition).check := rfl

theorem layout_placed :
    Placed (layout input output projects condition).exprs
      (layout input output projects condition).projects projects :=
  (allot_allotted (leads_range input.length)).placed.append condition.toList

/-- The condition is behind the projections. -/
theorem layout_condition {place : Nat}
    (present : place ∈ (layout input output projects condition).condition) :
    ∃ e ∈ condition, (layout input output projects condition).exprs[place]? = some e := by
  cases condition with
  | none => cases present
  | some e =>
    cases present
    exact ⟨e, rfl, by simp [layout]⟩

end Layout

theorem layout_free (input output : Fields) {projects : List Expr} {condition : Option Expr}
    (free : ∀ e ∈ projects, e.sharedRefs = [])
    (conditionFree : ∀ e ∈ condition, e.sharedRefs = []) :
    ∀ e ∈ (layout input output projects condition).exprs, e.sharedRefs = [] := by
  refine List.forall_mem_append.mpr ⟨fun e member => ?_, fun e member => ?_⟩
  · rcases (allot_allotted (leads_range input.length)).added e member with field | project
    · rcases List.mem_map.mp field with ⟨ordinal, _, rfl⟩
      rfl
    · exact free e project
  · exact conditionFree e (Option.mem_toList.mp member)

/-- Projections and a condition without references, and a name for each projection, make a
program.  Its projections are those given, in their order, and its condition is the one given. -/
theorem ofProjects_faithful (input : Fields) {output : Fields} {projects : List Expr}
    {condition : Option Expr} (free : ∀ e ∈ projects, e.sharedRefs = [])
    (conditionFree : ∀ e ∈ condition, e.sharedRefs = [])
    (named : output.length = projects.length) :
    ∃ p, ofProjects input projects condition output = .ok p ∧
      p.input = input ∧ p.output = output ∧
      p.projectExprs = .ok projects ∧ p.conditionExpr = .ok condition := by
  have placed := layout_placed input output projects condition
  have passes : (layout input output projects condition).check =
      .ok (layout input output projects condition) := by
    refine check_of_free (placed.length_eq.trans named.symm) ?_
      (layout_free input output free conditionFree)
    refine List.forall_mem_append.mpr ⟨placed.lt_length, fun place member => ?_⟩
    obtain ⟨e, _, entry⟩ :=
      layout_condition input output projects condition (Option.mem_toList.mp member)
    exact (List.getElem?_eq_some_iff.mp entry).1
  refine ⟨_, (ofProjects_eq_check input output projects condition).trans passes, rfl, rfl,
    placed.projectExprs free, ?_⟩
  cases condition with
  | none => rfl
  | some e =>
    obtain ⟨_, same, entry⟩ := layout_condition input output projects (some e) rfl
    cases same
    exact Except.map_eq_ok_iff.mpr ⟨e, expand_place entry (conditionFree e rfl), rfl⟩

end Program

namespace Staff

/-- The boss twice, a field that employees do not have, and whether an employee is
their own boss. -/
def bossColumns : List Expr :=
  [.input 1, .input 1, .input 7, .scalarCall .eq [.input 0, .input 1]]

end Staff

open Staff in
/-- A repeated field keeps its place, a field out of range gets a new one, and a condition that is
also a projection is put into the list once more. -/
theorem Program.ofProjects_faithful_bossColumns :
    ∃ p, ofProjects ["id", "boss"] bossColumns (some (.scalarCall .eq [.input 0, .input 1]))
        ["boss", "chief", "floor", "own"] = .ok p ∧
      p.projects = [1, 1, 2, 3] ∧ p.condition = some 4 ∧ p.projectExprs = .ok bossColumns ∧
      p.conditionExpr = .ok (some (.scalarCall .eq [.input 0, .input 1])) := by
  have free : ∀ e ∈ bossColumns, e.sharedRefs = [] := by
    simp [bossColumns, Expr.scalarCall, Expr.sharedRefs]
  have conditionFree : ∀ e ∈ some (Expr.scalarCall .eq [.input 0, .input 1]),
      e.sharedRefs = [] := by
    simp [Expr.scalarCall, Expr.sharedRefs]
  have names : ["boss", "chief", "floor", "own"].length = bossColumns.length := rfl
  obtain ⟨p, made, _, _, projects, condition⟩ :=
    ofProjects_faithful ["id", "boss"] free conditionFree names
  have places : p.projects = [1, 1, 2, 3] ∧ p.condition = some 4 := by
    cases made
    exact ⟨rfl, rfl⟩
  exact ⟨p, made, places.1, places.2, projects, condition⟩

end Pushdown
