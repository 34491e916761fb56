import Mathlib.Data.List.GetD
import Pushdown.Proofs.Compile.Scoping
import Pushdown.Proofs.Meaning.Algebra
import Pushdown.Proofs.Scalar.JoinKeys

/-!
# Facts about the rows of a plan

* An expression of a program means what it does after its references are expanded.
* The condition of a join that is all keys is the conjunction of the equalities of its keys.
* Grouping reads off one key for each group, whatever the rows are read from.
* The rows of a plan have one value for each field, and the fields have different names.
-/

namespace Pushdown

variable {V : Type} {I : Interpretation V}

/-- Reading all fields of a row in order gives the row. -/
theorem map_range_getD {row : Row V} {width : Nat} (even : row.length = width) (null : V) :
    (List.range width).map (fun position => row.getD position null) = row := by
  subst even
  refine List.ext_getElem (by simp) fun position _ bound => ?_
  rw [List.getElem_map, List.getElem_range, List.getD_eq_getElem _ _ bound]

/-- Projections to all fields in order give the row. -/
theorem map_valueOn_of_isIdentity {projects : List Expr} {width : Nat}
    (identity : Expr.isIdentity projects width = true) {row : Row V} (even : row.length = width) :
    projects.map (Expr.valueOn I row) = row := by
  rw [Expr.isIdentity_iff.mp identity, List.map_map]
  exact map_range_getD even I.null

/-! ## Programs -/

namespace Program

variable {exprs : List Expr} {row : Row V}

/-- Replacing references by expressions of the same value keeps the value. -/
theorem value_bindShared {resolve : Nat → Except Error Expr} {shared : Nat → V}
    (same : ∀ index target, resolve index = .ok target → target.valueOn I row = shared index)
    {e bound : Expr} (replaced : e.bindShared resolve = .ok bound) :
    bound.valueOn I row = e.value I shared row := by
  induction e generalizing bound with
  | literal value =>
    cases replaced
    rfl
  | input ordinal =>
    cases replaced
    rfl
  | shared index => exact same index bound replaced
  | call op operands ih =>
    simp only [Expr.bindShared, Expr.bindSharedAll_eq_mapM, Except.bind_eq_ok_iff] at replaced
    obtain ⟨results, each, built⟩ := replaced
    cases built
    have values : operands.map (Expr.value I shared row) = results.map (Expr.valueOn I row) :=
      map_eq_map_iff_forall₂.mpr (forall₂_imp_of_mem (Except.mapM_eq_ok_iff.mp each)
        fun e member _ done => (ih e member done).symm)
    rw [Expr.valueOn, Expr.value, Expr.values_eq_map, Expr.value, Expr.values_eq_map, values]
    rfl

theorem value_expandWithin {budget : Nat} {e expanded : Expr}
    (done : expandWithin exprs budget e = .ok expanded) :
    expanded.valueOn I row = e.value I (sharedValue I exprs row budget) row := by
  induction budget generalizing e expanded with
  | zero =>
    refine value_bindShared (fun index target failed => ?_) done
    cases failed
  | succ budget ih =>
    refine value_bindShared (fun index target found => ?_) done
    cases present : exprs[index]? with
    | some entry =>
      rw [present] at found
      rw [sharedValue, present]
      exact ih found
    | none =>
      rw [present] at found
      cases found

/-- An entry of the program's list means what its expansion does. -/
theorem valueAt_eq {p : Program} {index : Nat} {expanded : Expr}
    (done : p.expand (.shared index) = .ok expanded) :
    p.valueAt I row index = expanded.valueOn I row :=
  (value_expandWithin done).symm

theorem outputRow_eq {p : Program} {projects : List Expr} (done : p.projectExprs = .ok projects) :
    p.outputRow I row = projects.map (Expr.valueOn I row) :=
  map_eq_map_iff_forall₂.mpr ((Except.mapM_eq_ok_iff.mp done).imp fun _ _ expanded =>
    valueAt_eq expanded)

/-- A program that returns its input row does so. -/
theorem outputRow_of_isStar {p : Program} (star : p.isStar = true)
    (even : row.length = p.input.length) : p.outputRow I row = row := by
  rw [isStar, Bool.and_eq_true] at star
  cases expanded : p.projectExprs with
  | error e =>
    rw [expanded] at star
    cases star.2
  | ok projects =>
    rw [expanded] at star
    rw [outputRow_eq expanded]
    exact map_valueOn_of_isIdentity star.2 even

theorem keeps_of_none {p : Program} (absent : p.condition = none) : p.keeps I row = true := by
  rw [keeps, absent]
  rfl

/-- A program without a condition returns a row for each. -/
theorem filter_keeps_of_none {p : Program} (absent : p.condition = none) (rows : Bag V) :
    (rows.filter fun row => p.keeps I row) = rows :=
  Multiset.filter_eq_self.mpr fun _ _ => keeps_of_none absent

theorem keeps_eq {p : Program} {condition : Expr}
    (found : p.conditionExpr = .ok (some condition)) :
    p.keeps I row = I.isTrue (condition.valueOn I row) := by
  unfold conditionExpr at found
  rw [keeps]
  split at found
  · cases found
  · rename_i index present
    obtain ⟨expanded, done, same⟩ := Except.map_eq_ok_iff.mp found
    cases same
    rw [present, Option.all_some, valueAt_eq done]

end Program

/-! ## Join conditions -/

theorem Expr.valueOn_scalarCall (row : Row V) (op : ScalarOp) (operands : List Expr) :
    (Expr.scalarCall op operands).valueOn I row =
      I.sqlCall op (operands.map (Expr.valueOn I row)) := by
  rw [scalarCall, valueOn, value, values_eq_map, I.planCall_eq _ op _ rfl]
  rfl

namespace JoinKeys

theorem judges_valueOn (I : Interpretation V) (row : Row V) :
    Judges fun e => I.isTrue (e.valueOn I row) = true where
  truth := I.isTrue_true
  conjunction operands := by
    rw [Expr.valueOn_scalarCall, I.isTrue_and, List.all_map, List.all_eq_true]
    rfl
  symmetric a b := by
    simp only [Expr.valueOn_scalarCall, List.map_cons, List.map_nil]
    rw [I.eq_symm]

/-- Whether the equality that a pair of keys stands for is true on the row. -/
def equal (I : Interpretation V) (left : Nat) (row : Row V) (key : Nat × Nat) : Bool :=
  I.isTrue (I.sqlCall .eq [row.getD key.1 I.null, row.getD (left + key.2) I.null])

/-- Whether a left and a right row are equal at a pair of keys. -/
def matched (I : Interpretation V) (l r : Row V) (key : Nat × Nat) : Bool :=
  I.isTrue (I.sqlCall .eq [l.getD key.1 I.null, r.getD key.2 I.null])

theorem equal_append {l : Row V} {key : Nat × Nat} (inLeft : key.1 < l.length) (r : Row V) :
    equal I l.length (l ++ r) key = matched I l r key := by
  rw [equal, matched, List.getD_append _ _ _ _ inLeft, List.getD_append_right _ _ _ _ (by omega),
    Nat.add_sub_cancel_left]

theorem isTrue_equality (left : Nat) (row : Row V) (key : Nat × Nat) :
    I.isTrue ((equality left key).valueOn I row) = equal I left row key := by
  rw [equality, Expr.valueOn_scalarCall]
  rfl

/-- A condition that is all keys is true when the keys are equal. -/
theorem isTrue_of_isEqui {left right : Nat} {condition : Expr}
    (equi : (ofCondition left right condition).remaining = []) (row : Row V) :
    I.isTrue (condition.valueOn I row) =
      (ofCondition left right condition).pairs.all (equal I left row) := by
  rw [Bool.eq_iff_iff, (judges_valueOn I row).condition_iff left right, equi, List.all_eq_true]
  simp [isTrue_equality]

end JoinKeys

/-! ## Groups -/

section Groups

variable [DecidableEq V]

/-- Rows that are read off others are grouped as those. -/
theorem Bag.groups_map (key read : Row V → Row V) (rows : Bag V) :
    Bag.groups key (rows.map read) =
      (Bag.groups (fun row => key (read row)) rows).map fun group =>
        (group.1, group.2.map read) := by
  unfold Bag.groups
  rw [Multiset.map_map, Multiset.map_map]
  refine Multiset.map_congr rfl fun k _ => ?_
  rw [Multiset.filter_map]
  rfl

/-- Every key of a group is the key of a row. -/
theorem Bag.exists_key {key : Row V → Row V} {rows : Bag V} {group : Row V × Bag V}
    (member : group ∈ Bag.groups key rows) : ∃ row, group.1 = key row := by
  obtain ⟨k, mem, rfl⟩ := Multiset.mem_map.mp member
  obtain ⟨row, _, rfl⟩ := Multiset.mem_map.mp (Multiset.mem_dedup.mp mem)
  exact ⟨row, rfl⟩

/-- Grouping by the group set is all that an accepted aggregate does. -/
theorem Bag.aggregate_eq {width : Nat} {groupSet : List Nat} {groupingSets : List (List Nat)}
    {calls : List AggregateCall}
    (valid : checkAggregate width groupSet groupingSets calls = .ok ()) (rows : Bag V) :
    Bag.aggregate I groupSet groupingSets calls rows =
      (if groupSet.isEmpty then {([], rows)}
        else Bag.groups (fun row => groupSet.map fun column => row.getD column I.null) rows).map
        fun group => group.1 ++ calls.map fun call => call.value I group.2 := by
  obtain ⟨_, _, ⟨columns, rfl, perm⟩, _⟩ := checkAggregate_eq_ok_iff.mp valid
  have unmasked (row : Row V) : (groupSet.map fun column =>
      if column ∈ columns then row.getD column I.null else I.null) =
      groupSet.map fun column => row.getD column I.null :=
    List.map_congr_left fun column member => if_pos (perm.mem_iff.mpr member)
  unfold Bag.aggregate
  rw [Multiset.coe_singleton, Multiset.singleton_bind]
  dsimp only
  simp only [unmasked, perm.isEmpty_eq]
  cases groupSet with
  | nil => rfl
  | cons column rest => rfl

end Groups

/-! ## Widths and names -/

/-- Rows of a join have the values of both sides, or nulls in their place. -/
theorem Bag.length_of_mem_join {null : V} {kind : JoinKind} {leftWidth rightWidth : Nat}
    {on : Row V → Bool} {left right : Bag V} (leftRows : ∀ row ∈ left, row.length = leftWidth)
    (rightRows : ∀ row ∈ right, row.length = rightWidth) :
    ∀ row ∈ Bag.join null kind leftWidth rightWidth on left right,
      row.length = leftWidth + rightWidth := by
  have matched : ∀ row ∈ left.bind fun l => (right.filter fun r => on (l ++ r)).map (l ++ ·),
      row.length = leftWidth + rightWidth := by
    intro row member
    obtain ⟨l, inLeft, member⟩ := Multiset.mem_bind.mp member
    obtain ⟨r, kept, rfl⟩ := Multiset.mem_map.mp member
    rw [List.length_append, leftRows l inLeft, rightRows r (Multiset.mem_of_mem_filter kept)]
  have leftOnly : ∀ row ∈ (left.filter fun l => ∀ r ∈ right, on (l ++ r) = false).map
      (· ++ List.replicate rightWidth null), row.length = leftWidth + rightWidth := by
    intro row member
    obtain ⟨l, kept, rfl⟩ := Multiset.mem_map.mp member
    rw [List.length_append, leftRows l (Multiset.mem_of_mem_filter kept), List.length_replicate]
  have rightOnly : ∀ row ∈ (right.filter fun r => ∀ l ∈ left, on (l ++ r) = false).map
      (List.replicate leftWidth null ++ ·), row.length = leftWidth + rightWidth := by
    intro row member
    obtain ⟨r, kept, rfl⟩ := Multiset.mem_map.mp member
    rw [List.length_append, rightRows r (Multiset.mem_of_mem_filter kept), List.length_replicate]
  intro row member
  cases kind with
  | inner => exact matched row member
  | left =>
    rcases Multiset.mem_add.mp member with both | one
    · exact matched row both
    · exact leftOnly row one
  | right =>
    rcases Multiset.mem_add.mp member with both | one
    · exact matched row both
    · exact rightOnly row one
  | full =>
    rcases Multiset.mem_add.mp member with member | one
    · rcases Multiset.mem_add.mp member with both | one
      · exact matched row both
      · exact leftOnly row one
    · exact rightOnly row one

/-- Rows of a fold over bags come from the bags, if those of each step do. -/
theorem exists_of_mem_foldl {op : Bag V → Bag V → Bag V} {row : Row V}
    (step : ∀ left right, row ∈ op left right → row ∈ left ∨ row ∈ right) {start : Bag V}
    {rest : List (Bag V)} (member : row ∈ rest.foldl op start) :
    ∃ bag ∈ start :: rest, row ∈ bag := by
  induction rest generalizing start with
  | nil => exact ⟨start, List.mem_cons_self, member⟩
  | cons next rest ih =>
    obtain ⟨bag, among, mem⟩ := ih member
    rcases List.mem_cons.mp among with rfl | later
    · rcases step start next mem with first | second
      · exact ⟨start, List.mem_cons_self, first⟩
      · exact ⟨next, List.mem_cons_of_mem _ List.mem_cons_self, second⟩
    · exact ⟨bag, List.mem_cons_of_mem _ (List.mem_cons_of_mem _ later), mem⟩

/-- A set operation makes no rows of its own. -/
theorem SetKind.exists_of_mem_combine [DecidableEq V] {kind : SetKind} {all : Bool}
    {bags : List (Bag V)} {row : Row V} (member : row ∈ kind.combine all bags) :
    ∃ bag ∈ bags, row ∈ bag := by
  have sum (left right : Bag V) (mem : row ∈ left + right) : row ∈ left ∨ row ∈ right :=
    Multiset.mem_add.mp mem
  have meet (left right : Bag V) (mem : row ∈ left ∩ right) : row ∈ left ∨ row ∈ right :=
    .inl (Multiset.mem_inter.mp mem).1
  have rest (left right : Bag V) (mem : row ∈ left - right) : row ∈ left ∨ row ∈ right :=
    .inl (Multiset.mem_of_le (Multiset.sub_le_self left right) mem)
  cases bags with
  | nil => exact absurd member (Multiset.notMem_zero row)
  | cons first others =>
    cases kind <;> cases all
    · exact exists_of_mem_foldl sum (Multiset.mem_dedup.mp member)
    · exact exists_of_mem_foldl sum member
    · exact exists_of_mem_foldl meet (Multiset.mem_dedup.mp member)
    · exact exists_of_mem_foldl meet member
    · exact ⟨first, List.mem_cons_self,
        Multiset.mem_dedup.mp (Multiset.mem_of_mem_filter member)⟩
    · exact exists_of_mem_foldl rest member

namespace RemotePlan

/-- The fields that the node names by itself have different names. -/
def FieldsDistinct (p : RemotePlan) : Prop :=
  match p.op with
  | .scan _ | .project .. | .calculate .. | .values _ => p.fields.Nodup
  | _ => True

/-- The inputs of the node, if it is a set operation, are there and have the node's width. -/
def SetFits (p : RemotePlan) : Prop :=
  match p.op with
  | .set _ inputs _ => inputs ≠ [] ∧ ∀ input ∈ inputs, input.fields.length = p.fields.length
  | _ => True

/-- The database has rows of the right width for the table of the node, if it scans one. -/
def RowsTyped (db : List String → Bag V) (p : RemotePlan) : Prop :=
  ∀ table ∈ p.scanned?, ∀ row ∈ db table.name, row.length = table.fields.length

/-- The inputs of the node, if it is a set operation, have the node's width. -/
def SetEven (p : RemotePlan) : Prop :=
  match p.op with
  | .set _ inputs _ => ∀ input ∈ inputs, input.fields.length = p.fields.length
  | _ => True

/-- What a plan has to be at each node for its rows to have a value for each field. -/
structure RowsEven (db : List String → Bag V) (p : RemotePlan) : Prop where
  sound : p.Sound
  programs : p.ProgramFits
  sets : p.SetEven
  typed : p.RowsTyped db

/-- What a plan has to be at each node for its rows to be those of its statement. -/
structure RowsFit (tables : List String → Fields) (db : List String → Bag V) (p : RemotePlan) :
    Prop where
  names : p.NamesFit tables
  distinct : p.FieldsDistinct
  sets : p.SetFits
  typed : p.RowsTyped db

variable {tables : List String → Fields} {db : List String → Bag V}

theorem fields_nodup {p : RemotePlan} (fits : p.Everywhere (RowsFit tables db)) :
    p.fields.Nodup := by
  induction p with
  | scan convention fields table => exact fits.root.distinct
  | join convention fields left right condition kind keys =>
    obtain ⟨joined, _⟩ := fits.root.names.1
    dsimp only at joined ⊢
    rw [joined]
    exact Fields.joined_nodup _ _
  | filter convention fields input condition ih =>
    obtain ⟨same, _⟩ := fits.root.names.1
    dsimp only at same ⊢
    rw [same]
    exact ih (fits.input (.head _))
  | project convention fields input projects => exact fits.root.distinct
  | calculate convention fields input program => exact fits.root.distinct
  | aggregate convention fields input groupSet groupingSets calls =>
    obtain ⟨named, _⟩ := fits.root.names.1
    dsimp only at named ⊢
    rw [named]
    exact Naming.distinct_nodup _
  | sort convention fields input keys ih =>
    obtain ⟨same, _⟩ := fits.root.names.1
    dsimp only at same ⊢
    rw [same]
    exact ih (fits.input (.head _))
  | set convention fields kind inputs all ih =>
    obtain ⟨first, _⟩ := fits.root.names.1
    dsimp only at first ⊢
    rw [first]
    cases inputs with
    | nil => exact List.nodup_nil
    | cons input rest => exact ih input (.head _) (fits.input (.head _))
  | values convention fields tuples => exact fits.root.distinct
  | modify convention fields table input operation updateColumns flattened target query =>
    have count : fields = .rowCount := fits.root.names.1
    rw [count]
    exact List.nodup_singleton _

/-- The rows of a plan have a value for each of its fields. -/
theorem length_of_rowsEven [DecidableEq V] {p : RemotePlan} (fits : p.Everywhere (RowsEven db)) :
    ∀ row ∈ p.eval I db, row.length = p.fields.length := by
  induction p with
  | scan convention fields table =>
    intro row member
    rw [eval] at member
    have same : fields = table.fields := fits.root.sound
    dsimp only
    rw [same]
    exact fits.root.typed table rfl row member
  | join convention fields left right condition kind keys leftIh rightIh =>
    obtain ⟨joined, _⟩ := fits.root.sound
    dsimp only at joined ⊢
    rw [eval, joined, Fields.joined_length]
    exact Bag.length_of_mem_join (leftIh (fits.input (.head _)))
      (rightIh (fits.input (.tail _ (.head _))))
  | filter convention fields input condition ih =>
    intro row member
    obtain ⟨same, _⟩ := fits.root.sound
    rw [eval] at member
    dsimp only at same ⊢
    rw [same]
    exact ih (fits.input (.head _)) row (Multiset.mem_of_mem_filter member)
  | project convention fields input projects =>
    intro row member
    obtain ⟨named, _⟩ := fits.root.sound
    rw [eval] at member
    obtain ⟨source, _, rfl⟩ := Multiset.mem_map.mp member
    rw [List.length_map]
    exact named
  | calculate convention fields input program =>
    intro row member
    obtain ⟨output, _⟩ := fits.root.sound
    obtain ⟨built, _⟩ := fits.root.programs
    rw [eval] at member
    obtain ⟨source, _, rfl⟩ := Multiset.mem_map.mp member
    dsimp only at output ⊢
    rw [Program.outputRow, List.length_map, built.length_eq, output]
  | aggregate convention fields input groupSet groupingSets calls =>
    intro row member
    obtain ⟨named, valid⟩ := fits.root.sound
    rw [eval, Bag.aggregate_eq valid] at member
    obtain ⟨group, mem, rfl⟩ := Multiset.mem_map.mp member
    have key : group.1.length = groupSet.length := by
      split at mem
      · rename_i none
        rw [Multiset.mem_singleton.mp mem, List.isEmpty_iff.mp none]
        rfl
      · obtain ⟨source, same⟩ := Bag.exists_key mem
        rw [same, List.length_map]
    dsimp only at named ⊢
    rw [List.length_append, List.length_map, key, named, aggregateFields_length]
  | sort convention fields input keys ih =>
    intro row member
    obtain ⟨same, _⟩ := fits.root.sound
    rw [eval] at member
    dsimp only at same ⊢
    rw [same]
    exact ih (fits.input (.head _)) row member
  | set convention fields kind inputs all ih =>
    intro row member
    rw [eval, evalAll_eq_map] at member
    obtain ⟨bag, listed, mem⟩ := SetKind.exists_of_mem_combine member
    obtain ⟨input, among, rfl⟩ := List.mem_map.mp listed
    exact (ih input among (fits.input among) row mem).trans (fits.root.sets input among)
  | values convention fields tuples =>
    intro row member
    rw [eval] at member
    obtain ⟨tuple, among, rfl⟩ := List.mem_map.mp (Multiset.mem_coe.mp member)
    rw [List.length_map]
    exact fits.root.sound tuple among
  | modify convention fields table input operation updateColumns flattened target query =>
    intro row member
    rw [eval] at member
    exact absurd member (Multiset.notMem_zero row)

theorem RowsFit.rowsEven {p : RemotePlan} (fits : p.RowsFit tables db) : p.RowsEven db := by
  obtain ⟨⟨sound, programs, _⟩, _, sets, typed⟩ := fits
  refine ⟨sound, programs, ?_, typed⟩
  rcases p with ⟨convention, fields, op⟩
  cases op with
  | set kind inputs all => exact sets.2
  | _ => trivial

theorem length_of_mem_eval [DecidableEq V] {p : RemotePlan}
    (fits : p.Everywhere (RowsFit tables db)) :
    ∀ row ∈ p.eval I db, row.length = p.fields.length :=
  length_of_rowsEven fun part member => (fits part member).rowsEven

end RemotePlan

/-! ## Admissible plans -/

namespace Plan

/-- The fields that the node names by itself have different names. -/
def FieldsDistinct : Plan → Prop
  | .scan table => table.fields.Nodup
  | .project _ _ fields => fields.Nodup
  | .calculate _ program => program.output.Nodup
  | .values fields _ => fields.Nodup
  | _ => True

/-- The program of the node, if it has one, was checked and is one for rows of the
node's input. -/
def ProgramFits : Plan → Prop
  | .calculate input program => program.Built ∧ program.input = input.fields
  | _ => True

/-- The inputs of the node, if it is a set operation, are there and have one width. -/
def SetFits : Plan → Prop
  | .set _ inputs _ => inputs ≠ [] ∧ ∃ width, ∀ input ∈ inputs, input.fields.length = width
  | _ => True

/-- What is left to the caller to see to in a plan. -/
structure Admissible (plan : Plan) : Prop where
  distinct : ∀ part ∈ plan.parts, part.FieldsDistinct
  programs : ∀ part ∈ plan.parts, part.ProgramFits
  sets : ∀ part ∈ plan.parts, part.SetFits
  tables : ∀ t ∈ plan.tables, ∀ u ∈ plan.tables, t.name = u.name → t.fields = u.fields

variable {c : Convention} {plan : Plan} {db : List String → Bag V}

theorem FieldsDistinct.boundTo (distinct : plan.FieldsDistinct) :
    (plan.boundTo c).FieldsDistinct := by
  cases plan with
  | scan table => exact distinct
  | project input projects fields => exact distinct
  | calculate input program => exact distinct
  | values fields tuples => exact distinct
  | _ => trivial

theorem ProgramFits.boundTo (fits : plan.ProgramFits) : (plan.boundTo c).ProgramFits := by
  cases plan with
  | calculate input program => exact ⟨fits.1, fits.2.trans (boundTo_fields c input).symm⟩
  | _ => trivial

theorem SetFits.boundTo (fits : plan.SetFits) : (plan.boundTo c).SetFits := by
  cases plan with
  | set kind inputs all =>
    obtain ⟨nonempty, width, even⟩ := fits
    simp only [Plan.boundTo, RemotePlan.SetFits, boundToAll_eq_map, Plan.fields]
    cases inputs with
    | nil => exact absurd rfl nonempty
    | cons first rest =>
      refine ⟨nofun, List.forall_mem_map.mpr fun input member => ?_⟩
      rw [boundTo_fields, firstFields, even input member, even first (.head _)]
  | _ => trivial

/-- A pushable plan that the caller has seen to has what it takes at every node. -/
theorem Admissible.rowsFit (admissible : plan.Admissible) (pushable : Pushable c plan)
    (typed : ∀ table ∈ plan.tables, ∀ row ∈ db table.name, row.length = table.fields.length) :
    (plan.boundTo c).Everywhere (RemotePlan.RowsFit (plan.boundTo c).catalog db) := by
  have same := tables_boundTo c plan
  have tables := RemotePlan.everywhere_tableFits (p := plan.boundTo c) (same ▸ admissible.tables)
  have fits : ∀ part ∈ plan.parts, (part.boundTo c).FieldsDistinct ∧
      (part.boundTo c).ProgramFits ∧ (part.boundTo c).SetFits := fun part member =>
    ⟨(admissible.distinct part member).boundTo, (admissible.programs part member).boundTo,
      (admissible.sets part member).boundTo⟩
  intro bound member
  have among := member
  rw [parts_boundTo] at among
  obtain ⟨part, mem, rfl⟩ := List.mem_map.mp among
  obtain ⟨distinct, programs, sets⟩ := fits part mem
  refine ⟨⟨pushable.everywhere_sound _ member, programs, tables _ member⟩, distinct, sets, ?_⟩
  intro table scanned
  refine typed table (same ▸ ?_)
  exact List.mem_filterMap.mpr ⟨_, member, scanned⟩

end Plan

end Pushdown
