import Pushdown.Proofs.Meaning.Preservation
import Pushdown.Relation.Unique

/-!
# Columns that are said to be unique are

`RemotePlan.isUniqueOn` answers from declared keys, from operators that remove duplicates and from
constant rows.  Where it says yes, no two rows of the plan agree on the columns, in any database
in which the declared keys are keys.

* `Bag.UniqueOn`: no two rows of a bag agree on the columns; a row that occurs twice agrees with
  itself.
* `RemotePlan.uniqueOn_of_isUniqueOn`: the answer is right at every node, given that it is at the
  inputs.
* `RuleSet.isUniqueOn_sound`: the same of a converted plan, by what its caller has to see to.
-/

namespace Pushdown

variable {V : Type} {I : Interpretation V}

/-! ## Rows told apart by their columns -/

namespace Bag

/-- What a row has in the columns. -/
def keyOf (null : V) (columns : List Nat) (row : Row V) : Row V :=
  columns.map fun column => row.getD column null

/-- No two rows at different places of the bag agree on all of the columns. -/
def UniqueOn (null : V) (columns : List Nat) (rows : Bag V) : Prop :=
  (rows.map (keyOf null columns)).Nodup

variable {null : V} {columns sources : List Nat} {rows fewer : Bag V}

theorem keyOf_eq_iff {a b : Row V} :
    keyOf null columns a = keyOf null columns b ↔
      ∀ column ∈ columns, a.getD column null = b.getD column null :=
  List.map_inj_left

/-- Rows made of rows that the sources tell apart are told apart by the columns, if they agree
there only when those do. -/
theorem UniqueOn.map {make : Row V → Row V} (unique : UniqueOn null sources rows)
    (reads : ∀ a b, keyOf null columns (make a) = keyOf null columns (make b) →
      keyOf null sources a = keyOf null sources b) :
    UniqueOn null columns (rows.map make) := by
  rw [UniqueOn, Multiset.map_map]
  refine Multiset.Nodup.map_on (fun a inA b inB same => ?_) (Multiset.Nodup.of_map _ unique)
  exact Multiset.inj_on_of_nodup_map unique a inA b inB (reads a b same)

theorem UniqueOn.of_subset (unique : UniqueOn null sources rows) (contained : sources ⊆ columns) :
    UniqueOn null columns rows := by
  rw [← Multiset.map_id' rows]
  refine unique.map fun a b same => ?_
  rw [keyOf_eq_iff] at same ⊢
  exact fun column member => same column (contained member)

theorem UniqueOn.of_le (unique : UniqueOn null columns rows) (le : fewer ≤ rows) :
    UniqueOn null columns fewer :=
  Multiset.nodup_of_le (Multiset.map_le_map le) unique

/-- Rows that open with different keys are told apart by columns that hold the whole key. -/
theorem uniqueOn_of_keys {keys : Bag V} {width : Nat} (distinct : keys.Nodup)
    (even : ∀ key ∈ keys, key.length = width) (covers : coversAll columns width = true)
    (rest : Row V → Row V) : UniqueOn null columns (keys.map fun key => key ++ rest key) := by
  rw [UniqueOn, Multiset.map_map]
  refine Multiset.Nodup.map_on (fun a inA b inB same => ?_) distinct
  have same := keyOf_eq_iff.mp same
  have lengthA := even a inA
  have lengthB := even b inB
  refine List.ext_getElem (lengthA.trans lengthB.symm) fun column inRow inOther => ?_
  have covered : column ∈ columns := by
    simp only [coversAll, List.all_eq_true, List.mem_range, List.contains_iff_mem] at covers
    exact covers column (lengthA ▸ inRow)
  have agree := same column covered
  rwa [List.getD_append _ _ _ _ inRow, List.getD_append _ _ _ _ inOther,
    List.getD_eq_getElem _ _ inRow, List.getD_eq_getElem _ _ inOther] at agree

/-- Rows that differ are told apart by all their columns. -/
theorem uniqueOn_of_nodup {width : Nat} (distinct : rows.Nodup)
    (even : ∀ row ∈ rows, row.length = width) (covers : coversAll columns width = true) :
    UniqueOn null columns rows := by
  simpa using uniqueOn_of_keys distinct even covers fun _ => []

end Bag

/-! ## Operators -/

/-- Rows of projections agree on the input columns behind the columns that they agree on. -/
theorem keyOf_sourceColumns {projects : List Expr} {columns : List Nat} {a b : Row V}
    (same : Bag.keyOf I.null columns (projects.map (Expr.valueOn I a)) =
      Bag.keyOf I.null columns (projects.map (Expr.valueOn I b))) :
    Bag.keyOf I.null (sourceColumns projects columns) a =
      Bag.keyOf I.null (sourceColumns projects columns) b := by
  rw [Bag.keyOf_eq_iff] at same ⊢
  intro ordinal member
  obtain ⟨column, listed, found⟩ := List.mem_filterMap.mp member
  obtain ⟨project, projected, plain⟩ := Option.bind_eq_some_iff.mp found
  have reads (row : Row V) :
      (projects.map (Expr.valueOn I row)).getD column I.null = row.getD ordinal I.null := by
    cases project with
    | input own =>
      cases plain
      rw [List.getD_eq_getElem?_getD, List.getElem?_map, projected]
      rfl
    | _ => cases plain
  rw [← reads a, ← reads b]
  exact same column listed

section Operators

variable [DecidableEq V]

/-- An accepted aggregate has one row for each key, which it opens with. -/
theorem Bag.uniqueOn_aggregate {width : Nat} {groupSet columns : List Nat}
    {groupingSets : List (List Nat)} {calls : List AggregateCall}
    (valid : checkAggregate width groupSet groupingSets calls = .ok ())
    (covers : coversAll columns groupSet.length = true) (rows : Bag V) :
    UniqueOn I.null columns (Bag.aggregate I groupSet groupingSets calls rows) := by
  rw [Bag.aggregate_eq valid]
  split
  · exact Multiset.nodup_singleton _
  · rw [Bag.groups, Multiset.map_map]
    refine uniqueOn_of_keys (Multiset.nodup_dedup _) (fun key member => ?_) covers _
    obtain ⟨row, _, rfl⟩ := Multiset.mem_map.mp (Multiset.mem_dedup.mp member)
    exact List.length_map _

theorem SetKind.nodup_combine (kind : SetKind) (bags : List (Bag V)) :
    (kind.combine false bags).Nodup := by
  cases bags with
  | nil => exact Multiset.nodup_zero
  | cons first rest =>
    cases kind with
    | union => exact Multiset.nodup_dedup _
    | intersect => exact Multiset.nodup_dedup _
    | minus => exact Multiset.Nodup.filter _ (Multiset.nodup_dedup _)

end Operators

/-! ## Constant rows -/

/-- Whether the literal is a number that differs from itself. -/
def Literal.isNaN : Literal → Bool
  | .double x => x.isNaN
  | _ => false

/-- Constant rows of one width that agree on a column as rows of values agree as literals, where
equal values come from literals that agree. -/
theorem agreeAt_of_getD_eq {a b : List Literal} {column : Nat} (even : a.length = b.length)
    (faithful : ∀ x ∈ a, ∀ y ∈ b, I.literal x = I.literal y → x.sameValue y = true)
    (same : (a.map I.literal).getD column I.null = (b.map I.literal).getD column I.null) :
    agreeAt a b column = true := by
  by_cases inRow : column < a.length
  · have inOther : column < b.length := even ▸ inRow
    rw [List.getD_eq_getElem _ _ (by simpa using inRow), List.getElem_map,
      List.getD_eq_getElem _ _ (by simpa using inOther), List.getElem_map] at same
    rw [agreeAt, List.getElem?_eq_getElem inRow, List.getElem?_eq_getElem inOther]
    exact faithful _ (List.getElem_mem inRow) _ (List.getElem_mem inOther) same
  · have outside : b.length ≤ column := even ▸ Nat.not_lt.mp inRow
    rw [agreeAt, List.getElem?_eq_none (Nat.not_lt.mp inRow), List.getElem?_eq_none outside]

/-- Constant rows that are pairwise apart as literals are apart as rows of values. -/
theorem Bag.uniqueOn_values {columns : List Nat} {tuples : List (List Literal)} {width : Nat}
    (even : ∀ tuple ∈ tuples, tuple.length = width)
    (faithful : ∀ x ∈ tuples.flatten, ∀ y ∈ tuples.flatten,
      I.literal x = I.literal y → x.sameValue y = true)
    (apart : tuplesUniqueOn columns tuples = true) :
    UniqueOn I.null columns (tuples.map fun tuple => tuple.map I.literal) := by
  rw [UniqueOn, Multiset.map_coe, Multiset.coe_nodup, List.map_map]
  induction tuples with
  | nil => exact List.nodup_nil
  | cons first rest ih =>
    rw [tuplesUniqueOn, Bool.and_eq_true] at apart
    obtain ⟨fromFirst, others⟩ := apart
    obtain ⟨own, below⟩ := List.forall_mem_cons.mp even
    have member {tuple : List Literal} (listed : tuple ∈ first :: rest) {x : Literal}
        (mem : x ∈ tuple) : x ∈ (first :: rest).flatten :=
          List.mem_flatten.mpr ⟨tuple, listed, mem⟩
    rw [List.map_cons, List.nodup_cons]
    constructor
    · intro again
      obtain ⟨tuple, listed, same⟩ := List.mem_map.mp again
      have differ := List.all_eq_true.mp fromFirst tuple listed
      obtain ⟨column, among, unequal⟩ := List.any_eq_true.mp differ
      have agree := agreeAt_of_getD_eq (own.trans (below tuple listed).symm)
        (fun x inFirst y inTuple => faithful x (member (.head _) inFirst) y
          (member (.tail _ listed) inTuple))
        (keyOf_eq_iff.mp same.symm column among)
      rw [agree] at unequal
      cases unequal
    · refine ih below (fun x inX y inY => ?_) others
      rw [List.flatten_cons] at faithful
      exact faithful x (List.mem_append_right _ inX) y (List.mem_append_right _ inY)

/-! ## Plans -/

namespace RemotePlan

/-- The literals of the node, if it gives constant rows. -/
def rowLiterals (p : RemotePlan) : List Literal :=
  match p.op with
  | .values tuples => tuples.flatten
  | _ => []

/-- What a plan has to be at each node, over a database, for an answer about its columns to be
right. -/
structure RowsTold (I : Interpretation V) (db : List String → Bag V) (p : RemotePlan) : Prop where
  even : p.RowsEven db
  keyed : ∀ table ∈ p.scanned?, ∀ key ∈ table.uniqueKeys, Bag.UniqueOn I.null key (db table.name)
  faithful : ∀ a ∈ p.rowLiterals, ∀ b ∈ p.rowLiterals,
    I.literal a = I.literal b → a.sameValue b = true

variable [DecidableEq V] {db : List String → Bag V}

/-- Columns that are said to be unique tell the rows of the plan apart. -/
theorem uniqueOn_of_isUniqueOn {p : RemotePlan} (told : p.Everywhere (RowsTold I db))
    {columns : List Nat} (answer : p.isUniqueOn columns = true) :
    Bag.UniqueOn I.null columns (p.eval I db) := by
  induction p generalizing columns with
  | scan convention fields table =>
    simp only [isUniqueOn, List.any_eq_true] at answer
    obtain ⟨key, declared, within⟩ := answer
    have contained : key ⊆ columns := fun column member => by
      simpa using List.all_eq_true.mp within column member
    rw [eval]
    exact (told.root.keyed table rfl key declared).of_subset contained
  | join => simp [isUniqueOn] at answer
  | filter convention fields input condition ih =>
    rw [isUniqueOn] at answer
    rw [eval]
    exact (ih (told.input (.head _)) answer).of_le (Multiset.filter_le _ _)
  | project convention fields input projects ih =>
    simp only [isUniqueOn, Bool.and_eq_true] at answer
    rw [eval]
    exact (ih (told.input (.head _)) answer.2).map fun _ _ => keyOf_sourceColumns
  | calculate convention fields input program ih =>
    rw [isUniqueOn] at answer
    cases expanded : program.projectExprs with
    | error e => simp [expanded] at answer
    | ok projects =>
      simp only [expanded, Bool.and_eq_true] at answer
      have below := ih (told.input (.head _)) answer.2
      rw [eval]
      refine (below.of_le (Multiset.filter_le _ _)).map fun a b same => ?_
      rw [Program.outputRow_eq expanded, Program.outputRow_eq expanded] at same
      exact keyOf_sourceColumns same
  | aggregate convention fields input groupSet groupingSets calls =>
    rw [isUniqueOn] at answer
    rw [eval]
    exact Bag.uniqueOn_aggregate told.root.even.sound.2 answer _
  | sort convention fields input keys ih =>
    rw [isUniqueOn] at answer
    rw [eval]
    exact ih (told.input (.head _)) answer
  | set convention fields kind inputs all =>
    have even := length_of_rowsEven (I := I) fun part member => (told part member).even
    obtain ⟨_, _, distinct⟩ := told.root.even.sound
    rw [eval] at even ⊢
    cases all with
    | true =>
      -- Only a union may keep duplicates, and of that nothing is said.
      cases kind with
      | union => simp [isUniqueOn] at answer
      | intersect => cases distinct (by decide)
      | minus => cases distinct (by decide)
    | false =>
      have covers : coversAll columns fields.length = true := by
        cases kind <;> simpa [isUniqueOn] using answer
      exact Bag.uniqueOn_of_nodup (SetKind.nodup_combine kind _) even covers
  | values convention fields tuples =>
    rw [isUniqueOn] at answer
    rw [eval]
    exact Bag.uniqueOn_values told.root.even.sound told.root.faithful answer
  | modify => simp [isUniqueOn] at answer

end RemotePlan

namespace Plan

/-- The inputs of the node, if it is a set operation, have one width. -/
def SetEven : Plan → Prop
  | .set _ inputs _ => ∃ width, ∀ input ∈ inputs, input.fields.length = width
  | _ => True

/-- The literals of the node, if it gives constant rows. -/
def rowLiterals : Plan → List Literal
  | .values _ tuples => tuples.flatten
  | _ => []

/-- What is left to the caller to see to in a plan whose columns are asked about. -/
structure Comparable (plan : Plan) : Prop where
  programs : ∀ part ∈ plan.parts, part.ProgramFits
  sets : ∀ part ∈ plan.parts, part.SetEven
  numbers : ∀ part ∈ plan.parts, ∀ a ∈ part.rowLiterals, a.isNaN = false

/-- Equal values come from equal literals, and from no others, in each of the plan's lists of
constant rows. -/
def LiteralsFaithful (I : Interpretation V) (plan : Plan) : Prop :=
  ∀ part ∈ plan.parts, ∀ a ∈ part.rowLiterals, ∀ b ∈ part.rowLiterals,
    a.isNaN = false → b.isNaN = false → (I.literal a = I.literal b ↔ a.sameValue b = true)

/-- The tables of the plan have rows of their fields, and no two agree on a declared key. -/
structure KeysHold (null : V) (db : List String → Bag V) (plan : Plan) : Prop where
  typed : ∀ table ∈ plan.tables, ∀ row ∈ db table.name, row.length = table.fields.length
  keyed : ∀ table ∈ plan.tables, ∀ key ∈ table.uniqueKeys, Bag.UniqueOn null key (db table.name)

variable {c : Convention} {plan : Plan} {db : List String → Bag V}

theorem SetEven.boundTo (even : plan.SetEven) : (plan.boundTo c).SetEven := by
  cases plan with
  | set kind inputs all =>
    obtain ⟨width, same⟩ := even
    simp only [Plan.boundTo, RemotePlan.SetEven, boundToAll_eq_map, Plan.fields]
    cases inputs with
    | nil => simp
    | cons first rest =>
      refine List.forall_mem_map.mpr fun input member => ?_
      rw [boundTo_fields, firstFields, same input member, same first (.head _)]
  | _ => trivial

theorem rowLiterals_boundTo : (plan.boundTo c).rowLiterals = plan.rowLiterals := by
  cases plan <;> simp [boundTo, RemotePlan.rowLiterals, rowLiterals]

/-- A pushable plan that the caller has seen to has what it takes at every node. -/
theorem Comparable.rowsTold (comparable : plan.Comparable) (pushable : Pushable c plan)
    (faithful : plan.LiteralsFaithful I) (holds : plan.KeysHold I.null db) :
    (plan.boundTo c).Everywhere (RemotePlan.RowsTold I db) := by
  intro bound member
  have scanned : ∀ table ∈ bound.scanned?, table ∈ plan.tables := fun table found =>
    tables_boundTo c plan ▸ List.mem_filterMap.mpr ⟨bound, member, found⟩
  have sound := pushable.everywhere_sound bound member
  rw [parts_boundTo] at member
  obtain ⟨part, mem, rfl⟩ := List.mem_map.mp member
  have programs := (comparable.programs part mem).boundTo (c := c)
  have sets := (comparable.sets part mem).boundTo (c := c)
  refine ⟨⟨sound, programs, sets, fun table found => holds.typed table (scanned table found)⟩,
    fun table found => holds.keyed table (scanned table found), ?_⟩
  rw [rowLiterals_boundTo]
  intro a inA b inB
  have number := comparable.numbers part mem
  exact (faithful part mem a inA b inB (number a inA) (number b inB)).mp

end Plan

/-- Where a converted plan says that columns are unique, no two of its rows agree on them, in
every database in which the declared keys are keys. -/
theorem RuleSet.isUniqueOn_sound [DecidableEq V] {rs : RuleSet} {plan : Plan} {p : RemotePlan}
    (converted : rs.convert plan = .ok (some p)) (comparable : plan.Comparable)
    {I : Interpretation V} (faithful : plan.LiteralsFaithful I) {db : List String → Bag V}
    (holds : plan.KeysHold I.null db) {columns : List Nat}
    (answer : p.isUniqueOn columns = true) :
    Bag.UniqueOn I.null columns (p.eval I db) := by
  obtain ⟨_, pushable, rfl⟩ := (rs.convert_eq_some_iff plan p).mp converted
  exact RemotePlan.uniqueOn_of_isUniqueOn (comparable.rowsTold pushable faithful holds) answer

namespace Staff

/-- Desks by their number, with who sits there. -/
def desks : Table :=
  { name := ["desk"], fields := ["no", "owner"], uniqueKeys := [[0]], host := some "hr" }

/-- The desks of one owner, with the number last. -/
def ownDesks : Program where
  input := ["no", "owner"]
  exprs := [.input 0, .input 1, .scalarCall .eq [.shared 1, .literal (.integer 4)]]
  projects := [1, 0]
  condition := some 2
  output := ["owner", "no"]

/-- How many desks each owner has, next to two counts from elsewhere; the count first. -/
def deskCounts : Plan :=
  .project
    (.set .union
      [.aggregate (.scan desks) [1] [[1]] [⟨"count", false, [], "n"⟩],
        .values ["owner", "n"] [[.integer 4, .integer 0], [.integer 4, .integer 1]]] false)
    [.input 1, .input 0] ["n", "owner"]

/-- Three desks for two owners. -/
def office : List String → Bag (Option Int)
  | ["desk"] => {[some 1, some 4], [some 2, some 4], [some 3, some 5]}
  | _ => 0

theorem office_keysHold {plan : Plan} (tables : ∀ table ∈ plan.tables, table = desks) :
    plan.KeysHold numbers.null office := by
  refine ⟨fun table member => ?_, fun table member => ?_⟩
  · rw [tables table member]
    simp [office, desks]
  · rw [tables table member]
    simp [office, desks, Bag.UniqueOn, Bag.keyOf]

theorem ownDesks_comparable : (Plan.calculate (.scan desks) ownDesks).Comparable := by
  have built : ownDesks.Built := .checked (p := ownDesks) rfl
  refine ⟨?_, ?_, ?_⟩
  · simp only [Plan.parts, List.forall_mem_cons, Plan.ProgramFits]
    exact ⟨⟨built, rfl⟩, trivial, by simp⟩
  · simp [Plan.parts, Plan.SetEven]
  · simp [Plan.parts, Plan.rowLiterals]

theorem deskCounts_comparable : deskCounts.Comparable := by
  refine ⟨?_, ?_, ?_⟩
  · simp [deskCounts, Plan.parts, Plan.ProgramFits]
  · simp only [deskCounts, Plan.parts, Plan.partsAll_eq_flatMap, List.forall_mem_cons,
      Plan.SetEven]
    exact ⟨trivial, ⟨2, by decide⟩, by simp [Plan.parts]⟩
  · simp [deskCounts, Plan.parts, Plan.rowLiterals, Literal.isNaN]

end Staff

open Staff in
/-- A number of a desk is found once, also behind a program that turns the columns round, and so
is each pair of a count and an owner. -/
theorem RuleSet.isUniqueOn_sound_desks :
    ∃ p q, (RuleSet.full database).convert (.calculate (.scan desks) ownDesks) = .ok (some p) ∧
      (RuleSet.full database).convert deskCounts = .ok (some q) ∧
      p.isUniqueOn [1] = true ∧ p.isUniqueOn [0] = false ∧ q.isUniqueOn [1, 0] = true ∧
      p.eval numbers office = {[some 4, some 1], [some 4, some 2]} ∧
      q.eval numbers office =
        {[some 2, some 4], [some 1, some 5], [some 0, some 4], [some 1, some 4]} ∧
      Bag.UniqueOn numbers.null [1] (p.eval numbers office) ∧
      Bag.UniqueOn numbers.null [1, 0] (q.eval numbers office) := by
  have own : (RuleSet.full database).convert (.calculate (.scan desks) ownDesks) =
      .ok (some ((Plan.calculate (.scan desks) ownDesks).boundTo database)) := rfl
  have counts : (RuleSet.full database).convert deskCounts =
      .ok (some (deskCounts.boundTo database)) := rfl
  refine ⟨_, _, own, counts, rfl, rfl, rfl, by decide +kernel, by decide +kernel, ?_, ?_⟩
  · refine RuleSet.isUniqueOn_sound own ownDesks_comparable ?_ (office_keysHold ?_) rfl
    · simp [Plan.LiteralsFaithful, Plan.parts, Plan.rowLiterals]
    · simp [Plan.tables, Plan.parts, Plan.scanned?]
  · refine RuleSet.isUniqueOn_sound counts deskCounts_comparable ?_ (office_keysHold ?_) rfl
    · simp [Plan.LiteralsFaithful, deskCounts, Plan.parts, Plan.rowLiterals,
        Literal.isNaN, numbers,
        Literal.sameValue]
    · simp [Plan.tables, deskCounts, Plan.parts, Plan.scanned?]

end Pushdown
