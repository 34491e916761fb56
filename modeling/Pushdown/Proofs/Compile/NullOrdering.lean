import Pushdown.Proofs.Compile.Resolution
import Pushdown.Proofs.Meaning.Algebra

/-!
# Nulls in an order

How the items of an `ORDER BY` clause compare two rows.  A `Sorting` is what the database brings
to it: the order of values, and the place of nulls under an item that does not give them one.  A
row is seen through the values that expressions have on it, by what calls and literals mean.

A dialect without `NULLS FIRST` and `NULLS LAST` orders by a null flag first.

* `Sorting.TellsNulls.flagged`: the flag that a dialect writes, `ISNULL` or `CASE`, is one for a
  null and zero otherwise, because of what these calls mean;
* `Sorting.compareBy_flag_then`: the flag and the plain value decide as the annotated value does,
  wherever the database puts nulls by itself;
* `Scope.compareRows_ordering`: in any dialect the items compare rows as the keys of the sort ask;
* `Scope.ordering_emulates`: so the items of two dialects sort alike.
-/

namespace Pushdown

variable {V : Type}

namespace Sql

/-! ## Comparing rows -/

/-- How a database sorts values.  Where an item does not place nulls, `nullsLead` says whether
they come first, which may depend on the item's direction.  Zero and one sort as numbers. -/
structure Sorting (V : Type) where
  isNull : V → Bool
  compare : V → V → Ordering
  nullsLead : (descending : Bool) → Bool
  zero : V
  one : V
  isNull_zero : isNull zero = false
  isNull_one : isNull one = false
  compare_zero_zero : compare zero zero = .eq
  compare_one_one : compare one one = .eq
  compare_zero_one : compare zero one = .lt
  compare_one_zero : compare one zero = .gt

namespace Sorting

/-- Two values in a direction, with nulls in front or at the end.  Nulls are equal to each other,
and a descending order turns only the other values around. -/
def compareWith (s : Sorting V) (descending lead : Bool) (v w : V) : Ordering :=
  if s.isNull v then
    if s.isNull w then .eq else if lead then .lt else .gt
  else if s.isNull w then
    if lead then .gt else .lt
  else if descending then (s.compare v w).swap else s.compare v w

/-- Two values under an item: nulls go where the item or else the database puts them. -/
def compareBy (s : Sorting V) (descending : Bool) (nulls : Option NullsOrder) (v w : V) :
    Ordering :=
  s.compareWith descending (nulls.elim (s.nullsLead descending) (· == .first)) v w

/-- Two values under a key of a sort, which may leave the place of nulls to the database. -/
def compareUnder (s : Sorting V) (direction : Direction) (nulls : NullPlacement) (v w : V) :
    Ordering :=
  match nulls with
  | .first => s.compareWith (direction == .descending) true v w
  | .last => s.compareWith (direction == .descending) false v w
  | .unspecified =>
    s.compareWith (direction == .descending) (s.nullsLead (direction == .descending)) v w

/-- Two rows under a list of items: the first item that tells them apart decides. -/
def compareRows (s : Sorting V) (a b : Node → V) (items : List OrderItem) : Ordering :=
  items.foldr (fun item later =>
    (s.compareBy item.descending item.nulls (a item.expr) (b item.expr)).then later) .eq

/-- The value of a null flag: one for a null and zero otherwise. -/
def flag (s : Sorting V) (v : V) : V := if s.isNull v then s.one else s.zero

/-- On the row, the key that the dialect adds for an expression is its null flag. -/
def Flagged (s : Sorting V) (dialect : Dialect) (row : Node → V) : Prop :=
  ∀ expr key, dialect.nullKey? expr = some key → row key = s.flag (row expr)

theorem compareRows_append (s : Sorting V) (a b : Node → V) (front back : List OrderItem) :
    s.compareRows a b (front ++ back) =
      (s.compareRows a b front).then (s.compareRows a b back) := by
  induction front with
  | nil => rfl
  | cons item rest ih =>
    change Ordering.then _ (s.compareRows a b (rest ++ back)) = _
    rw [ih, ← Ordering.then_assoc]
    rfl

/-- A flag in front of a value decides between a null and another value; the value is left to
decide between two that are not null, where its own place for nulls does not matter. -/
theorem compareBy_flag_then (s : Sorting V) (descending : Bool) (place : NullsOrder) (v w : V) :
    (s.compareBy (place == .first) none (s.flag v) (s.flag w)).then
      (s.compareBy descending none v w) = s.compareBy descending (some place) v w := by
  unfold compareBy compareWith flag
  cases nullV : s.isNull v <;> cases nullW : s.isNull w <;> cases place <;>
    simp [s.isNull_zero, s.isNull_one, s.compare_zero_zero, s.compare_one_one, s.compare_zero_one,
      s.compare_one_zero]

/-- An item that says of nulls what the key says compares as the key does. -/
theorem compareBy_toSql (s : Sorting V) (direction : Direction)
    (nulls : NullPlacement) (v w : V) :
    s.compareBy (direction == .descending) nulls.toSql v w =
      s.compareUnder direction nulls v w := by
  cases nulls <;> rfl

end Sorting

/-! ## Null flags of a dialect -/

namespace Dialect

/-- A dialect adds a key exactly if it does not take the annotation. -/
theorem nullKey?_eq_none_iff {dialect : Dialect} {expr : Node} :
    dialect.nullKey? expr = none ↔ dialect.supportsNullOrdering = true := by
  unfold nullKey? supportsNullOrdering
  cases dialect.policy.nullOrdering <;> simp

/-- Where the dialect does not take the annotation it is not written. -/
theorem nulls_of_mem_orderItems {dialect : Dialect}
    (emulates : dialect.supportsNullOrdering = false) {expr : Node} {descending : Bool}
    {nulls : Option NullsOrder} :
    ∀ item ∈ dialect.orderItems expr descending nulls, item.nulls = none := by
  unfold orderItems
  cases nulls with
  | none => simp
  | some place =>
    cases added : dialect.nullKey? expr with
    | none => simp [nullKey?_eq_none_iff.mp added] at emulates
    | some key => simp

/-- Where the dialect takes the annotation there is one item, with what is asked for. -/
theorem orderItems_of_native {dialect : Dialect} (annotates : dialect.supportsNullOrdering = true)
    (expr : Node) (descending : Bool) (nulls : Option NullsOrder) :
    dialect.orderItems expr descending nulls = [⟨expr, descending, nulls⟩] := by
  unfold orderItems
  rw [nullKey?_eq_none_iff.mpr annotates]
  cases nulls <;> rfl

/-- In every dialect the items of an expression compare rows by it, with nulls where they are
asked for. -/
theorem compareRows_orderItems {dialect : Dialect} {s : Sorting V} {a b : Node → V}
    (flaggedA : s.Flagged dialect a) (flaggedB : s.Flagged dialect b) (expr : Node)
    (descending : Bool) (nulls : Option NullsOrder) :
    s.compareRows a b (dialect.orderItems expr descending nulls) =
      s.compareBy descending nulls (a expr) (b expr) := by
  unfold orderItems
  cases nulls with
  | none => simp [Sorting.compareRows]
  | some place =>
    cases added : dialect.nullKey? expr with
    | none => simp [Sorting.compareRows]
    | some key =>
      simp only [Sorting.compareRows, List.foldr_cons, List.foldr_nil, Ordering.then_eq]
      rw [flaggedA expr key added, flaggedB expr key added]
      exact s.compareBy_flag_then descending place (a expr) (b expr)

end Dialect

/-! ## Rows by the meaning of calls -/

mutual

/-- The value of an expression by what calls and literals mean, over the values of all else. -/
def Node.valueOver (I : Interpretation V) (leaf : Node → V) : Node → V
  | .literal value => I.literal value
  | .call (.scalar op) operands => I.sqlCall op (Node.valuesOver I leaf operands)
  | node => leaf node

def Node.valuesOver (I : Interpretation V) (leaf : Node → V) : List Node → List V
  | [] => []
  | node :: rest => node.valueOver I leaf :: Node.valuesOver I leaf rest

end

/-- `ISNULL`, `IS NULL` and `CASE` mean what SQL says they do. -/
structure Sorting.TellsNulls (s : Sorting V) (I : Interpretation V) : Prop where
  zero : I.literal (.integer 0) = s.zero
  one : I.literal (.integer 1) = s.one
  function : ∀ v, I.sqlCall (.function "ISNULL") [v] = s.flag v
  test : ∀ v, I.isTrue (I.sqlCall .isNull [v]) = s.isNull v
  choice : ∀ test v w, I.sqlCall .caseWhen [test, v, w] = if I.isTrue test then v else w

/-- The keys that a dialect adds are then null flags, whichever form it writes. -/
theorem Sorting.TellsNulls.flagged {s : Sorting V} {I : Interpretation V} (tells : s.TellsNulls I)
    (dialect : Dialect) (leaf : Node → V) : s.Flagged dialect (Node.valueOver I leaf) := by
  intro expr key added
  unfold Dialect.nullKey? at added
  split at added <;> cases added
  · simp only [Node.scalarCall, Node.valueOver, Node.valuesOver, tells.function]
  · simp only [Node.scalarCall, Node.valueOver, Node.valuesOver, tells.choice, tells.test,
      tells.zero, tells.one, Sorting.flag]

end Sql

/-! ## Keys of a sort -/

open Sql (Node OrderItem Dialect Sorting)

namespace Scope

/-- Two rows under the keys of a sort, by the fields in scope. -/
def compareKeys (scope : Scope) (s : Sorting V) (a b : Node → V) (keys : List SortKey) :
    Ordering :=
  keys.foldr (fun key later => (scope.field? key.field).elim later fun node =>
    (s.compareUnder key.direction key.nulls (a node) (b node)).then later) .eq

theorem compareKeys_cons {scope : Scope} {key : SortKey} {node : Node}
    (resolved : scope.field key.field = .ok node) (s : Sorting V) (a b : Node → V)
    (rest : List SortKey) :
    scope.compareKeys s a b (key :: rest) =
      (s.compareUnder key.direction key.nulls (a node) (b node)).then
        (scope.compareKeys s a b rest) := by
  rw [compareKeys, List.foldr_cons, field_eq_ok_iff.mp resolved]
  rfl

/-- The items of the keys, in the dialect, compare two rows as the keys do. -/
theorem compareRows_ordering {scope : Scope} {dialect : Dialect} {keys : List SortKey}
    {items : List OrderItem} (ordered : scope.ordering dialect keys = .ok items) {s : Sorting V}
    {a b : Node → V} (flaggedA : s.Flagged dialect a) (flaggedB : s.Flagged dialect b) :
    s.compareRows a b items = scope.compareKeys s a b keys := by
  obtain ⟨lists, each, built⟩ := Except.bind_eq_ok_iff.mp ordered
  cases built
  have paired := Except.mapM_eq_ok_iff.mp each
  clear each ordered
  -- Each key has its own list of items; the lists are compared one after the other.
  induction paired with
  | nil => rfl
  | cons first _ ih =>
    obtain ⟨node, resolved, listed⟩ := Except.bind_eq_ok_iff.mp first
    cases listed
    rw [List.flatten_cons, Sorting.compareRows_append,
      Dialect.compareRows_orderItems flaggedA flaggedB, Sorting.compareBy_toSql, ih,
      compareKeys_cons resolved]

/-- The item orders by the field of the key, in its direction and with nulls where it says. -/
structure Annotates (scope : Scope) (key : SortKey) (item : OrderItem) : Prop where
  expr : scope.field key.field = .ok item.expr
  direction : item.descending = true ↔ key.direction = .descending
  first : item.nulls = some .first ↔ key.nulls = .first
  last : item.nulls = some .last ↔ key.nulls = .last

/-- A dialect that takes the annotation has one item for each key. -/
theorem annotates_of_ordering {scope : Scope} {dialect : Dialect} {keys : List SortKey}
    {items : List OrderItem} (annotates : dialect.supportsNullOrdering = true)
    (ordered : scope.ordering dialect keys = .ok items) :
    List.Forall₂ scope.Annotates keys items := by
  obtain ⟨lists, each, built⟩ := Except.bind_eq_ok_iff.mp ordered
  cases built
  have paired := Except.mapM_eq_ok_iff.mp each
  clear each ordered
  induction paired with
  | nil => exact .nil
  | @cons key _ _ _ first _ ih =>
    obtain ⟨node, resolved, listed⟩ := Except.bind_eq_ok_iff.mp first
    cases listed
    rw [List.flatten_cons, Dialect.orderItems_of_native annotates]
    refine .cons ⟨resolved, by simp, ?_, ?_⟩ ih <;> cases key.nulls <;> simp [NullPlacement.toSql]

/-- A dialect without the annotation sorts as one with it.  Both write the keys of a sort, the
first with no annotation at all and the second with each key as it is.  Where `ISNULL`, `IS NULL`
and `CASE` mean what SQL says, the items of both compare every two rows as the keys ask, wherever
the database puts nulls. -/
theorem ordering_emulates {scope : Scope} {keys : List SortKey}
    (resolved : ∀ key ∈ keys, ∃ node, scope.field key.field = .ok node)
    {emulating native : Dialect} (emulates : emulating.supportsNullOrdering = false)
    (annotates : native.supportsNullOrdering = true) :
    ∃ emulated annotated, scope.ordering emulating keys = .ok emulated ∧
      scope.ordering native keys = .ok annotated ∧ (∀ item ∈ emulated, item.nulls = none) ∧
      List.Forall₂ scope.Annotates keys annotated ∧
      ∀ {V : Type} (s : Sorting V) (I : Interpretation V), s.TellsNulls I → ∀ a b : Node → V,
        s.compareRows (Node.valueOver I a) (Node.valueOver I b) emulated =
            s.compareRows (Node.valueOver I a) (Node.valueOver I b) annotated ∧
          s.compareRows (Node.valueOver I a) (Node.valueOver I b) annotated =
            scope.compareKeys s (Node.valueOver I a) (Node.valueOver I b) keys := by
  have inRange : ∀ key ∈ keys, key.field < scope.width :=
    fun key member => (scope.resolves_width key.field).mp (resolved key member)
  have writes (dialect : Dialect) : ∃ items, scope.ordering dialect keys = .ok items :=
    scope.resolves_width.ordering.mpr inRange
  obtain ⟨emulated, written⟩ := writes emulating
  obtain ⟨annotated, writtenNative⟩ := writes native
  refine ⟨emulated, annotated, written, writtenNative, fun item member => ?_,
    annotates_of_ordering annotates writtenNative, ?_⟩
  · obtain ⟨_, _, _, _, among⟩ := exists_of_mem_ordering written member
    exact Dialect.nulls_of_mem_orderItems emulates item among
  · intro V s I tells a b
    have compares {dialect : Dialect} {items : List OrderItem}
        (ordered : scope.ordering dialect keys = .ok items) :
        s.compareRows (Node.valueOver I a) (Node.valueOver I b) items =
          scope.compareKeys s (Node.valueOver I a) (Node.valueOver I b) keys :=
      compareRows_ordering ordered (tells.flagged dialect a) (tells.flagged dialect b)
    exact ⟨(compares written).trans (compares writtenNative).symm, compares writtenNative⟩

end Scope

namespace Staff

/-- The scope of a query of employees. -/
def names : Scope := .ofSources [⟨"emp", ["name", "bonus"]⟩]

/-- Bonuses from high to low with those unknown last, and names among equal ones. -/
def byBonus : List SortKey := [⟨1, .descending, .last⟩, ⟨0, .ascending, .unspecified⟩]

/-- Numbers in their order; by itself the database puts nulls first in descending order only. -/
def ascending : Sorting (Option Int) where
  isNull := Option.isNone
  compare v w := Ord.compare (v.getD 0) (w.getD 0)
  nullsLead descending := descending
  zero := some 0
  one := some 1
  isNull_zero := rfl
  isNull_one := rfl
  compare_zero_zero := rfl
  compare_one_one := rfl
  compare_zero_one := rfl
  compare_one_zero := rfl

/-- A test for null gives one or zero, and `CASE` chooses by it. -/
def nullCall : ScalarOp → List (Option Int) → Option Int
  | .function "ISNULL", [v] | .isNull, [v] => some (if v.isNone then 1 else 0)
  | .caseWhen, [test, v, w] => if test == some 1 then v else w
  | .and, operands => some (if operands.all (· == some 1) then 1 else 0)
  | _, _ => none

/-- Calls that tell nulls from numbers. -/
def nullTests : Interpretation (Option Int) where
  literal value :=
    if value = .boolean true ∨ value = .integer 1 then some 1
    else if value = .integer 0 then some 0 else none
  isTrue value := value == some 1
  planCall op operands := match op.toSql with
    | .scalar image => nullCall image operands
    | .aggregate .. => none
  sqlCall := nullCall
  planAggregate _ _ _ := none
  sqlAggregate _ _ _ := none
  isTrue_true := rfl
  isTrue_and operands := by
    rw [nullCall]
    cases operands.all (· == some 1) <;> rfl
  eq_symm _ _ := rfl
  planCall_eq op image operands same := by rw [same]
  planAggregate_eq _ _ _ := rfl

theorem ascending_tellsNulls : ascending.TellsNulls nullTests where
  zero := rfl
  one := rfl
  function v := by cases v <;> rfl
  test v := by cases v <;> rfl
  choice _ _ _ := rfl

/-- The columns of an employee with the bonus, of whom no more is known. -/
def bonusColumn (bonus : Option Int) (node : Node) : Option Int :=
  if node.outputName? = some "bonus" then bonus else none

/-- The values on the row of an employee with the bonus. -/
def withBonus (bonus : Option Int) : Node → Option Int :=
  Node.valueOver nullTests (bonusColumn bonus)

end Staff

open Staff in
/-- Left to itself the database puts an unknown bonus in front of a known one in descending order.
The keys ask for the opposite, and get it by `ISNULL`, by `CASE` and by `NULLS LAST`. -/
theorem Scope.ordering_emulates_byBonus :
    (∀ key ∈ byBonus, ∃ node, names.field key.field = .ok node) ∧
      (Dialect.ofProduct .mySql).supportsNullOrdering = false ∧
      (Dialect.ofProduct .sqlServer).supportsNullOrdering = false ∧
      (Dialect.ofProduct .ansi).supportsNullOrdering = true ∧ ascending.TellsNulls nullTests ∧
      ascending.compareRows (withBonus none) (withBonus (some 3))
        [⟨.identifier ["bonus"], true, none⟩] = .lt ∧
      ∃ flagged chosen annotated, names.ordering (.ofProduct .mySql) byBonus = .ok flagged ∧
        names.ordering (.ofProduct .sqlServer) byBonus = .ok chosen ∧
        names.ordering (.ofProduct .ansi) byBonus = .ok annotated ∧
        ascending.compareRows (withBonus none) (withBonus (some 3)) flagged = .gt ∧
        ascending.compareRows (withBonus none) (withBonus (some 3)) chosen = .gt ∧
        ascending.compareRows (withBonus none) (withBonus (some 3)) annotated = .gt := by
  have resolved : ∀ key ∈ byBonus, ∃ node, names.field key.field = .ok node := by
    simp only [byBonus, List.forall_mem_cons]
    exact ⟨⟨_, rfl⟩, ⟨_, rfl⟩, by simp⟩
  have byFunction : (Dialect.ofProduct .mySql).supportsNullOrdering = false := rfl
  have byCase : (Dialect.ofProduct .sqlServer).supportsNullOrdering = false := rfl
  have annotates : (Dialect.ofProduct .ansi).supportsNullOrdering = true := rfl
  have last : names.compareKeys ascending (withBonus none) (withBonus (some 3)) byBonus = .gt :=
    rfl
  obtain ⟨flagged, annotated, writtenFlags, writtenNative, _, _, alike⟩ :=
    Scope.ordering_emulates resolved byFunction annotates
  obtain ⟨same, asked⟩ :=
    alike ascending nullTests ascending_tellsNulls (bonusColumn none) (bonusColumn (some 3))
  obtain ⟨chosen, other, writtenChoices, _, _, _, alikeChosen⟩ :=
    Scope.ordering_emulates resolved byCase annotates
  obtain ⟨sameChosen, askedOther⟩ :=
    alikeChosen ascending nullTests ascending_tellsNulls (bonusColumn none) (bonusColumn (some 3))
  exact ⟨resolved, byFunction, byCase, annotates, ascending_tellsNulls, rfl, flagged, chosen,
    annotated, writtenFlags, writtenChoices, writtenNative, (same.trans asked).trans last,
    (sameChosen.trans askedOther).trans last, asked.trans last⟩

end Pushdown
