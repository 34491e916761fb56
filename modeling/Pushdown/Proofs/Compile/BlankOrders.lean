import Pushdown.Proofs.Compile.Requirement
import Pushdown.Proofs.Sql.OrderKeywords

/-!
# Orders without keys

A sort may have no keys.  The rows then stay in any order, but the sort is written all the same:
its query has an order of nothing, and the text has `ORDER BY` with no key behind it, which no
database takes.  An aggregate of no groups is written without its clause or with an empty pair of
brackets, and constant rows of which there are none are refused; nothing of the kind is done for
sorts.

A key of a sort is one item or two, so that an order is empty exactly if its sort has no keys
(`Scope.ordering_eq_nil_iff`), wherever in the plan the sort is.
-/

namespace Pushdown

open Sql (Node Select OrderItem Requirement)

namespace Sql

/-- The orders of queries have keys. -/
def Requirement.keyedOrders : Requirement where
  orderBy items := items ≠ []

theorem Requirement.onNode_keyedOrders (node : Node) :
    keyedOrders.OnNode node ↔ node.OrdersByKeys := by
  cases node with
  | select query =>
    refine ⟨fun on blank => on.2 [] blank rfl, fun keyed => ⟨fun _ _ => trivial, ?_⟩⟩
    rintro items present rfl
    exact keyed present
  | _ => exact Iff.rfl

theorem Requirement.met_keyedOrders (root : Node) :
    keyedOrders.Met root ↔ ∀ node ∈ root.parts, node.OrdersByKeys :=
  forall₂_congr fun node _ => onNode_keyedOrders node

theorem Node.ordersByKeys_iff (root : Node) :
    (∀ node ∈ root.parts, node.OrdersByKeys) ↔
      ∀ query ∈ root.selects, query.orderBy ≠ some [] := by
  constructor
  · exact fun each query member => each (.select query) (Node.mem_selects_iff.mp member)
  · intro each node member
    cases node with
    | select query => exact each query (Node.mem_selects_iff.mpr member)
    | _ => trivial

theorem Dialect.orderItems_ne_nil (dialect : Dialect) (node : Node) (descending : Bool)
    (nulls : Option NullsOrder) : dialect.orderItems node descending nulls ≠ [] := by
  unfold Dialect.orderItems
  split
  · exact List.cons_ne_nil _ _
  · split
    · exact List.cons_ne_nil _ _
    · exact List.cons_ne_nil _ _

end Sql

/-- A sort without keys writes no items, and no other sort does. -/
theorem Scope.ordering_eq_nil_iff {scope : Scope} {dialect : Sql.Dialect} {keys : List SortKey}
    {items : List OrderItem} (ordered : scope.ordering dialect keys = .ok items) :
    items = [] ↔ keys = [] := by
  obtain ⟨lists, each, built⟩ := Except.bind_eq_ok_iff.mp ordered
  cases built
  cases Except.mapM_eq_ok_iff.mp each with
  | nil => exact iff_of_true rfl rfl
  | cons head _ =>
    obtain ⟨node, _, listed⟩ := Except.bind_eq_ok_iff.mp head
    cases listed
    refine iff_of_false (fun blank => ?_) (List.cons_ne_nil _ _)
    exact dialect.orderItems_ne_nil _ _ _ (List.flatten_eq_nil_iff.mp blank _ (.head _))

/-- If the node is a sort, it has keys. -/
def RemotePlan.SortsByKeys (p : RemotePlan) : Prop :=
  match p.op with
  | .sort _ keys => keys ≠ []
  | _ => True

theorem RemotePlan.keyedOrders_readOff (dialect : Sql.Dialect) :
    Requirement.keyedOrders.ReadOff dialect SortsByKeys where
  aggregate _ _ _ _ := Iff.rfl
  sort _ _ ordered := not_congr (Scope.ordering_eq_nil_iff ordered).symm
  set _ := Iff.rfl
  rows := Iff.rfl
  silent {p} _ unordered _ := by
    rcases p with ⟨convention, fields, op⟩
    cases op with
    | sort => cases unordered
    | _ => trivial

/-- In a statement every order of a query has a key exactly if in the plan every sort has one, and
then no `ORDER BY` of the text is left without. -/
theorem RemotePlan.orders_keyed_iff {p : RemotePlan} {s : Sql.Statement}
    (compiled : p.toSql = .ok s) :
    ((∀ query ∈ s.root.selects, query.orderBy ≠ some []) ↔ p.Everywhere SortsByKeys) ∧
      (p.Everywhere SortsByKeys → s.script.complete = true →
        ¬ Sql.OrderDangles s.script.tokens) := by
  have run : Gives (p.compileWith p.convention.dialect) {} s
      ((p.compileWith p.convention.dialect).run.run {}).2 := Prod.ext compiled rfl
  have keyed : (∀ node ∈ s.root.parts, node.OrdersByKeys) ↔ p.Everywhere SortsByKeys := by
    rw [← Requirement.met_keyedOrders]
    exact statement_meets (keyedOrders_readOff _) run
  refine ⟨(Node.ordersByKeys_iff s.root).symm.trans keyed, fun sorted complete => ?_⟩
  exact ((Node.keyed_script (keyed.mpr sorted) .top).1 complete).not_dangles

namespace Staff

/-- Employees that are not their own boss, by boss, of all in order. -/
def ordered : Plan :=
  .sort
    (.filter (.sort (.scan employees) [⟨0, .ascending, .unspecified⟩] none none)
      (.scalarCall .notEq [.input 0, .input 1]))
    [⟨1, .descending, .last⟩, ⟨0, .ascending, .unspecified⟩] none none

/-- All employees, in the order of nothing. -/
def unordered : Plan := .sort (.scan employees) [] none none

end Staff

open Staff in
theorem RemotePlan.orders_keyed_iff_ordered :
    ∃ p s, (RuleSet.full database).convert ordered = .ok (some p) ∧ p.toSql = .ok s ∧
      s.root.tally .orderBy = 2 ∧ p.Everywhere SortsByKeys ∧
      (∀ query ∈ s.root.selects, query.orderBy ≠ some []) ∧ s.script.complete = true ∧
      ¬ Sql.OrderDangles s.script.tokens := by
  have converted :
      (RuleSet.full database).convert ordered = .ok (some (ordered.boundTo database)) := rfl
  have sorted : (ordered.boundTo database).Everywhere SortsByKeys := by
    simp [Everywhere, ordered, Plan.boundTo, parts, SortsByKeys]
  obtain ⟨s, compiled, twice, complete⟩ : ∃ s, (ordered.boundTo database).toSql = .ok s ∧
      s.root.tally .orderBy = 2 ∧ s.script.complete = true :=
    ⟨_, rfl, by decide +kernel, by decide +kernel⟩
  obtain ⟨queries, text⟩ := orders_keyed_iff compiled
  exact ⟨_, s, converted, compiled, twice, sorted, queries.mpr sorted, complete,
    text sorted complete⟩

open Staff in
/-- A sort without keys ends its statement with `ORDER BY`. -/
theorem RemotePlan.orders_blank_unordered :
    ∃ p s, (RuleSet.full database).convert unordered = .ok (some p) ∧ p.toSql = .ok s ∧
      s.plainText = "SELECT * FROM hr.emp ORDER BY " ∧
      Sql.OrderDangles s.script.tokens ∧
      ¬ ∀ query ∈ s.root.selects, query.orderBy ≠ some [] := by
  have converted :
      (RuleSet.full database).convert unordered = .ok (some (unordered.boundTo database)) := rfl
  refine ⟨_, _, converted, rfl, ?_, ?_, ?_⟩
  · decide +kernel
  · exact ⟨[.word "SELECT", .word "*", .word "FROM", .identifier ["hr", "emp"]], [], rfl, by simp⟩
  · intro keyed
    exact keyed _ (.head _) rfl

end Pushdown
