import Mathlib.Data.List.GetD
import Pushdown.Proofs.Compile.References
import Pushdown.Proofs.Meaning.Query

/-!
# Translated expressions mean the same

`Scope.Denotes` says that the fields in scope compute the fields of a row that is read off a row
of the frame.  Then whatever is written in the scope computes what the plan's expression means on
that row.
-/

namespace Pushdown

open Sql (Node Select)

variable {V : Type} {I : Interpretation V} {columns : List (String × String)}

/-! ## Lists of scalars -/

namespace Sql

/-- Expressions compute a row when each computes its field. -/
theorem Node.scalars?_eq_some {α : Type} {entries : List α} {nodes : List Node}
    {value : α → Row V → V}
    (each : List.Forall₂ (fun entry node => node.scalar? I columns = some (value entry)) entries
      nodes) :
    Node.scalars? I columns nodes = some fun row => entries.map fun entry => value entry row := by
  induction each with
  | nil => rfl
  | cons first _ ih =>
    rw [Node.scalars?, first, ih]
    rfl

theorem Node.groupeds?_eq_some {α : Type} {keys : List Node} {entries : List α}
    {nodes : List Node} {value : α → Row V → Bag V → V}
    (each : List.Forall₂ (fun entry node => node.grouped? I columns keys = some (value entry))
      entries nodes) :
    Node.groupeds? I columns keys nodes =
      some fun key rows => entries.map fun entry => value entry key rows := by
  induction each with
  | nil => rfl
  | cons first _ ih =>
    rw [Node.groupeds?, first, ih]
    rfl

theorem Node.scalars?_literals (columns : List (String × String)) (tuple : List Literal) :
    Node.scalars? I columns (tuple.map Node.literal) = some fun _ => tuple.map I.literal := by
  have each : List.Forall₂ (fun literal node => node.scalar? I columns =
      some fun _ => I.literal literal) tuple (tuple.map Node.literal) :=
    List.forall₂_map_right_iff.mpr (List.forall₂_same.mpr fun _ _ => by rw [Node.scalar?])
  exact Node.scalars?_eq_some each

/-- Where expressions compute a row, each computes its field. -/
theorem Node.scalar?_of_scalars? {nodes : List Node} {values : Row V → List V}
    (computed : Node.scalars? I columns nodes = some values) {position : Nat} {node : Node}
    (entry : nodes[position]? = some node) :
    node.scalar? I columns = some fun row => (values row).getD position I.null := by
  induction nodes generalizing values position with
  | nil => cases entry
  | cons first rest ih =>
    rw [Node.scalars?] at computed
    obtain ⟨value, head, computed⟩ := Option.bind_eq_some_iff.mp computed
    obtain ⟨others, tail, whole⟩ := Option.bind_eq_some_iff.mp computed
    cases whole
    cases position with
    | zero =>
      cases entry
      exact head
    | succ position => exact ih tail entry

theorem Node.length_of_scalars? {nodes : List Node} {values : Row V → List V}
    (computed : Node.scalars? I columns nodes = some values) (row : Row V) :
    (values row).length = nodes.length := by
  induction nodes generalizing values with
  | nil =>
    cases computed
    rfl
  | cons node rest ih =>
    rw [Node.scalars?] at computed
    obtain ⟨value, _, computed⟩ := Option.bind_eq_some_iff.mp computed
    obtain ⟨others, tail, whole⟩ := Option.bind_eq_some_iff.mp computed
    cases whole
    exact congrArg Nat.succ (ih tail)

/-- Expressions compute a row of their number when each computes the field at its position. -/
theorem Node.scalars?_of_positions {nodes : List Node} {values : Row V → List V}
    (even : ∀ row, (values row).length = nodes.length)
    (each : ∀ (position : Nat) (node : Node), nodes[position]? = some node →
      node.scalar? I columns = some fun row => (values row).getD position I.null) :
    Node.scalars? I columns nodes = some values := by
  induction nodes generalizing values with
  | nil =>
    have empty : values = fun _ => [] :=
      funext fun row => List.eq_nil_of_length_eq_zero (even row)
    rw [Node.scalars?, empty]
  | cons node rest ih =>
    have head := each 0 node rfl
    have tail : Node.scalars? I columns rest = some fun row => (values row).tail := by
      refine ih (fun row => ?_) fun position other entry => ?_
      · rw [List.length_tail, even row]
        rfl
      · rw [each (position + 1) other entry]
        simp [List.getD_eq_getElem?_getD]
    have whole : values = fun row => (values row).getD 0 I.null :: (values row).tail := by
      funext row
      match same : values row with
      | [] =>
        have uneven := even row
        rw [same] at uneven
        cases uneven
      | value :: others => rfl
    rw [Node.scalars?, head, tail, whole]
    rfl

theorem Node.exists_scalar?_of_mem {nodes : List Node} {values : Row V → List V}
    (computed : Node.scalars? I columns nodes = some values) {node : Node}
    (member : node ∈ nodes) :
    ∃ value, node.scalar? I columns = some value := by
  obtain ⟨position, entry⟩ := List.mem_iff_getElem?.mp member
  exact ⟨_, Node.scalar?_of_scalars? computed entry⟩

@[simp] theorem Node.anyAggregate_eq_any (nodes : List Node) :
    Node.anyAggregate nodes = nodes.any Node.hasAggregate := by
  induction nodes with
  | nil => simp [Node.anyAggregate]
  | cons node rest ih => simp [Node.anyAggregate, ih]

/-- An expression over rows has no aggregate in it. -/
theorem Node.hasAggregate_of_scalar? {node : Node} {value : Row V → V}
    (computed : node.scalar? I columns = some value) : node.hasAggregate = false := by
  induction node using Node.expression_induction generalizing value with
  | call operator operands ih =>
    cases operator with
    | aggregate function distinct => simp [Node.scalar?] at computed
    | scalar op =>
      rw [Node.scalar?] at computed
      obtain ⟨values, all, _⟩ := Option.map_eq_some_iff.mp computed
      rw [Node.hasAggregate, Node.anyAggregate_eq_any, List.any_eq_false]
      intro operand member
      obtain ⟨value, own⟩ := Node.exists_scalar?_of_mem all member
      simp [ih operand member own]
  | _ => simp [Node.hasAggregate]

/-- An expression over rows carries no name. -/
theorem Node.unnamed_of_scalar? {node : Node} {value : Row V → V}
    (computed : node.scalar? I columns = some value) : node.unnamed = node := by
  cases node with
  | named expr name => simp [Node.scalar?] at computed
  | _ => rfl

@[simp] theorem Node.sameAll_iff (left right : List Node) :
    Node.sameAll left right = true ↔ List.Forall₂ (fun l r => l.same r = true) left right := by
  induction left generalizing right with
  | nil => cases right <;> simp [Node.sameAll]
  | cons l rest ih => cases right <;> simp [Node.sameAll, ih]

/-- Expressions that are written the same are the same. -/
theorem Node.eq_of_same {left right : Node} (same : left.same right = true) : left = right := by
  induction left using Node.expression_induction generalizing right with
  | identifier parts =>
    cases right <;> simp_all [Node.same]
  | literal value =>
    cases right <;> simp_all [Node.same]
  | call operator operands ih =>
    cases right with
    | call operator' operands' =>
      rw [Node.same, Bool.and_eq_true, beq_iff_eq, Node.sameAll_iff] at same
      obtain ⟨rfl, each⟩ := same
      have equal : List.Forall₂ Eq operands operands' :=
        forall₂_imp_of_mem each fun operand member _ same => ih operand member same
      rw [List.forall₂_eq_eq_eq] at equal
      rw [equal]
    | _ => simp [Node.same] at same
  | _ => simp [Node.same] at same

/-- An expression over rows is written the same as itself. -/
theorem Node.same_self_of_scalar? {node : Node} {value : Row V → V}
    (computed : node.scalar? I columns = some value) : node.same node = true := by
  induction node using Node.expression_induction generalizing value with
  | identifier parts => simp [Node.same]
  | literal literal => simp [Node.same]
  | call operator operands ih =>
    cases operator with
    | aggregate function distinct => simp [Node.scalar?] at computed
    | scalar op =>
      rw [Node.scalar?] at computed
      obtain ⟨values, all, _⟩ := Option.map_eq_some_iff.mp computed
      rw [Node.same, Bool.and_eq_true, beq_iff_eq, Node.sameAll_iff]
      refine ⟨rfl, List.forall₂_same.mpr fun operand member => ?_⟩
      obtain ⟨value, own⟩ := Node.exists_scalar?_of_mem all member
      exact ih operand member own
  | _ => simp [Node.scalar?] at computed

end Sql

/-! ## Columns of a frame -/

/-- The columns of the sources laid end to end, each with the name of its source. -/
def columnsOf (sources : List Source) : List (String × String) :=
  sources.flatMap fun source => source.fields.map (source.name, ·)

theorem columnsOf_append (left right : List Source) :
    columnsOf (left ++ right) = columnsOf left ++ columnsOf right := by
  simp [columnsOf]

theorem map_snd_columnsOf (sources : List Source) :
    (columnsOf sources).map Prod.snd = sources.flatMap (·.fields) := by
  simp [columnsOf, List.map_flatMap, Function.comp_def]

theorem columnsOf_length (sources : List Source) :
    (columnsOf sources).length = (sources.flatMap (·.fields)).length := by
  rw [← map_snd_columnsOf, List.length_map]

/-- The columns differ when the names of the sources do and so do the columns of each. -/
theorem columnsOf_nodup {sources : List Source} (names : (sources.map (·.name)).Nodup)
    (fields : ∀ source ∈ sources, source.fields.Nodup) : (columnsOf sources).Nodup := by
  induction sources with
  | nil => exact List.nodup_nil
  | cons source rest ih =>
    obtain ⟨apart, names⟩ := List.nodup_cons.mp names
    obtain ⟨own, others⟩ := List.forall_mem_cons.mp fields
    have first : (source.fields.map (source.name, ·)).Nodup :=
      own.map fun _ _ same => (Prod.mk.inj same).2
    have below : (columnsOf rest).Nodup := ih names others
    have disjoint : ∀ column ∈ source.fields.map (source.name, ·), ∀ other ∈ columnsOf rest,
        column ≠ other := by
      intro column member other mem same
      obtain ⟨field, _, rfl⟩ := List.mem_map.mp member
      obtain ⟨next, among, within⟩ := List.mem_flatMap.mp mem
      obtain ⟨_, _, rfl⟩ := List.mem_map.mp within
      exact apart (List.mem_map.mpr ⟨next, among, (Prod.mk.inj same).1.symm⟩)
    exact List.nodup_append.mpr ⟨first, below, disjoint⟩

/-- All columns of a single source have its name. -/
theorem fst_eq_of_mem_columnsOf {sources : List Source} (single : ¬ 1 < sources.length)
    {left right : String × String} (leftMember : left ∈ columnsOf sources)
    (rightMember : right ∈ columnsOf sources) : left.1 = right.1 := by
  match sources with
  | [] => exact (List.not_mem_nil leftMember).elim
  | [source] =>
    simp only [columnsOf, List.flatMap_singleton, List.mem_map] at leftMember rightMember
    obtain ⟨_, _, rfl⟩ := leftMember
    obtain ⟨_, _, rfl⟩ := rightMember
    rfl
  | _ :: _ :: _ => exact absurd single (by simp)

/-- A reference to just one of the columns leads to its position. -/
theorem Sql.position?_eq_some (distinct : columns.Nodup) (ref : List String) {position : Nat}
    {column : String × String} (entry : columns[position]? = some column)
    (named : Sql.refMatches ref column = true)
    (only : ∀ other ∈ columns, Sql.refMatches ref other = true → other = column) :
    Sql.position? columns ref = some position := by
  obtain ⟨bound, rfl⟩ := List.getElem?_eq_some_iff.mp entry
  have split : columns =
      columns.take position ++ columns[position] :: columns.drop (position + 1) := by
    rw [List.getElem_cons_drop, List.take_append_drop]
  have length : (columns.take position).length = position := by
    rw [List.length_take, Nat.min_eq_left bound.le]
  generalize columns[position] = column at *
  generalize columns.take position = before at *
  generalize columns.drop (position + 1) = after at *
  subst split length
  obtain ⟨_, tail, apart⟩ := List.nodup_append.mp distinct
  have early : ∀ other ∈ before, ¬ Sql.refMatches ref other = true := fun other member hit =>
    apart other member column List.mem_cons_self (only other (List.mem_append_left _ member) hit)
  have late : ∀ other ∈ after, ¬ Sql.refMatches ref other = true := fun other member hit =>
    (List.nodup_cons.mp tail).1
      (only other (List.mem_append_right _ (List.mem_cons_of_mem _ member)) hit ▸ member)
  have count : (before ++ column :: after).countP (Sql.refMatches ref) = 1 := by
    rw [List.countP_append, List.countP_cons, List.countP_eq_zero.mpr early,
      List.countP_eq_zero.mpr late, if_pos named]
  have found : (before ++ column :: after).findIdx? (Sql.refMatches ref) =
      some before.length := by
    rw [List.findIdx?_append, List.findIdx?_eq_none_iff.mpr (by simpa using early),
      List.findIdx?_cons]
    simp [named]
  rw [Sql.position?, if_pos count, found]

/-! ## Scopes -/

/-- The image of an operator is an operator on scalars. -/
theorem PlanOp.exists_toSql_eq (op : PlanOp) : ∃ image, op.toSql = .scalar image := by
  cases op with
  | scalar op => exact ⟨op, rfl⟩
  | multiset op => exact ⟨.function op.functionName, rfl⟩

namespace Scope

/-- The fields in scope compute the fields of the row that `read` gives. -/
def Denotes (I : Interpretation V) (columns : List (String × String)) (scope : Scope)
    (read : Row V → Row V) : Prop :=
  ∀ ordinal node, scope.field? ordinal = some node →
    node.scalar? I columns = some fun row => (read row).getD ordinal I.null

/-- On one row of the frame the field in scope has the value. -/
def Shows (I : Interpretation V) (columns : List (String × String)) (row : Row V) (scope : Scope)
    (ordinal : Nat) (value : V) : Prop :=
  ∀ node, scope.field? ordinal = some node →
    ∃ read, node.scalar? I columns = some read ∧ read row = value

theorem columns_eq_map (qualified : Bool) (sources : List Source) :
    Scope.columns qualified sources = (columnsOf sources).map fun column =>
      .identifier (if qualified then [column.1, column.2] else [column.2]) := by
  simp [Scope.columns, columnsOf, List.map_flatMap, Function.comp_def]

/-- Qualified columns compute the fields of that part of a row which comes from their sources. -/
theorem denotes_qualified (before after : List (String × String)) {sources : List Source}
    (distinct : (before ++ columnsOf sources ++ after).Nodup) :
    (Scope.ofColumns sources true).Denotes I (before ++ columnsOf sources ++ after)
      fun row => row.drop before.length := by
  intro ordinal node found
  rw [field?, column?_eq_getElem?, columns_eq_map, List.getElem?_map] at found
  obtain ⟨⟨source, name⟩, entry, rfl⟩ := Option.map_eq_some_iff.mp found
  have bound : ordinal < (columnsOf sources).length := (List.getElem?_eq_some_iff.mp entry).1
  have place : (before ++ columnsOf sources ++ after)[before.length + ordinal]? =
      some (source, name) := by
    rw [List.getElem?_append_left (by rw [List.length_append]; omega),
      List.getElem?_append_right (by omega), Nat.add_sub_cancel_left, entry]
  have position := Sql.position?_eq_some distinct [source, name] place (by simp [Sql.refMatches])
    fun other _ hit => by
      simp only [Sql.refMatches, Bool.and_eq_true, beq_iff_eq] at hit
      exact Prod.ext hit.1 hit.2
  rw [if_pos rfl, Node.scalar?, position, Option.map_some]
  congr
  funext row
  rw [List.getD_eq_getElem?_getD, List.getD_eq_getElem?_getD, List.getElem?_drop]

/-- The columns of the sources of a query compute the fields of its rows. -/
theorem denotes_ofSources {sources : List Source} (distinct : (columnsOf sources).Nodup) :
    (Scope.ofSources sources).Denotes I (columnsOf sources) id := by
  intro ordinal node found
  by_cases several : 1 < sources.length
  · rw [ofSources, decide_eq_true several] at found
    have denotes := denotes_qualified (I := I) [] [] (by simpa using distinct) ordinal node found
    simpa using denotes
  · rw [ofSources, decide_eq_false several, field?, column?_eq_getElem?, columns_eq_map,
      List.getElem?_map] at found
    obtain ⟨⟨source, name⟩, entry, rfl⟩ := Option.map_eq_some_iff.mp found
    have position := Sql.position?_eq_some distinct [name] entry (by simp [Sql.refMatches])
      fun other member hit => by
        have same := fst_eq_of_mem_columnsOf several member (List.mem_of_getElem? entry)
        exact Prod.ext same (by simpa [Sql.refMatches] using hit)
    rw [if_neg (by simp), Node.scalar?, position]
    rfl

/-- The items of a select list compute what the nodes do from which it was made. -/
theorem denotes_selectList {nodes : List Node} {values : Row V → List V} (fields : Fields)
    (computed : Node.scalars? I columns nodes = some values) :
    (Scope.ofItems (selectList fields nodes)).Denotes I columns values := by
  intro ordinal node found
  obtain ⟨item, entry, rfl⟩ := Option.map_eq_some_iff.mp found
  rw [selectList, List.getElem?_mapIdx] at entry
  obtain ⟨own, place, rfl⟩ := Option.map_eq_some_iff.mp entry
  have scalar := Node.scalar?_of_scalars? computed place
  rcases selectItem_cases fields ordinal own with same | ⟨name, same⟩
  · rw [same, Node.unnamed_of_scalar? scalar, scalar]
  · rw [same]
    exact scalar

variable {scope : Scope} {read : Row V → Row V}

theorem Denotes.field (denotes : scope.Denotes I columns read) {ordinal : Nat} {node : Node}
    (found : scope.field ordinal = .ok node) :
    node.scalar? I columns = some fun row => (read row).getD ordinal I.null :=
  denotes ordinal node (field_eq_ok_iff.mp found)

theorem Denotes.shows (denotes : scope.Denotes I columns read) (row : Row V) (ordinal : Nat) :
    scope.Shows I columns row ordinal ((read row).getD ordinal I.null) :=
  fun node found => ⟨_, denotes ordinal node found, rfl⟩

/-- An expression computes what it means on the row that is read. -/
theorem Denotes.expression (denotes : scope.Denotes I columns read) {e : Expr} {node : Node}
    (translated : scope.expression e = .ok node) :
    node.scalar? I columns = some fun row => e.valueOn I (read row) := by
  induction e generalizing node with
  | literal value =>
    cases translated
    rfl
  | input ordinal => exact denotes.field translated
  | shared index => cases translated
  | call op operands ih =>
    simp only [Scope.expression, expressions_eq_mapM, Except.bind_eq_ok_iff] at translated
    obtain ⟨nodes, each, built⟩ := translated
    cases built
    have operandsOk : Node.scalars? I columns nodes =
        some fun row => operands.map fun e => e.valueOn I (read row) :=
      Node.scalars?_eq_some (forall₂_imp_of_mem (Except.mapM_eq_ok_iff.mp each)
        fun e member _ done => ih e member done)
    obtain ⟨image, same⟩ := PlanOp.exists_toSql_eq op
    rw [same, Node.scalar?, operandsOk, Option.map_some]
    congr
    funext row
    rw [← I.planCall_eq op image _ same, Expr.valueOn, Expr.value, Expr.values_eq_map]
    rfl

theorem Denotes.expressions (denotes : scope.Denotes I columns read) {es : List Expr}
    {nodes : List Node} (translated : scope.expressions es = .ok nodes) :
    Node.scalars? I columns nodes = some fun row => es.map fun e => e.valueOn I (read row) := by
  rw [expressions_eq_mapM] at translated
  exact Node.scalars?_eq_some ((Except.mapM_eq_ok_iff.mp translated).imp fun _ _ done =>
    denotes.expression done)

theorem Denotes.fields (denotes : scope.Denotes I columns read) {ordinals : List Nat}
    {nodes : List Node} (found : scope.fields ordinals = .ok nodes) :
    Node.scalars? I columns nodes =
      some fun row => ordinals.map fun ordinal => (read row).getD ordinal I.null :=
  Node.scalars?_eq_some ((Except.mapM_eq_ok_iff.mp found).imp fun _ _ done => denotes.field done)

end Scope

/-! ## Groups -/

section Groups

variable {keys : List Node} {key : Row V → Row V}

theorem Sql.Node.grouped?_eq_keyOr (keys : List Node) {node : Node} {value : Row V → V}
    (scalar : node.scalar? I columns = some value) :
    ∃ otherwise, node.grouped? I columns keys = Sql.keyOr I keys node otherwise := by
  cases node with
  | identifier ref => exact ⟨_, by rw [Node.grouped?]⟩
  | literal literal => exact ⟨_, by rw [Node.grouped?]⟩
  | call operator operands =>
    cases operator with
    | scalar op => exact ⟨_, by rw [Node.grouped?]⟩
    | aggregate function distinct => simp [Node.scalar?] at scalar
  | _ => simp [Node.scalar?] at scalar

/-- An expression that is written as a key has the value of the key. -/
theorem Sql.Node.grouped?_key (computed : Node.scalars? I columns keys = some key)
    {position : Nat} {node : Node} (entry : keys[position]? = some node) :
    ∃ value, node.grouped? I columns keys = some value ∧
      ∀ row rows, value (key row) rows = (key row).getD position I.null := by
  have scalar := Node.scalar?_of_scalars? computed entry
  have self := Node.same_self_of_scalar? scalar
  obtain ⟨otherwise, grouped⟩ := Node.grouped?_eq_keyOr keys scalar
  -- The first key that is written so need not be this one, but it is the same expression.
  cases found : keys.findIdx? node.same with
  | none =>
    have apart := List.findIdx?_eq_none_iff.mp found node (List.mem_of_getElem? entry)
    rw [self] at apart
    cases apart
  | some first =>
    obtain ⟨bound, same, _⟩ := List.findIdx?_eq_some_iff_getElem.mp found
    have earlier : keys[first]? = some node := by
      rw [List.getElem?_eq_getElem bound, ← Node.eq_of_same same]
    have agree := (Node.scalar?_of_scalars? computed earlier).symm.trans scalar
    refine ⟨fun values _ => values.getD first I.null, ?_, fun row rows => ?_⟩
    · rw [grouped, Sql.keyOr, found]
    · exact congrFun (Option.some.inj agree) row

/-- An aggregate call computes what it means on the rows that are read. -/
theorem Scope.Denotes.aggregates {scope : Scope} {read : Row V → Row V}
    (denotes : scope.Denotes I columns read) (computed : Node.scalars? I columns keys = some key)
    {calls : List AggregateCall} {nodes : List Node}
    (translated : scope.aggregates calls = .ok nodes) :
    Node.groupeds? I columns keys nodes =
      some fun _ rows => calls.map fun call => call.value I (rows.map read) := by
  refine Node.groupeds?_eq_some
    ((Except.mapM_eq_ok_iff.mp translated).imp fun call node done => ?_)
  obtain ⟨arguments, found, built⟩ := Except.bind_eq_ok_iff.mp done
  cases built
  have absent : keys.findIdx? (Node.call (.aggregate (Text.upper call.function) call.distinct)
      arguments).same = none := by
    refine List.findIdx?_eq_none_iff.mpr fun other member => Bool.eq_false_iff.mpr fun same => ?_
    obtain ⟨value, scalar⟩ := Node.exists_scalar?_of_mem computed member
    rw [← Node.eq_of_same same] at scalar
    simp [Node.scalar?] at scalar
  rw [Node.grouped?, Sql.keyOr, absent]
  dsimp only
  rw [denotes.fields found, Option.map_some]
  congr
  funext _ rows
  rw [AggregateCall.value, I.planAggregate_eq, Multiset.map_map]
  rfl

theorem Sql.Node.groupeds?_append {left right : List Node}
    {leftValues rightValues : Row V → Bag V → List V}
    (leftOk : Node.groupeds? I columns keys left = some leftValues)
    (rightOk : Node.groupeds? I columns keys right = some rightValues) :
    Node.groupeds? I columns keys (left ++ right) =
      some fun key rows => leftValues key rows ++ rightValues key rows := by
  induction left generalizing leftValues with
  | nil =>
    cases leftOk
    exact rightOk
  | cons node rest ih =>
    rw [Node.groupeds?] at leftOk
    obtain ⟨value, head, leftOk⟩ := Option.bind_eq_some_iff.mp leftOk
    obtain ⟨values, tail, whole⟩ := Option.bind_eq_some_iff.mp leftOk
    cases whole
    rw [List.cons_append, Node.groupeds?, head, ih tail]
    rfl

/-- The keys themselves have the values of the key. -/
theorem Sql.Node.groupeds?_keys (computed : Node.scalars? I columns keys = some key) :
    ∃ values, Node.groupeds? I columns keys keys = some values ∧
      ∀ row rows, values (key row) rows = key row := by
  -- By induction on what is left of the keys, of which `done` have been seen.
  have suffix : ∀ done rest, keys = done ++ rest →
      ∃ values, Node.groupeds? I columns keys rest = some values ∧
        ∀ row rows, values (key row) rows = (key row).drop done.length := by
    intro done rest
    induction rest generalizing done with
    | nil =>
      intro whole
      refine ⟨_, rfl, fun row _ => ?_⟩
      have length := Node.length_of_scalars? computed row
      rw [whole, List.append_nil] at length
      rw [List.drop_eq_nil_of_le length.le]
    | cons node rest ih =>
      intro whole
      have entry : keys[done.length]? = some node := by
        rw [whole, List.getElem?_append_right (Nat.le_refl _), Nat.sub_self]
        rfl
      obtain ⟨value, head, reads⟩ := Node.grouped?_key computed entry
      obtain ⟨values, tail, others⟩ := ih (done ++ [node]) (by rw [whole, List.append_assoc]; rfl)
      refine ⟨fun key rows => value key rows :: values key rows, ?_, fun row rows => ?_⟩
      · rw [Node.groupeds?, head, tail]
        rfl
      · have bound : done.length < (key row).length := by
          rw [Node.length_of_scalars? computed row]
          exact (List.getElem?_eq_some_iff.mp entry).1
        dsimp only
        rw [reads, others, List.length_append, List.getD_eq_getElem _ _ bound]
        exact List.getElem_cons_drop bound
  obtain ⟨values, grouped, reads⟩ := suffix [] keys rfl
  exact ⟨values, grouped, reads⟩

end Groups

end Pushdown
