import Pushdown.Relation.Plan
import Pushdown.Scalar.JoinKeys

/-!
# Remote plans

A remote plan is known to be one statement of one remote database.  Each node is bound to a
convention and carries its fields; the functions that build a node check that its inputs are
bound to the same convention and that its references are in range.

`RemotePlan.withInputs` builds a node again over other inputs.  The fields stay as they were,
except where they are those of the input.
-/

namespace Pushdown

mutual

/-- A relational operator bound to a convention. -/
structure RemotePlan where
  convention : Convention
  fields : Fields
  op : RemoteOp

/-- The operator of a remote plan with its inputs. -/
inductive RemoteOp where
  | scan (table : Table)
  | join (left right : RemotePlan) (condition : Expr) (kind : JoinKind) (keys : List (Nat × Nat))
  | filter (input : RemotePlan) (condition : Expr)
  | project (input : RemotePlan) (projects : List Expr)
  | calculate (input : RemotePlan) (program : Program)
  | aggregate (input : RemotePlan) (groupSet : List Nat) (groupingSets : List (List Nat))
      (calls : List AggregateCall)
  | sort (input : RemotePlan) (keys : List SortKey)
  | set (kind : SetKind) (inputs : List RemotePlan) (all : Bool)
  | values (tuples : List (List Literal))
  | modify (table : Table) (input : RemotePlan) (operation : ModifyOperation)
      (updateColumns : Option (List String)) (flattened : Bool) (target : List String)
      (query : String)

end

namespace RemoteOp

def kind : RemoteOp → RelKind
  | .scan .. => .tableScan
  | .join .. => .join
  | .filter .. => .filter
  | .project .. => .project
  | .calculate .. => .calculate
  | .aggregate .. => .aggregate
  | .sort .. => .sort
  | .set kind .. => .set kind
  | .values .. => .values
  | .modify .. => .tableModify

/-- The inputs, from left to right. -/
def inputs : RemoteOp → List RemotePlan
  | .scan _ | .values _ => []
  | .join left right .. => [left, right]
  | .filter input _ | .project input _ | .calculate input _ | .aggregate input ..
  | .sort input _ | .modify _ input .. => [input]
  | .set _ inputs _ => inputs

end RemoteOp

/-! ## Checks -/

/-- The expression refers to fields of a row of `width` fields only. -/
def checkInputs (width : Nat) (e : Expr) : Except Error Unit :=
  match e.maxInput? with
  | some ordinal => if width ≤ ordinal then .error (.fieldOutOfRange ordinal width) else .ok ()
  | none => .ok ()

/-- The group columns are columns of the input, each given once.  `seen` holds those before. -/
def checkGroups (width : Nat) (seen : List Nat) : List Nat → Except Error Unit
  | [] => .ok ()
  | column :: rest =>
    if width ≤ column then .error (.invalidAggregate (.groupOutOfRange column))
    else if column ∈ seen then .error (.invalidAggregate (.groupRepeated column))
    else checkGroups width (column :: seen) rest

/-- The grouping sets are sets of group columns, and no two are the same set. -/
def checkGroupingSets (groupSet : List Nat) (seen : List (List Nat)) :
    List (List Nat) → Except Error Unit
  | [] => .ok ()
  | columns :: rest =>
    if ¬ columns ⊆ groupSet then .error (.invalidAggregate (.setNotContained columns))
    else if ¬ columns.Nodup then .error (.invalidAggregate (.setRepeatsColumn columns))
    else if seen.any (·.isPerm columns) then .error (.invalidAggregate (.setRepeated columns))
    else checkGroupingSets groupSet (columns :: seen) rest

/-- The arguments of the calls are columns of the input. -/
def checkCalls (width : Nat) : List AggregateCall → Except Error Unit
  | [] => .ok ()
  | call :: rest =>
    match call.args.find? fun argument => width ≤ argument with
    | some argument => .error (.invalidAggregate (.argumentOutOfRange argument call.name))
    | none => checkCalls width rest

/-- The aggregate groups by one set of columns, which is the whole group set. -/
def checkAggregate (width : Nat) (groupSet : List Nat) (groupingSets : List (List Nat))
    (calls : List AggregateCall) : Except Error Unit := do
  checkGroups width [] groupSet
  checkGroupingSets groupSet [] groupingSets
  match groupingSets with
  | [only] =>
    if only.length = groupSet.length then checkCalls width calls
    else throw (.invalidAggregate .notOneFullSet)
  | _ => throw (.invalidAggregate .notOneFullSet)

namespace RemotePlan

instance : Inhabited RemotePlan := ⟨⟨⟨"", .ofProduct .ansi⟩, [], .values []⟩⟩

def kind (p : RemotePlan) : RelKind := p.op.kind

/-- The inputs, from left to right. -/
def inputs (p : RemotePlan) : List RemotePlan := p.op.inputs

/-- All inputs are bound to the convention. -/
def checkConvention (convention : Convention) : List RemotePlan → Except Error Unit
  | [] => .ok ()
  | input :: rest =>
    if input.convention = convention then checkConvention convention rest
    else .error (.mixedConvention convention input.convention)

/-- What the operator demands of its inputs, its fields and its references. -/
def checkOperator (fields : Fields) : RemoteOp → Except Error Unit
  | .join left right condition _ keys =>
    let found := JoinKeys.ofCondition left.fields.length right.fields.length condition
    if found.isEqui && found.pairs == keys then .ok () else .error .nonEquiJoin
  | .filter input condition => checkInputs input.fields.length condition
  | .project input projects =>
    if projects.length ≠ fields.length then
      .error (.fieldOutOfRange projects.length fields.length)
    else projects.forM (checkInputs input.fields.length)
  | .aggregate input groupSet groupingSets calls =>
    checkAggregate input.fields.length groupSet groupingSets calls
  | .sort input keys =>
    match keys.find? fun key => input.fields.length ≤ key.field with
    | some key => .error (.fieldOutOfRange key.field input.fields.length)
    | none => .ok ()
  | .set .union [] _ => .error (.inputArity (.set .union) 1 0)
  | .set .intersect _ true => .error (.setOperatorAll "INTERSECT")
  | .set .minus _ true => .error (.setOperatorAll "EXCEPT")
  | .values tuples =>
    match tuples.find? fun tuple => tuple.length ≠ fields.length with
    | some tuple => .error (.fieldOutOfRange tuple.length fields.length)
    | none => .ok ()
  | _ => .ok ()

/-- The node of an operator, if it passes all checks. -/
def checked (convention : Convention) (fields : Fields) (op : RemoteOp) :
    Except Error RemotePlan := do
  checkConvention convention op.inputs
  checkOperator fields op
  return ⟨convention, fields, op⟩

/-! ## Building nodes -/

/-- A scan has the fields of its table. -/
def scan (convention : Convention) (table : Table) : Except Error RemotePlan :=
  checked convention table.fields (.scan table)

/-- A join by the keys of its condition, which must be the whole condition. -/
def join (convention : Convention) (fields : Fields) (left right : RemotePlan)
    (condition : Expr) (kind : JoinKind) : Except Error RemotePlan :=
  let keys := JoinKeys.ofCondition left.fields.length right.fields.length condition
  if keys.isEqui then checked convention fields (.join left right condition kind keys.pairs)
  else .error .nonEquiJoin

/-- A filter has the fields of its input. -/
def filter (convention : Convention) (input : RemotePlan) (condition : Expr) :
    Except Error RemotePlan :=
  checked convention input.fields (.filter input condition)

/-- A projection has the fields that it is given. -/
def project (convention : Convention) (fields : Fields) (input : RemotePlan)
    (projects : List Expr) : Except Error RemotePlan :=
  checked convention fields (.project input projects)

/-- A calculation has the fields that its program puts out. -/
def calculate (convention : Convention) (input : RemotePlan) (program : Program) :
    Except Error RemotePlan :=
  checked convention program.output (.calculate input program)

/-- An aggregate has the fields that it is given. -/
def aggregate (convention : Convention) (fields : Fields) (input : RemotePlan)
    (groupSet : List Nat) (groupingSets : List (List Nat)) (calls : List AggregateCall) :
    Except Error RemotePlan :=
  checked convention fields (.aggregate input groupSet groupingSets calls)

/-- A sort has the fields of its input. -/
def sort (convention : Convention) (input : RemotePlan) (keys : List SortKey) :
    Except Error RemotePlan :=
  checked convention input.fields (.sort input keys)

/-- A set operation has the fields that it is given. -/
def set (convention : Convention) (fields : Fields) (kind : SetKind) (inputs : List RemotePlan)
    (all : Bool) : Except Error RemotePlan :=
  checked convention fields (.set kind inputs all)

/-- Constant rows have the fields that they are given. -/
def values (convention : Convention) (fields : Fields) (tuples : List (List Literal)) :
    Except Error RemotePlan :=
  checked convention fields (.values tuples)

/-- A change of a table, which must take changes and offer a query. -/
def modify (convention : Convention) (table : Table) (input : RemotePlan)
    (operation : ModifyOperation) (updateColumns : Option (List String)) (flattened : Bool) :
    Except Error RemotePlan :=
  match table.modifyTarget?, table.queryText? with
  | none, _ => .error (.missingCapability table.displayName .modifiable)
  | _, none => .error (.missingCapability table.displayName .queryable)
  | some target, some query =>
    checked convention .rowCount
      (.modify table input operation updateColumns flattened target query)

/-- The number of inputs that a node takes when it is offered `offered` of them. -/
def arity (op : RemoteOp) (offered : Nat) : Nat :=
  match op with
  | .scan _ | .values _ => 0
  | .join .. => 2
  | .set .. => max offered 1
  | _ => 1

/-- The node over other inputs, with its convention and its operator's attributes kept. -/
def withInputs (p : RemotePlan) (inputs : List RemotePlan) : Except Error RemotePlan :=
  let wrongArity := Error.inputArity p.kind (arity p.op inputs.length) inputs.length
  match p.op, inputs with
  | .scan table, [] => scan p.convention table
  | .values tuples, [] => values p.convention p.fields tuples
  | .join _ _ condition kind _, [left, right] =>
    join p.convention p.fields left right condition kind
  | .filter _ condition, [input] => filter p.convention input condition
  | .project _ projects, [input] => project p.convention p.fields input projects
  | .calculate _ program, [input] => calculate p.convention input program
  | .aggregate _ groupSet groupingSets calls, [input] =>
    aggregate p.convention p.fields input groupSet groupingSets calls
  | .sort _ keys, [input] => sort p.convention input keys
  | .set kind _ all, first :: rest => set p.convention p.fields kind (first :: rest) all
  | .modify table _ operation updateColumns flattened _ _, [input] =>
    modify p.convention table input operation updateColumns flattened
  | _, _ => .error wrongArity

end RemotePlan

end Pushdown
