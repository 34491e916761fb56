import Pushdown.Convention
import Pushdown.Relation.Kind

/-!
# What can go wrong

Errors are causes; `Error.message` gives their words.  A conversion that does not apply to a plan
is no error: it declines.
-/

namespace Pushdown

/-- Why an aggregate cannot be written as one `GROUP BY`. -/
inductive AggregateFault where
  | groupOutOfRange (column : Nat)
  | groupRepeated (column : Nat)
  | setNotContained (columns : List Nat)
  | setRepeatsColumn (columns : List Nat)
  | setRepeated (columns : List Nat)
  | notOneFullSet
  | argumentOutOfRange (argument : Nat) (call : String)
  deriving DecidableEq

/-- The text of a list of columns. -/
def columnsText (columns : List Nat) : String :=
  "[" ++ ", ".intercalate (columns.map toString) ++ "]"

/-- The fault in words, with the columns that it is about. -/
def AggregateFault.message : AggregateFault → String
  | .groupOutOfRange column => "group column " ++ toString column ++ " out of range"
  | .groupRepeated column => "duplicate group column " ++ toString column
  | .setNotContained columns =>
    "grouping set " ++ columnsText columns ++ " is not contained in the group set"
  | .setRepeatsColumn columns => "grouping set " ++ columnsText columns ++ " repeats a column"
  | .setRepeated columns => "duplicate grouping set " ++ columnsText columns
  | .notOneFullSet => "only a single grouping set equal to the group set can be pushed down"
  | .argumentOutOfRange argument call =>
    "argument " ++ toString argument ++ " of " ++ call ++ " out of range"

/-- What a table may lack. -/
inductive Capability where
  | modifiable
  | queryable
  deriving DecidableEq

/-- The capability as messages call it. -/
def Capability.name : Capability → String
  | .modifiable => "modifiable"
  | .queryable => "queryable"

/-- Why settings are refused. -/
inductive SettingsFault where
  | emptyConvention
  | unknownRule (name : String)
  deriving DecidableEq

/-- The fault in words. -/
def SettingsFault.message : SettingsFault → String
  | .emptyConvention => "convention name is empty"
  | .unknownRule name => "unknown rule " ++ name

/-- Why a plan is not converted or compiled, or settings are not taken. -/
inductive Error where
  | nonEquiJoin
  | invalidAggregate (fault : AggregateFault)
  | setOperatorAll (operator : String)
  | mixedConvention (expected found : Convention)
  | inputArity (kind : RelKind) (expected actual : Nat)
  | missingCapability (table : String) (capability : Capability)
  | unsupportedStatement (kind : RelKind)
  | emptyValues
  | fieldOutOfRange (ordinal count : Nat)
  | unknownShared (index : Nat)
  | invalidSettings (fault : SettingsFault)
  | malformedSettings
  deriving DecidableEq

namespace Error

/-- The error in words. -/
def message : Error → String
  | .nonEquiJoin => "join condition is not a conjunction of field equalities"
  | .invalidAggregate fault => "invalid aggregate: " ++ fault.message
  | .setOperatorAll operator => operator ++ " ALL cannot be pushed down"
  | .mixedConvention expected found =>
    "input has convention " ++ found.text ++ ", expected " ++ expected.text
  | .inputArity kind expected actual =>
    kind.name ++ " expects " ++ toString expected ++ " input(s), got " ++ toString actual
  | .missingCapability table capability => "table " ++ table ++ " is not " ++ capability.name
  | .unsupportedStatement kind => "SQL emission is not implemented for " ++ kind.name
  | .emptyValues => "VALUES with no tuples has no SQL form"
  | .fieldOutOfRange ordinal count =>
    "field " ++ toString ordinal ++ " out of range for row of " ++ toString count ++ " field(s)"
  | .unknownShared index =>
    "local reference " ++ toString index ++ " outside the program's expression list"
  | .invalidSettings fault => "invalid configuration: " ++ fault.message
  | .malformedSettings => "settings are not in the form expected"

/-- Whether the error shows a fault of the caller or of a rule, and not one of the input. -/
def isInternal : Error → Bool
  | .nonEquiJoin | .invalidAggregate _ | .setOperatorAll _ | .mixedConvention _ _
  | .inputArity _ _ _ | .missingCapability _ _ | .unsupportedStatement _ => true
  | _ => false

end Error

end Pushdown
