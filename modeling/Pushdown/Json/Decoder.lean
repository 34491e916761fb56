import Pushdown.Json.Value

/-!
# Reading values out of JSON

A value is read within a number of levels: each array or object that is entered takes one, and
text nested more deeply than `nestingLimit` is refused.  What is skipped is not counted.

A record is an object whose members are its fields, in any order and among others that are
skipped, or an array of all its fields in order.  A choice among named alternatives is the name
alone, or an object of one member; an alternative without content may have null there.
-/

namespace Pushdown.Json

/-- The number of arrays and objects that may be open at once. -/
def nestingLimit : Nat := 127

/-- A way to read a value within a number of levels. -/
abbrev Decoder (α : Type) := Nat → Json → Option α

/-- A truth value. -/
def bool? : Json → Option Bool
  | .bool value => some value
  | _ => none

/-- A text. -/
def string? : Json → Option String
  | .string text => some text
  | _ => none

/-- An unsigned number of 64 bits. -/
def nat? : Json → Option Nat
  | .integer n => if 0 ≤ n ∧ n.toNat < UInt64.size then some n.toNat else none
  | _ => none

/-- A signed number of 64 bits. -/
def int64? : Json → Option Int64
  | .integer n =>
    if Int64.minValue.toInt ≤ n ∧ n ≤ Int64.maxValue.toInt then some (Int64.ofInt n) else none
  | _ => none

/-- The double nearest to an integer of 64 bits. -/
def doubleOfInt (n : Int) : Binary64 :=
  let f := n.natAbs.toUInt64.toFloat
  .ofFloat (if n < 0 then -f else f)

/-- A double; an integer counts as one. -/
def double? : Json → Option Binary64
  | .double x => some x
  | .integer n => some (doubleOfInt n)
  | _ => none

/-- A value, or null for none. -/
def nullable? {α : Type} (decode : Json → Option α) : Json → Option (Option α)
  | .null => some none
  | j => some <$> decode j

/-- A list whose items are read by `decode`. -/
def items? {α : Type} (decode : Json → Option α) : Json → Option (List α)
  | .array items => items.mapM decode
  | _ => none

/-- A list of items that need no further level. -/
def list? {α : Type} (decode : Json → Option α) : Decoder (List α)
  | 0, _ => none
  | _ + 1, j => items? decode j

/-- The fields of a record in order, `none` for one that is absent; a field given twice is
refused.  An array has to hold all of them, or only the first ones with `allowShort`. -/
def fields? (names : List String) (allowShort : Bool) : Json → Option (List (Option Json))
  | .object members =>
    if names.all fun name => (members.filter (·.1 == name)).length ≤ 1 then
      some (names.map fun name => members.lookup name)
    else none
  | .array items =>
    if items.length = names.length ∨ allowShort ∧ items.length < names.length then
      some (items.map some ++ List.replicate (names.length - items.length) none)
    else none
  | _ => none

/-- The fields of a record, which takes a level. -/
def record? (names : List String) : Decoder (List (Option Json))
  | 0, _ => none
  | _ + 1, j => fields? names false j

/-- A field that has to be there. -/
def required {α : Type} (decode : Json → Option α) (field : Option Json) : Option α :=
  field.bind decode

/-- A field that may be absent or null. -/
def optional {α : Type} (decode : Json → Option α) : Option Json → Option (Option α)
  | none => some none
  | some j => nullable? decode j

/-- The name of an alternative, and its content if it has any. -/
def alternative? : Decoder (String × Option Json)
  | _, .string name => some (name, none)
  | _ + 1, .object [(name, content)] => some (name, some content)
  | _, _ => none

/-- Whether there is no content, or null in its place. -/
def isVoid : Option Json → Bool
  | none | some .null => true
  | some _ => false

/-- One of several values, by its name alone. -/
def named? {α : Type} (options : List α) (name : α → String) (j : Json) : Option α := do
  let found ← string? j
  options.find? fun option => name option == found

/-- One of several values without content, each under its name. -/
def choice? {α : Type} (options : List α) (name : α → String) : Decoder α := fun levels j => do
  let (found, content) ← alternative? levels j
  if isVoid content then options.find? fun option => name option == found else none

end Pushdown.Json
