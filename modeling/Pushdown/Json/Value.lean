import Pushdown.Number.Shortest

/-!
# JSON values

Objects keep their members in order, repeated names included, as a reader may have to refuse the
repetition.  A number is an integer when it is written without a point or an exponent and fits in
64 bits, and a double otherwise.

Some text is well formed and still has no value: a number beyond the doubles, or a string with
half of a surrogate pair.  It reads as `unreadable`, which may be skipped but never used.
-/

namespace Pushdown

/-- A JSON value. -/
inductive Json where
  | null
  | bool (value : Bool)
  | integer (value : Int)
  | double (value : Binary64)
  | string (text : String)
  | array (items : List Json)
  | object (members : List (String × Json))
  | unreadable

namespace Json

instance : Inhabited Json := ⟨.null⟩

/-- A double has a JSON form only if it is finite; any other is written as null. -/
def ofDouble (x : Binary64) : Json := if x.isFinite then .double x else .null

/-- A count or a position is written as an integer. -/
def ofNat (n : Nat) : Json := .integer n

/-- What is absent is written as null. -/
def ofOption {α : Type} (encode : α → Json) : Option α → Json
  | none => .null
  | some a => encode a

/-- A list is written as an array, in its order. -/
def ofList {α : Type} (encode : α → Json) (items : List α) : Json := .array (items.map encode)

/-- A list of texts, such as the fields of a row. -/
def ofStrings (texts : List String) : Json := ofList .string texts

/-- A list of positions. -/
def ofNats (numbers : List Nat) : Json := ofList ofNat numbers

end Json

end Pushdown
