/-!
# Distinct names

A name that is taken gets the least decimal suffix that makes it free.  `distinct` names the
fields of a row this way, from left to right; `Aliases` hands out names one at a time over a whole
statement, and each name it has handed out stays taken.
-/

namespace Pushdown.Naming

/-- The least `n` for which `name` followed by `n` is not taken.  As `taken` has only
`taken.length` entries, a suffix up to that number is always free. -/
def freeSuffix (taken : List String) (name : String) : Nat :=
  ((List.range taken.length).find? fun n =>
    !taken.contains (name ++ toString n)).getD taken.length

/-- `name` itself when it is free, else `name` with its least free suffix. -/
def freeName (taken : List String) (name : String) : String :=
  if taken.contains name then name ++ toString (freeSuffix taken name) else name

/-- The names with those that repeat an earlier result suffixed. -/
def distinctFrom (taken : List String) : List String → List String
  | [] => []
  | name :: rest =>
    let free := freeName taken name
    free :: distinctFrom (taken ++ [free]) rest

/-- The names made distinct, from left to right. -/
def distinct (names : List String) : List String := distinctFrom [] names

end Pushdown.Naming

namespace Pushdown

/-- The names handed out so far within one statement. -/
structure Aliases where
  taken : List String := []
  deriving DecidableEq

namespace Aliases

/-- Hands out `name`, or `name` with its least free suffix. -/
def reserve (a : Aliases) (name : String) : String × Aliases :=
  let free := Naming.freeName a.taken name
  (free, { taken := free :: a.taken })

/-- Hands out the next name for a derived table: `t`, `t0`, `t1` and so on. -/
def next (a : Aliases) : String × Aliases := a.reserve "t"

end Aliases

end Pushdown
