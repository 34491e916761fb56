import Pushdown.Relation.Rule
import Pushdown.Text.Blank

/-!
# Settings of a target

The convention and the dialect of one remote database, and the rules that are not to be used
for it.
-/

namespace Pushdown

/-- What a target is called, what product it is and where it departs from that. -/
structure Settings where
  convention : String := "jdbc"
  product : Sql.Product := .ansi
  nullOrdering : Option Sql.NullOrdering := none
  quoteStyle : Option Sql.QuoteStyle := none
  disabledRules : List String := []
  deriving DecidableEq

namespace Settings

/-- The settings are in order: the convention has a name, and the rules exist. -/
def validate (s : Settings) : Except Error Unit :=
  if Text.isBlank s.convention then .error (.invalidSettings .emptyConvention)
  else
    match s.disabledRules.find? fun name => !(ruleOrder.map RelKind.ruleName).contains name with
    | some name => .error (.invalidSettings (.unknownRule name))
    | none => .ok ()

/-- The dialect of the product with the overrides given. -/
def dialect (s : Settings) : Sql.Dialect :=
  (Sql.Dialect.ofProduct s.product).override s.nullOrdering s.quoteStyle

/-- The convention of the target. -/
def toConvention (s : Settings) : Convention := ⟨s.convention, s.dialect⟩

/-- The rules for the target, without the disabled ones. -/
def ruleSet (s : Settings) : RuleSet :=
  ⟨s.toConvention, ruleOrder.filter fun kind => !s.disabledRules.contains kind.ruleName⟩

end Settings

end Pushdown
