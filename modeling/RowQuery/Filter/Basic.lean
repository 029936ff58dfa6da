import RowQuery.Filter.Operator
import RowQuery.Value.Order
import RowQuery.Record
import RowQuery.Text.Search

/-!
# Filters

A `Filter` tests one field of a row against an operand. A list of filters is a conjunction: a row is
kept if all of them match.

A field that a row lacks reads as null. The ordering operators match neither null nor values of
incomparable kinds, and the tests of texts and lists match nothing else.
-/

namespace RowQuery

/-- One test of a field. The operand of a null test is null. -/
structure Filter where
  field : String
  operator : Operator
  value : Value
deriving DecidableEq

namespace Filter

/-- The filter with the inverse operator, if it has one. -/
def inverted? (f : Filter) : Option Filter :=
  f.operator.inverse?.map fun op => { f with operator := op }

def isList : Value → Bool
  | .list _ => true
  | _ => false

/-- Whether the filter names a field and its operand fits the operator. -/
def isValid (f : Filter) : Bool :=
  f.field != "" &&
    if !f.operator.requiresValue then f.value.isNull
    else if f.operator.takesList then isList f.value
    else !f.value.isNull

/-- Whether two values that are not null are comparable and in an accepted order. -/
def ordered (accept : Ordering → Bool) (actual expected : Value) : Bool :=
  !actual.isNull && !expected.isNull && (actual.compare? expected).any accept

/-- Whether the operand is a list with an element that equals the value. -/
def memberOf (actual expected : Value) : Bool :=
  match expected with
  | .list items => items.any fun item => item.looselyEquals actual
  | _ => false

/-- Whether both values are texts that pass a test. -/
def texts (test : String → String → Bool) (actual expected : Value) : Bool :=
  match actual, expected with
  | .string a, .string b => test a b
  | _, _ => false

/-- Whether the value is a list with an element that equals the operand. -/
def holds (actual expected : Value) : Bool :=
  match actual with
  | .list items => items.any fun item => item.looselyEquals expected
  | _ => false

/-- Whether both values are lists and share an element. -/
def sharesElement (actual expected : Value) : Bool :=
  match actual, expected with
  | .list items, .list wanted => wanted.any fun w => items.any fun item => item.looselyEquals w
  | _, _ => false

/-- Whether a value passes a test against an operand. -/
def evaluate : Operator → Value → Value → Bool
  | .equals, a, e => a.looselyEquals e
  | .notEquals, a, e => !a.looselyEquals e
  | .lessThan, a, e => ordered Ordering.isLT a e
  | .lessThanOrEquals, a, e => ordered Ordering.isLE a e
  | .greaterThan, a, e => ordered Ordering.isGT a e
  | .greaterThanOrEquals, a, e => ordered Ordering.isGE a e
  | .isNull, a, _ => a.isNull
  | .isNotNull, a, _ => !a.isNull
  | .whereIn, a, e => memberOf a e
  | .whereNotIn, a, e => !memberOf a e
  | .contains, a, e => texts Text.contains a e
  | .startsWith, a, e => texts Text.hasPrefix a e
  | .endsWith, a, e => texts Text.hasSuffix a e
  | .arrayContains, a, e => holds a e
  | .arrayContainsAny, a, e => sharesElement a e

def accepts {ρ : Type} [Record ρ] (f : Filter) (row : ρ) : Bool :=
  evaluate f.operator (Record.value row f.field) f.value

def acceptsAll {ρ : Type} [Record ρ] (filters : List Filter) (row : ρ) : Bool :=
  filters.all fun f => f.accepts row

end Filter

end RowQuery
