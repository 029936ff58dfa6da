import RowQuery.Filter.Basic
import RowQuery.Sql.Like

/-!
# Predicates of SQL

A filter becomes a predicate. Equality with null becomes a test for null. Membership in no values and
the lack of any wanted element have no predicate of the column and become a constant.
-/

namespace RowQuery.Sql

/-- The operators that compare a column with one value. -/
inductive Comparison where
  | eq
  | ne
  | lt
  | le
  | gt
  | ge
deriving DecidableEq

/-- The filter operator that a comparison stands for. -/
def Comparison.operator : Comparison → Operator
  | .eq => .equals
  | .ne => .notEquals
  | .lt => .lessThan
  | .le => .lessThanOrEquals
  | .gt => .greaterThan
  | .ge => .greaterThanOrEquals

/-- A condition on one column, or a constant. -/
inductive Predicate where
  /-- The column is null, or is not. -/
  | null (column : String) (negated : Bool)
  /-- The column compares with a value. -/
  | compare (column : String) (comparison : Comparison) (value : Value)
  /-- The column is among some values, or is not. -/
  | member (column : String) (negated : Bool) (items : List Value)
  /-- The column fits the pattern of a test. -/
  | like (column : String) (op : Operator) (operand : Value)
  /-- The column fits one of the patterns of a test. -/
  | anyLike (column : String) (op : Operator) (operands : List Value)
  /-- Always or never true. -/
  | constant (truth : Bool)
deriving DecidableEq

namespace Predicate

/-- The values of a list operand; another operand stands for itself, and null for no values. -/
def items : Value → List Value
  | .list vs => vs
  | .null => []
  | v => [v]

def equality (column : String) (negated : Bool) (value : Value) : Predicate :=
  if value.isNull then .null column negated
  else .compare column (if negated then .ne else .eq) value

def membership (column : String) (negated : Bool) : List Value → Predicate
  | [] => .constant negated
  | vs => .member column negated vs

/-- A test of a list for several elements. -/
def anyElement (column : String) : List Value → Predicate
  | [] => .constant false
  | vs => .anyLike column .arrayContainsAny vs

def ofFilter (f : Filter) : Predicate :=
  match f.operator with
  | .equals => equality f.field false f.value
  | .notEquals => equality f.field true f.value
  | .lessThan => .compare f.field .lt f.value
  | .lessThanOrEquals => .compare f.field .le f.value
  | .greaterThan => .compare f.field .gt f.value
  | .greaterThanOrEquals => .compare f.field .ge f.value
  | .isNull => .null f.field false
  | .isNotNull => .null f.field true
  | .whereIn => membership f.field false (items f.value)
  | .whereNotIn => membership f.field true (items f.value)
  | .contains => .like f.field .contains f.value
  | .startsWith => .like f.field .startsWith f.value
  | .endsWith => .like f.field .endsWith f.value
  | .arrayContains => .like f.field .arrayContains f.value
  | .arrayContainsAny => anyElement f.field (items f.value)

/-- A column and what is said of it. -/
def clause (r : Renderer) (column : String) (op : Operator) (rest : List Char) : List Char :=
  r.identifier column ++ ' ' :: (r.dialect.operatorText op).toList ++ rest

def likeChars (r : Renderer) (column : String) (op : Operator) (operand : Value) : List Char :=
  clause r column op
    (' ' :: (Like.literal? r op operand).getD "\'\'".toList ++ " ESCAPE \'\\\'".toList)

def chars (r : Renderer) : Predicate → List Char
  | .null column negated => clause r column (if negated then .isNotNull else .isNull) []
  | .compare column comparison value =>
    clause r column comparison.operator (' ' :: r.dialect.literal value)
  | .member column negated vs =>
    clause r column (if negated then .whereNotIn else .whereIn)
      (' ' :: r.dialect.literal (.list vs))
  | .like column op operand => likeChars r column op operand
  | .anyLike column op operands =>
    '(' :: List.intercalate " OR ".toList (operands.map (likeChars r column op)) ++ [')']
  | .constant truth => if truth then "1 = 1".toList else "1 = 0".toList

/-- The text of a conjunction of predicates. -/
def conjunctionChars (r : Renderer) (ps : List Predicate) : List Char :=
  List.intercalate " AND ".toList (ps.map (chars r))

end Predicate

end RowQuery.Sql
