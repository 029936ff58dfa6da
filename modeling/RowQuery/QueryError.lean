import RowQuery.Base64

/-!
# Errors of queries

A query fails when an expression cannot be written as a list of filters, when a cursor cannot be used,
or when a count is zero. An error is its cause; `message` is the one place where it is put into words.
-/

namespace RowQuery

/-- Why a cursor cannot be used. -/
inductive CursorFault where
  /-- The token is no base64. -/
  | encoding (fault : Base64.Fault)
  /-- The decoded token is no list of recorded values. -/
  | content
  /-- The cursor does not record the field that leads the ordering of a page. -/
  | missingKey (field : String)
  /-- The cursor does not record the field that leads the ordering of a statement. -/
  | missingLeadingKey
  /-- The cursor records no position. -/
  | missingPosition (field : String)
deriving DecidableEq

/-- The counts of a query that have to be positive. -/
inductive CountName where
  | limit
  | first
  | last
deriving DecidableEq

/-- Why a query fails. -/
inductive QueryError where
  /-- A disjunction cannot be written as a list of filters. -/
  | disjunction
  /-- A negated comparison whose operator has no inverse. -/
  | notInvertible (operator : String)
  /-- A negated expression that is no comparison. -/
  | negation (kind : String)
  /-- A cursor that cannot be used. -/
  | cursor (fault : CursorFault)
  /-- A count of zero. -/
  | zeroCount (name : CountName)
deriving DecidableEq

namespace CursorFault

/-- A fault of a cursor in words. -/
def message : CursorFault → String
  | .encoding fault => fault.message
  | .content => "token does not hold recorded values"
  | .missingKey field => "cursor does not record leading ordering field " ++ field
  | .missingLeadingKey => "cursor does not record the leading ordering field"
  | .missingPosition field => "missing or negative " ++ field

end CursorFault

namespace CountName

def text : CountName → String
  | .limit => "limit"
  | .first => "first"
  | .last => "last"

end CountName

namespace QueryError

def isUnsupported : QueryError → Bool
  | .disjunction | .notInvertible _ | .negation _ => true
  | .cursor _ | .zeroCount _ => false

/-- The name of the kind of an error. -/
def code : QueryError → String
  | .disjunction => "disjunction_not_supported"
  | .notInvertible _ => "not_invertible"
  | .negation _ => "negation_not_supported"
  | .cursor _ => "invalid_cursor"
  | .zeroCount _ => "panic"

def message : QueryError → String
  | .disjunction => "Unsupported expression: OR cannot be translated to a flat filter list"
  | .notInvertible operator => "Unsupported expression: cannot negate operator " ++ operator
  | .negation kind => "Unsupported expression: cannot negate " ++ kind ++ " expression"
  | .cursor fault => "Invalid cursor: " ++ fault.message
  | .zeroCount name => name.text ++ " must be positive, got 0"

end QueryError

end RowQuery
