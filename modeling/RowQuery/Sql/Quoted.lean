/-!
# Quoted tokens of SQL

A string stands in single quotes and an identifier in double quotes. Inside, the quotation mark is
written twice and every other character once.

Results: `count_encode`, the mark is doubled and nothing else is.
-/

namespace RowQuery.Sql.Quoted

/-- The inside of a token that stands between two of the given marks. -/
def encode (mark : Char) : List Char → List Char
  | [] => []
  | c :: rest => if c = mark then mark :: mark :: encode mark rest else c :: encode mark rest

def enclose (mark : Char) (inside : List Char) : List Char := mark :: inside ++ [mark]

theorem count_encode (mark c : Char) (cs : List Char) :
    (encode mark cs).count c = (if c = mark then 2 else 1) * cs.count c := by
  induction cs with
  | nil => simp [encode]
  | cons d rest ih => by_cases h : d = mark <;> by_cases hc : c = d <;> grind [encode]

end RowQuery.Sql.Quoted
