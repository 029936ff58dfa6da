import RowQuery.Double.Text
import RowQuery.Settings.Basic
import RowQuery.Settings.Path

/-!
# Settings out of trees

Settings are read out of a tree after the sources have been laid over the standard settings. A plain
value is turned into what the setting needs where that makes sense: a number into a truth value, a
truth value or a number into a text. A section is a table of its settings, or a list of them in order.
Names that mean nothing are passed over.

Results: `toSettings?_toTree`, settings are read back out of their tree.
-/

namespace RowQuery

namespace Setting

/-- The truth value that a text names. -/
def boolOfText? (s : String) : Option Bool :=
  let s := Text.lower s
  if ["1", "true", "on", "yes"].contains s then some true
  else if ["0", "false", "off", "no"].contains s then some false
  else none

/-- The truth value of a setting; a number is true unless it is zero. -/
def toBool? : Setting → Option Bool
  | .bool b => some b
  | .int i => some (i != 0)
  | .float x => some !x.isZero
  | .text s => boolOfText? s
  | .null | .list _ | .table _ => none

def toText? : Setting → Option String
  | .bool b => some (if b then "true" else "false")
  | .int i => some (String.ofList (Text.intDigits i.toInt))
  | .float x => some (String.ofList x.plainChars)
  | .text s => some s
  | .null | .list _ | .table _ => none

/-- The strategy that a setting names, in any case. A table with one entry is a name as well, whatever
the entry holds. -/
def toStrategy? : Setting → Option CursorStrategy
  | .text s => CursorStrategy.ofName? (Text.lower s)
  | .table [(name, _)] => CursorStrategy.ofName? (Text.lower name)
  | _ => none

/-- The settings of a section by their names or, in a list, by their places. -/
def section? (names : List String) : Setting → Option (List (Option Setting))
  | .table es => some (names.map fun name => lookup? name es)
  | .list is => some ((List.range names.length).map fun i => is[i]?)
  | _ => none

/-- A setting that is left at its default when it is absent. -/
def defaulted? {α : Type} (default : α) (read : Setting → Option α) : Option Setting → Option α
  | none => some default
  | some s => read s

/-- The options of paging in a section. -/
def toPageOptions? (s : Setting) : Option PageOptions := do
  match ← s.section? ["tiebreaker_field", "cursor_strategy", "include_total_count"] with
  | [tiebreaker, strategy, countTotal] =>
    some
      ⟨← defaulted? PageOptions.standard.tiebreaker toText? tiebreaker,
        ← defaulted? PageOptions.standard.strategy toStrategy? strategy,
        ← defaulted? PageOptions.standard.countTotal toBool? countTotal⟩
  | _ => none

/-- The options of SQL in a section. -/
def toSqlOptions? (s : Setting) : Option SqlOptions := do
  match ← s.section? ["quote_identifiers"] with
  | [quoteIdentifiers] =>
    some ⟨← defaulted? SqlOptions.standard.quoteIdentifiers toBool? quoteIdentifiers⟩
  | _ => none

def toSettings? (s : Setting) : Option Settings := do
  match ← s.section? ["pagination", "sql"] with
  | [pagination, sql] =>
    some
      ⟨← defaulted? PageOptions.standard toPageOptions? pagination,
        ← defaulted? SqlOptions.standard toSqlOptions? sql⟩
  | _ => none

end Setting

namespace Settings

def toTree (s : Settings) : Setting :=
  .table
    [("pagination",
      .table
        [("tiebreaker_field", .text s.pagination.tiebreaker),
          ("cursor_strategy", .text s.pagination.strategy.name),
          ("include_total_count", .bool s.pagination.countTotal)]),
      ("sql", .table [("quote_identifiers", .bool s.sql.quoteIdentifiers)])]

/-- The standard settings with those of a source laid over them. -/
def ofSource (source : List (String × Setting)) : Except SettingsFault Settings :=
  match (standard.toTree.putAll source).toSettings? with
  | some s => s.checked
  | none => .error .source

theorem ofName?_lower_name (s : CursorStrategy) :
    CursorStrategy.ofName? (Text.lower s.name) = some s := by
  cases s <;> decide +kernel

theorem toSettings?_toTree (s : Settings) : s.toTree.toSettings? = some s := by
  simp [toTree, Setting.toSettings?, Setting.section?, Setting.lookup?, Setting.defaulted?,
    Setting.toPageOptions?, Setting.toSqlOptions?, Setting.toText?, Setting.toStrategy?,
    Setting.toBool?, ofName?_lower_name]

end Settings

end RowQuery
