import RowQuery.Page.Options
import RowQuery.Text.Blank

/-!
# Settings

The settings of the library: the options of paging and those of SQL. The field that breaks ties needs
a name that is not blank.
-/

namespace RowQuery

/-- The options of SQL. -/
structure SqlOptions where
  /-- Whether names of columns and tables stand in quotation marks. -/
  quoteIdentifiers : Bool
deriving DecidableEq

/-- Names are written without quotation marks. -/
def SqlOptions.standard : SqlOptions := ⟨false⟩

/-- All settings. -/
structure Settings where
  pagination : PageOptions
  sql : SqlOptions
deriving DecidableEq

/-- Why settings cannot be used. -/
inductive SettingsFault where
  /-- A source gives something that is no value of its setting. -/
  | source
  /-- The field that breaks ties has a blank name. -/
  | blankTiebreaker
deriving DecidableEq

namespace SettingsFault

/-- The name of the kind of a fault. -/
def code : SettingsFault → String
  | .source => "source"
  | .blankTiebreaker => "invalid_value"

def message : SettingsFault → String
  | .source => "Config source error: unreadable setting"
  | .blankTiebreaker => "Invalid value for pagination.tiebreaker_field: must not be empty"

end SettingsFault

namespace Settings

/-- The settings in force when no source says otherwise. -/
def standard : Settings := ⟨.standard, .standard⟩

def isBlankName (s : String) : Bool := (Text.trim s.toList).isEmpty

/-- The settings themselves, if they can be used. -/
def checked (s : Settings) : Except SettingsFault Settings :=
  if isBlankName s.pagination.tiebreaker then .error .blankTiebreaker else .ok s

end Settings

end RowQuery
