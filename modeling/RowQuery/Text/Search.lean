/-!
# Finding one text inside another

Texts are compared character by character, with regard to case.

Results: `containsChars_iff`, `hasPrefix_iff`, `hasSuffix_iff` say when each test holds.
-/

namespace RowQuery.Text

/-- Whether `needle` stands somewhere in the text. -/
def containsChars (needle : List Char) : List Char → Bool
  | [] => needle.isEmpty
  | c :: cs => needle.isPrefixOf (c :: cs) || containsChars needle cs

def contains (s needle : String) : Bool := containsChars needle.toList s.toList

def hasPrefix (s start : String) : Bool := start.toList.isPrefixOf s.toList

def hasSuffix (s stop : String) : Bool := stop.toList.isSuffixOf s.toList

theorem containsChars_iff {needle cs : List Char} :
    containsChars needle cs = true ↔ needle <:+: cs := by
  induction cs with
  | nil => simp [containsChars, List.infix_nil]
  | cons c cs ih => simp [containsChars, ih, List.infix_cons_iff]

theorem contains_iff {s needle : String} : contains s needle = true ↔ needle.toList <:+: s.toList :=
  containsChars_iff

theorem hasPrefix_iff {s start : String} :
    hasPrefix s start = true ↔ start.toList <+: s.toList := by
  simp [hasPrefix]

theorem hasSuffix_iff {s stop : String} : hasSuffix s stop = true ↔ stop.toList <:+ s.toList := by
  simp [hasSuffix]

end RowQuery.Text
