import RowQuery.Settings.Tree
import RowQuery.Text.Digits

/-!
# Paths of settings

The keys of a source are paths into the tree of settings: names separated by points, and places of
lists in brackets. A key that is no such path is a single name.

Results: `ofText_plain`, a key made of the characters of names is a single name.
-/

namespace RowQuery.Setting

/-- A step down a tree. -/
inductive Step where
  | name (s : String)
  | place (i : Int)
deriving DecidableEq

/-- The characters that a name in a path may have. -/
def isNameChar (c : Char) : Bool := c.isAlphanum || c == ' ' || c == '_' || c == '-'

/-- The name at the start of a path, and what follows it. -/
def readName (cs : List Char) : Option (String × List Char) :=
  match cs.takeWhile isNameChar with
  | [] => none
  | name => some (String.ofList name, cs.dropWhile isNameChar)

/-- The text without the blanks and tabs at its start. -/
def skipGap (cs : List Char) : List Char := cs.dropWhile fun c => c == ' ' || c == '\t'

/-- The place that stands before a closing bracket, and what follows the bracket. -/
def readPlace (cs : List Char) : Option (Int × List Char) := do
  let cs := skipGap cs
  let (negative, cs) := match cs with
    | '-' :: cs => (true, cs)
    | cs => (false, cs)
  let (ds, rest) := Text.splitDigits cs
  let i : Int := if negative then -(Text.ofDigits ds : Int) else Text.ofDigits ds
  match skipGap rest with
  | ']' :: rest =>
    if ds.isEmpty then none else (Word.int64? i).map fun n => (n.toInt, rest)
  | _ => none

/-- The steps behind the first name of a path; each of them takes a character at least. -/
def readSteps : Nat → List Char → Option (List Step)
  | _, [] => some []
  | fuel + 1, '.' :: cs => do
    let (name, rest) ← readName cs
    let steps ← readSteps fuel rest
    some (.name name :: steps)
  | fuel + 1, '[' :: cs => do
    let (i, rest) ← readPlace cs
    let steps ← readSteps fuel rest
    some (.place i :: steps)
  | _, _ => none

def readPath (cs : List Char) : Option (List Step) := do
  let (name, rest) ← readName cs
  let steps ← readSteps rest.length rest
  some (.name name :: steps)

/-- The steps that a key stands for. -/
def ofText (key : String) : List Step := (readPath key.toList).getD [.name key]

/-- The tree with a setting at the end of a path. It is laid over what a name stands for, and it takes
the place of an element of a list as it is, names in any case included. -/
def put (s : Setting) : List Step → Setting → Setting
  | [], target => target.overlay s
  | [.place i], target => target.updateAt i fun _ => s
  | .name name :: rest, target => target.update (Text.lower name) (put s rest)
  | .place i :: rest, target => target.updateAt i (put s rest)

/-- The tree with the settings of a source laid over it, one key after the other. -/
def putAll (target : Setting) (source : List (String × Setting)) : Setting :=
  source.foldl (fun t e => e.2.put (ofText e.1) t) target

theorem readName_plain {cs : List Char} (hcs : cs ≠ []) (h : ∀ c ∈ cs, isNameChar c = true) :
    readName cs = some (String.ofList cs, []) := by
  have htake : (cs ++ []).takeWhile isNameChar = cs ++ List.takeWhile isNameChar [] :=
    List.takeWhile_append_of_pos h
  have hdrop : (cs ++ []).dropWhile isNameChar = List.dropWhile isNameChar [] :=
    List.dropWhile_append_of_pos h
  simp only [List.append_nil, List.takeWhile_nil, List.dropWhile_nil] at htake hdrop
  simp only [readName, htake, hdrop]

theorem ofText_plain {key : String} (hkey : key ≠ "") (h : ∀ c ∈ key.toList, isNameChar c = true) :
    ofText key = [.name key] := by
  have hne : key.toList ≠ [] := by simpa using hkey
  simp [ofText, readPath, readName_plain hne h, readSteps]

end RowQuery.Setting
