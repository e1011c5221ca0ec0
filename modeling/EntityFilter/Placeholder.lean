import EntityFilter.Ascending
import EntityFilter.Text.Case

/-!
# Placeholders

A placeholder is a name between a dollar sign with an opening brace and the next closing
brace. Known placeholders are replaced by their values; inserted values are not searched
again.

* `Placeholders.value?_define`: the last definition of a name stays, and names are compared
  by their upper case.
* `Placeholders.expand`: a text with its known placeholders replaced.
-/

namespace EntityFilter

/-- Values under upper-case names. -/
abbrev Placeholders := OrderedMap String String

namespace Placeholders

/-- Defines a name; an earlier definition gives way. -/
def define (p : Placeholders) (name value : String) : Placeholders :=
  p.insert (Text.upper name) value

/-- Defines the names one after the other. -/
def ofPairs (pairs : List (String × String)) : Placeholders :=
  pairs.foldl (fun p pair => define p pair.1 pair.2) OrderedMap.empty

/-- The value of a name. -/
def value? (p : Placeholders) (name : String) : Option String :=
  p.find? (Text.upper name)

/-- **The last definition of a name stays.** -/
theorem value?_define (p : Placeholders) (name value name' : String) :
    value? (define p name value) name' =
      if Text.upper name' = Text.upper name then some value else value? p name' := by
  simp [value?, define, OrderedMap.find?_insert]

/-- The characters that stand for a placeholder: those of its value, or its own. -/
def valueOf (p : Placeholders) (name : List Char) : List Char :=
  match value? p (String.ofList name) with
  | some value => value.toList
  | none => '$' :: '{' :: name ++ ['}']

/-- Replaces placeholders; inside one, the characters of its name so far are given, last one
first. A placeholder that is not closed is kept. -/
def expandChars (p : Placeholders) : Option (List Char) → List Char → List Char
  | none, [] => []
  | some name, [] => '$' :: '{' :: name.reverse
  | none, '$' :: '{' :: rest => expandChars p (some []) rest
  | none, c :: rest => c :: expandChars p none rest
  | some name, c :: rest =>
    if c == '}' then valueOf p name.reverse ++ expandChars p none rest
    else expandChars p (some (c :: name)) rest

/-- **A text with its known placeholders replaced.** -/
def expand (p : Placeholders) (s : String) : String :=
  String.ofList (expandChars p none s.toList)

end Placeholders

end EntityFilter
