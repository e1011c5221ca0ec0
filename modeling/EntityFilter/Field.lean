import EntityFilter.Model
import EntityFilter.Value

/-!
# Filter fields

A field is a name that filters may use, with the store path that it stands for.
-/

namespace EntityFilter

/-- The attributes that hold key and value where a map is kept as entities. -/
structure EntryAttributes where
  key : String
  value : String
  deriving DecidableEq, Inhabited

/-- How the entries of a map field are kept. -/
inductive MapShape
  /-- In one map attribute. -/
  | native
  /-- As related entities with a key and a value attribute. -/
  | entries (attributes : EntryAttributes)
  deriving DecidableEq, Inhabited

/-- A conversion of argument texts to values, and the texts to advertise when it fails. -/
structure Converter where
  convert : String → Option Value
  possible : List String

/-- The declaration of a filter field. -/
structure Field where
  /-- The name in filters, ASCII letters of either case being alike. -/
  name : String
  /-- The dotted path from the root entity. -/
  path : String
  /-- The attributes that may be named below the path; none for a field that is itself
  compared. -/
  subs : List String
  /-- Whether a key follows the name. -/
  isMap : Bool
  /-- Where a map is kept as entities, their key and value attributes. -/
  entryAttributes : Option EntryAttributes
  /-- The root attribute by which a sub-query of a negation is tied to the outer row. -/
  identifier : String
  converter : Option Converter

end EntityFilter
