import EntityFilter.Field
import EntityFilter.Text.Dotted

/-!
# Filter schemas

The checked fields of one root entity, as filters see them.

* `Schema.expectedFields`: the listing of all selectors that a message shows.
-/

namespace EntityFilter

/-- A checked field with its store path in segments and, for a map, how it is kept. -/
structure SchemaEntry where
  field : Field
  segments : List String
  shape : Option MapShape

/-- The checked fields of a root entity, in declaration order. -/
structure Schema where
  entity : String
  entries : List SchemaEntry

namespace Schema

/-- The entry of a field name, ASCII letters of either case being alike. -/
def entry? (s : Schema) (name : String) : Option SchemaEntry :=
  s.entries.find? fun e => Text.sameName e.field.name name

/-- The field of a name. -/
def field? (s : Schema) (name : String) : Option Field :=
  (s.entry? name).map SchemaEntry.field

/-- How a field that is compared itself is written. -/
def plainSelector (f : Field) : String :=
  if f.isMap then Text.lower f.name ++ ".keyName" else Text.lower f.name

/-- How the attributes below a field are written. -/
def nestedSelectors (f : Field) : List String :=
  f.subs.map fun sub => Text.lower f.name ++ "." ++ sub

/-- **All selectors**: fields that are compared themselves first, then those below fields. -/
def expectedFields (s : Schema) : List String :=
  let fields := s.entries.map SchemaEntry.field
  (fields.filter fun f => f.subs.isEmpty).map plainSelector ++ fields.flatMap nestedSelectors

end Schema

end EntityFilter
