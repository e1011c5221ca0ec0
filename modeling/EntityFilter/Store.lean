import EntityFilter.Ascending
import EntityFilter.Dialect
import EntityFilter.Value

/-!
# Stores

A store keeps the records of entities in tables, in ascending order of their identifiers.

* `Store.insert`: stores a record; one with the same identifier gives way.
* `Store.record?_insert`: what is found after a record is stored.
-/

namespace EntityFilter

/-- What a record holds under an attribute. -/
inductive Cell
  | scalar (v : Value)
  | reference (id : Option Int)
  | collection (ids : List Int)
  | elements (vs : List Value)
  | map (entries : OrderedMap String Value)

/-- The cells of a record under the names of attributes. -/
abbrev Record := OrderedMap String Cell

/-- The records of an entity under their identifiers. -/
abbrev Table := OrderedMap Int Record

/-- Tables under the names of entities, and the dialect in which patterns are read. -/
structure Store where
  dialect : Dialect
  tables : OrderedMap String Table

namespace Store

/-- A store without records. -/
def empty (d : Dialect) : Store :=
  ⟨d, OrderedMap.empty⟩

variable (st : Store)

/-- The table of an entity. -/
def table (entity : String) : Table :=
  (st.tables.find? entity).getD OrderedMap.empty

/-- The record of an entity with an identifier. -/
def record? (entity : String) (id : Int) : Option Record :=
  (st.table entity).find? id

/-- **Stores a record.** -/
def insert (entity : String) (id : Int) (r : Record) : Store :=
  { st with tables := st.tables.insert entity ((st.table entity).insert id r) }

/-- **A stored record is found and hides no other.** -/
theorem record?_insert (entity entity' : String) (id id' : Int) (r : Record) :
    (st.insert entity id r).record? entity' id' =
      if entity' = entity ∧ id' = id then some r else st.record? entity' id' := by
  simp only [record?, table, insert, OrderedMap.find?_insert]
  by_cases he : entity' = entity
  · subst he
    by_cases hi : id' = id <;> simp [OrderedMap.find?_insert, hi]
  · simp [he]

end Store

end EntityFilter
