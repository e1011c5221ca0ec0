import EntityFilter.Text.Case

/-!
# The entity model

Entities with attributes, some of which reach other entities. Entities may refer to each
other in cycles, so an attribute names the entity that it reaches and the model looks names
up.

* `Model.entity_name`: the entity looked up under a name has that name.
* `Kind.isBasic_iff`: an attribute is read in place exactly if it holds one scalar.
-/

namespace EntityFilter

/-- The type of a scalar; an enumeration is named. -/
inductive ScalarType
  | bool
  | int
  | text
  | enumeration (name : String)
  deriving DecidableEq, Inhabited

/-- What an attribute holds. -/
inductive Kind
  /-- One scalar. -/
  | basic (type : ScalarType)
  /-- At most one record of an entity. -/
  | reference (entity : String)
  /-- Records of an entity. -/
  | collection (entity : String)
  /-- Scalars. -/
  | elements (type : ScalarType)
  /-- Scalars under text keys. -/
  | map (type : ScalarType)
  deriving DecidableEq, Inhabited

namespace Kind

/-- Whether an attribute is read in place, without a join. -/
def isBasic : Kind → Bool
  | basic _ => true
  | _ => false

/-- The entity that a relation reaches. -/
def target? : Kind → Option String
  | reference e => some e
  | collection e => some e
  | _ => none

/-- The type of the scalars held. -/
def scalarType? : Kind → Option ScalarType
  | basic t => some t
  | elements t => some t
  | map t => some t
  | _ => none

theorem isBasic_iff (k : Kind) : k.isBasic ↔ ∃ t, k = basic t := by
  cases k <;> simp [isBasic]

end Kind

/-- A named attribute. -/
structure Attribute where
  name : String
  kind : Kind
  deriving DecidableEq, Inhabited

/-- An entity with its attributes and the attribute that holds a record's identifier. -/
structure Entity where
  name : String
  primaryKey : String
  attributes : List Attribute
  deriving DecidableEq, Inhabited

/-- The attribute of an exact name. -/
def Entity.attribute? (e : Entity) (name : String) : Option Attribute :=
  e.attributes.find? fun a => a.name == name

/-- Whether an entity has an attribute of an exact name. -/
def Entity.declares (e : Entity) (name : String) : Bool :=
  (e.attribute? name).isSome

theorem Entity.name_of_attribute? {e : Entity} {name : String} {a : Attribute}
    (h : e.attribute? name = some a) : a.name = name := by
  simpa using List.find?_some h

/-- An enumeration with its constants in declaration order. -/
structure Enumeration where
  name : String
  variants : List String
  deriving DecidableEq, Inhabited

/-- The declared spelling of a constant, ASCII letters of either case being alike. -/
def Enumeration.variant? (e : Enumeration) (name : String) : Option String :=
  e.variants.find? fun variant => Text.sameName variant name

/-- Enumerations and entities that refer to each other by name. -/
structure Model where
  enumerations : List Enumeration
  entities : List Entity
  deriving Inhabited

namespace Model

/-- The entity of a name; a name without a declaration stands for an entity without
attributes. -/
def entity (m : Model) (name : String) : Entity :=
  (m.entities.find? fun e => e.name == name).getD ⟨name, "id", []⟩

/-- The enumeration of a name; a name without a declaration stands for one without
constants. -/
def enumeration (m : Model) (name : String) : Enumeration :=
  (m.enumerations.find? fun e => e.name == name).getD ⟨name, []⟩

/-- **The entity looked up under a name has that name.** -/
@[simp] theorem entity_name (m : Model) (name : String) : (m.entity name).name = name := by
  unfold entity
  cases h : m.entities.find? fun e => e.name == name with
  | none => rfl
  | some e => simpa using List.find?_some h

end Model

end EntityFilter
