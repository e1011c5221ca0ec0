import EntityFilter.Schema

/-!
# Registration of fields

Fields are checked one after the other against the entity model, and the first declaration
that the store cannot serve is reported.

* `Model.follow`: the end of a store path, or the entity where it breaks.
* `Schema.register`: the schema of a list of fields.
-/

namespace EntityFilter

/-- Why a field declaration is refused. -/
inductive DeclarationError
  | duplicateField (field : String)
  | mapWithSubAttributes (field : String)
  | unknownStorePath (field path entity : String)
  | unknownSubAttribute (field name entity : String)
  | mapWithoutEntries (field : String)
  | unknownEntryAttribute (field name entity : String)
  | unknownIdentifier (field identifier entity : String)
  deriving DecidableEq

/-- The wording of a refusal. -/
def DeclarationError.message : DeclarationError → String
  | duplicateField f => s!"field '{f}' is declared twice"
  | mapWithSubAttributes f =>
    s!"field '{f}' is a map with sub-entity attributes; use a key/value tuple entity instead"
  | unknownStorePath f p e => s!"field '{f}' maps to unknown store path '{p}' on entity '{e}'"
  | unknownSubAttribute f a e =>
    s!"field '{f}' declares sub attribute '{a}' unknown to entity '{e}'"
  | mapWithoutEntries f =>
    s!"map field '{f}' is neither a native map attribute nor a declared key/value tuple"
  | unknownEntryAttribute f a e =>
    s!"map field '{f}' declares tuple attribute '{a}' unknown to entity '{e}'"
  | unknownIdentifier f i e =>
    s!"field '{f}' correlates on identifier '{i}' unknown to entity '{e}'"

/-- **The end of a store path**: the last entity on it and the attribute there. A path that
breaks gives the entity where it does. -/
def Model.follow (m : Model) (e : Entity) : List String → Except Entity (Entity × Attribute)
  | [] => .error e
  | [segment] =>
    match e.attribute? segment with
    | some a => .ok (e, a)
    | none => .error e
  | segment :: rest =>
    match (e.attribute? segment).bind fun a => a.kind.target? with
    | some target => m.follow (m.entity target) rest
    | none => .error e

namespace Field

variable (m : Model) (f : Field)

/-- Checks the attributes named below a path that ends at an attribute of an entity. -/
def checkSubs (owner : Entity) (terminal : Attribute) : Except DeclarationError Unit :=
  let missing :=
    match terminal.kind.target? with
    | some target => (f.subs.find? fun sub => !(m.entity target).declares sub).map (·, target)
    | none => f.subs.head?.map (·, owner.name)
  match missing with
  | some (sub, entity) => .error (.unknownSubAttribute f.name sub entity)
  | none => .ok ()

/-- How a map that ends at an attribute is kept. -/
def checkMap (terminal : Attribute) : Except DeclarationError MapShape :=
  match terminal.kind, f.entryAttributes, terminal.kind.target? with
  | .map _, _, _ => .ok .native
  | _, some attributes, some target =>
    match [attributes.key, attributes.value].find? fun a => !(m.entity target).declares a with
    | some a => .error (.unknownEntryAttribute f.name a target)
    | none => .ok (.entries attributes)
  | _, _, _ => .error (.mapWithoutEntries f.name)

/-- Checks one declaration against the root entity. -/
def check (root : Entity) : Except DeclarationError SchemaEntry := do
  if f.isMap && !f.subs.isEmpty then
    throw (.mapWithSubAttributes f.name)
  if !root.declares f.identifier then
    throw (.unknownIdentifier f.name f.identifier root.name)
  let segments := Text.segments f.path
  match m.follow root segments with
  | .error e => throw (.unknownStorePath f.name f.path e.name)
  | .ok (owner, terminal) =>
    f.checkSubs m owner terminal
    let shape ← if f.isMap then some <$> f.checkMap m terminal else pure none
    return ⟨f, segments, shape⟩

end Field

namespace Schema

variable (m : Model)

/-- Checks further fields after those of a schema. -/
def extend (s : Schema) : List Field → Except DeclarationError Schema
  | [] => .ok s
  | f :: rest => do
    if (s.entry? f.name).isSome then
      throw (.duplicateField f.name)
    let entry ← f.check m (m.entity s.entity)
    extend ⟨s.entity, s.entries ++ [entry]⟩ rest

/-- **The schema of a root entity with the given fields.** -/
def register (entity : String) (fields : List Field) : Except DeclarationError Schema :=
  extend m ⟨entity, []⟩ fields

end Schema

end EntityFilter
