import EntityFilter.Field
import EntityFilter.Filter.Error
import EntityFilter.Predicate

/-!
# Routes through the entity model

The path of a comparison is walked from an entity. Every attribute on it that is not basic is
joined, and the comparison reads the last source.

* `Model.route`: the joins of a path, and the attribute at its end. A path that breaks has
  the joins up to where it does.
* `Reading.ofSource`: the expressions that a comparison reads.
-/

namespace EntityFilter

/-- The joins that a path needs and the attribute where it ends. -/
structure Route where
  joins : List Attribute
  ending : Except FilterError Attribute

namespace Route

/-- A path that ends without further joins. -/
def stop (ending : Except FilterError Attribute) : Route :=
  ⟨[], ending⟩

/-- A path that goes on after a join. -/
def after (relation : Attribute) (r : Route) : Route :=
  ⟨relation :: r.joins, r.ending⟩

end Route

namespace Model

variable (m : Model)

/-- **Walks a path** from an entity, or from something that is no entity. -/
def route : Option String → List String → Route
  | _, [] => .stop (.error .emptyPath)
  | none, segment :: _ => .stop (.error (.notNavigable segment))
  | some e, segment :: rest =>
    match (m.entity e).attribute? segment, rest with
    | none, _ => .stop (.error (.unknownSegment segment e))
    | some a, [] => if a.kind.isBasic then .stop (.ok a) else .after a (.stop (.ok a))
    | some a, _ :: _ =>
      if a.kind.isBasic then .stop (.error (.notRelation segment))
      else .after a (route a.kind.target? rest)

/-- The type of the scalars that a comparison reads at the end of a path. -/
def comparedType? (shape : Option MapShape) (terminal : Attribute) : Option ScalarType :=
  match shape with
  | some (.entries attributes) => do
    let target ← terminal.kind.target?
    let value ← (m.entity target).attribute? attributes.value
    value.kind.scalarType?
  | _ => terminal.kind.scalarType?

end Model

/-- The expressions that a comparison reads: the value and, in a map, the key. -/
structure Reading where
  value : Expr
  key : Option Expr
  deriving DecidableEq

/-- **The expressions read at the end of a path**, from its last source. -/
def Reading.ofSource (shape : Option MapShape) (terminal : Attribute) (s : SourceId) : Reading :=
  match shape, terminal.kind with
  | some (.entries attributes), _ =>
    ⟨.column s attributes.value, some (.column s attributes.key)⟩
  | _, .map _ => ⟨.mapValue s, some (.mapKey s)⟩
  | _, .basic _ => ⟨.column s terminal.name, none⟩
  | _, _ => ⟨.element s, none⟩

end EntityFilter
