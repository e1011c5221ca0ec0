import EntityFilter.Filter.Error
import EntityFilter.Schema

/-!
# Selectors

A selector is a field name followed by the attribute below the field, or by the key of a
map.

* `Schema.resolve`: what a selector stands for.
* `ResolvedSelector.navigation`: the path to walk, store path first.
-/

namespace EntityFilter

/-- What a selector stands for. -/
structure ResolvedSelector where
  entry : SchemaEntry
  /-- The attributes named below the field, in their declared spelling. -/
  subs : List String
  mapKey : Option String

namespace ResolvedSelector

variable (r : ResolvedSelector)

/-- The field of the selector. -/
def field : Field := r.entry.field

/-- How the entries of a map are kept; nothing for other fields. -/
def shape : Option MapShape := r.entry.shape

/-- **The path to walk** from the root entity. -/
def navigation : List String := r.entry.segments ++ r.subs

/-- Whether the path is a single attribute of the root. -/
def isSimple : Bool := r.navigation.length == 1

/-- The path with the key of a map at its end. -/
def property : String := Text.joinDots (r.navigation ++ r.mapKey.toList)

end ResolvedSelector

namespace Field

/-- The declared spelling of an attribute below a field, ASCII letters being alike. -/
def sub? (f : Field) (name : String) : Option String :=
  f.subs.find? fun sub => Text.sameName sub name

end Field

namespace Schema

variable (s : Schema)

/-- Resolves the segments of a selector, field name first. -/
def resolveSegments (selector : String) : List String → Except FilterError ResolvedSelector
  | [] => .error (.unknownField selector s.expectedFields)
  | name :: rest =>
    match s.entry? name with
    | none => .error (.unknownField selector s.expectedFields)
    | some entry =>
      if entry.field.isMap then
        match rest with
        | [key] =>
          if key = "" then .error (.malformedMapSelector selector)
          else .ok ⟨entry, [], some key⟩
        | _ => .error (.malformedMapSelector selector)
      else if !entry.field.subs.isEmpty && rest.isEmpty then
        .error (.unknownField selector s.expectedFields)
      else
        match rest.mapM entry.field.sub? with
        | some subs => .ok ⟨entry, subs, none⟩
        | none => .error (.unknownField selector s.expectedFields)

/-- **What a selector stands for**; the listing of all selectors if it stands for nothing. -/
def resolve (selector : String) : Except FilterError ResolvedSelector :=
  s.resolveSegments selector (Text.segments selector)

end Schema

end EntityFilter
