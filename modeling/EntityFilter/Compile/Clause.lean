import EntityFilter.Compile.Route
import EntityFilter.Filter
import EntityFilter.Schema.Selector

/-!
# Checked comparisons

A comparison is checked against the schema on its own, whatever stands around it in the
filter.

* `Field.readArgument`: the value of an argument.
* `Schema.plan`: the joins that a comparison makes, and the clause or the error that the
  check comes to.
-/

namespace EntityFilter

/-- A comparison that has passed all checks. -/
structure Clause where
  selector : ResolvedSelector
  /-- The attribute at the end of the path. -/
  terminal : Attribute
  operator : Operator
  /-- The first argument as written. -/
  raw : String
  /-- The value of the first argument. -/
  value : Value
  /-- The values of all arguments. -/
  values : List Value

/-- The truth value that an argument writes, in letters of either case. -/
def readBool? (raw : String) : Option Bool :=
  if Text.sameName raw "true" then some true
  else if Text.sameName raw "false" then some false
  else none

/-- **The value of an argument.** A constant of an enumeration comes before a conversion of
the field, and a conversion before the other types. -/
def Field.readArgument (m : Model) (f : Field) (selector : String) (type : Option ScalarType)
    (raw : String) : Except FilterError Value :=
  match type, f.converter with
  | some (.enumeration name), _ =>
    match (m.enumeration name).variant? raw with
    | some variant => .ok (.constant variant name)
    | none =>
      .error (.unexpectedValue selector ((m.enumeration name).variants.map Text.lower))
  | _, some converter =>
    match converter.convert raw with
    | some v => .ok v
    | none => .error (.unexpectedValue selector converter.possible)
  | some .bool, none =>
    match readBool? raw with
    | some b => .ok (.bool b)
    | none => .error (.notBoolean selector)
  | _, none => .ok (.text raw)

namespace Schema

variable (m : Model) (s : Schema)

/-- The clause of a comparison whose selector is resolved and whose path is walked. -/
def clause (c : Comparison) (r : ResolvedSelector) (route : Route) :
    Except FilterError Clause := do
  let terminal ← route.ending
  let type := m.comparedType? r.shape terminal
  let values ← c.arguments.mapM (r.field.readArgument m c.selector type)
  match Operator.ofSymbol? c.operator, c.arguments, values with
  | none, _, _ => throw (.unknownOperator c.operator)
  | some op, raw :: _, value :: _ => return ⟨r, terminal, op, raw, value, values⟩
  | _, _, _ => throw (.noArgument c.selector)

/-- **What a comparison comes to**: the joins that it makes before anything else is checked,
and the clause or the first error. -/
def plan (c : Comparison) : List Attribute × Except FilterError Clause :=
  match s.resolve c.selector with
  | .error e => ([], .error e)
  | .ok r =>
    let route := m.route (some s.entity) r.navigation
    (route.joins, clause m c r route)

end Schema

end EntityFilter
