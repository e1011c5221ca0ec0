import EntityFilter.Text.Quoted

/-!
# Values

The values that attributes hold and that predicates compare with.

* `Value.compare`: the order of values, by kind first.
* `Value.literal`: how a value is written in a query.
-/

namespace EntityFilter

/-- A value: NULL, a scalar, or a constant of an enumeration. -/
inductive Value
  | null
  | bool (b : Bool)
  | int (n : Int)
  | text (s : String)
  | constant (variant enumeration : String)
  deriving DecidableEq, Inhabited

namespace Value

/-- The text of a text value. -/
def text? : Value → Option String
  | text s => some s
  | _ => none

/-- Whether a value is NULL. -/
def isNull : Value → Bool
  | null => true
  | _ => false

/-- The place of a value's kind in the order of values. -/
def rank : Value → Nat
  | null => 0
  | bool _ => 1
  | int _ => 2
  | text _ => 3
  | constant _ _ => 4

/-- **The order of values**: by kind, then by content; constants by variant, then by
enumeration. -/
def compare : Value → Value → Ordering
  | bool a, bool b => Ord.compare a b
  | int a, int b => Ord.compare a b
  | text a, text b => Ord.compare a b
  | constant a e, constant b f => (Ord.compare a b).then (Ord.compare e f)
  | a, b => Ord.compare a.rank b.rank

/-- Values in ascending order. -/
def sort (vs : List Value) : List Value :=
  vs.mergeSort fun a b => (compare a b).isLE

/-- A value as a literal of the query language. -/
def literal : Value → String
  | null => "NULL"
  | bool b => if b then "true" else "false"
  | int n => toString n
  | text s => Text.quoted s
  | constant variant enumeration => enumeration ++ "." ++ variant

end Value

end EntityFilter
