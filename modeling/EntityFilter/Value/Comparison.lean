import EntityFilter.Text.Numeral
import EntityFilter.Value

/-!
# Comparing column values

A column value is compared with a value of its own kind; a text on one side is first read as
the kind of the other side. All other pairs, NULL in particular, have no order.

* `order?_swap`: swapping the two sides turns the order round.
-/

namespace EntityFilter.Value

/-- The truth value that a text writes. -/
def parseBool? (s : String) : Option Bool :=
  if s = "true" then some true
  else if s = "false" then some false
  else none

/-- The order of a column value and a text read as the kind of the column. -/
def orderWithText? : Value → String → Option Ordering
  | text a, s => some (Ord.compare a s)
  | int n, s => (Text.parseInt64? s).map (Ord.compare n)
  | bool b, s => (parseBool? s).map (Ord.compare b)
  | constant variant _, s => some (Ord.compare variant s)
  | null, _ => none

/-- **The order of two column values**, where they have one. -/
def order? : Value → Value → Option Ordering
  | a, text s => a.orderWithText? s
  | text s, b => (b.orderWithText? s).map Ordering.swap
  | int m, int n => some (Ord.compare m n)
  | bool a, bool b => some (Ord.compare a b)
  | constant a e, constant b f => if e = f then some (Ord.compare a b) else none
  | _, _ => none

theorem order?_swap (a b : Value) : b.order? a = (a.order? b).map Ordering.swap := by
  have oriented : ∀ {κ : Type} [Ord κ] [Std.OrientedOrd κ] (x y : κ),
      Ord.compare y x = (Ord.compare x y).swap := fun x y => Std.OrientedCmp.eq_swap
  cases a <;> cases b <;> simp [order?, orderWithText?, Function.comp_def, ← oriented]
  · rename_i e _ f
    by_cases h : e = f
    · subst h; simp
    · simp [h, Ne.symm h]

/-- The characters of a value where a text is asked for. -/
def asText : Value → String
  | null => ""
  | bool b => if b then "true" else "false"
  | int n => toString n
  | text s => s
  | constant variant _ => variant

end EntityFilter.Value
