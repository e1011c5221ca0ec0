/-!
# Filter expressions

A filter is a tree of comparisons. Operators and arguments are still plain text here: what
they mean is decided against a schema.

* `Operator.ofSymbol?_symbol`: every operator is read back from its symbol.
-/

namespace EntityFilter

/-- A comparison operator. -/
inductive Operator
  | equal
  | notEqual
  | greaterThan
  | greaterThanOrEqual
  | lessThan
  | lessThanOrEqual
  | isIn
  | isNotIn
  deriving DecidableEq, Inhabited

namespace Operator

/-- All operators, in the order of their codes. -/
def all : List Operator :=
  [equal, notEqual, greaterThan, greaterThanOrEqual, lessThan, lessThanOrEqual, isIn, isNotIn]

/-- The symbol of an operator in a filter. -/
def symbol : Operator → String
  | equal => "=="
  | notEqual => "!="
  | greaterThan => "=gt="
  | greaterThanOrEqual => "=ge="
  | lessThan => "=lt="
  | lessThanOrEqual => "=le="
  | isIn => "=in="
  | isNotIn => "=out="

/-- The number of an operator. -/
def code : Operator → Nat
  | equal => 1
  | notEqual => 2
  | greaterThan => 3
  | greaterThanOrEqual => 4
  | lessThan => 5
  | lessThanOrEqual => 6
  | isIn => 7
  | isNotIn => 8

/-- Whether an operator asks that something be absent. -/
def isNegation : Operator → Bool
  | notEqual => true
  | isNotIn => true
  | _ => false

/-- The operator of a symbol. -/
def ofSymbol? (s : String) : Option Operator :=
  all.find? fun op => op.symbol == s

/-- **Every operator is read back from its symbol.** -/
theorem ofSymbol?_symbol (op : Operator) : ofSymbol? op.symbol = some op := by
  cases op <;> decide

end Operator

/-- A selector, an operator symbol and the arguments, as written. -/
structure Comparison where
  selector : String
  operator : String
  arguments : List String
  deriving DecidableEq, Inhabited

/-- A comparison as text; several arguments, or none, stand in parentheses. -/
def Comparison.text (c : Comparison) : String :=
  match c.arguments with
  | [single] => c.selector ++ c.operator ++ single
  | many => c.selector ++ c.operator ++ "(" ++ ",".intercalate many ++ ")"

/-- A filter expression. -/
inductive Filter
  | and (children : List Filter)
  | or (children : List Filter)
  | comparison (c : Comparison)
  /-- Text that is no expression; it restricts nothing. -/
  | unrecognized (text : String)
  deriving Inhabited

namespace Filter

/-- A comparison with one argument. -/
def compareOne (op : Operator) (selector argument : String) : Filter :=
  comparison ⟨selector, op.symbol, [argument]⟩

/-- A comparison with a list of arguments. -/
def compareMany (op : Operator) (selector : String) (arguments : List String) : Filter :=
  comparison ⟨selector, op.symbol, arguments⟩

end Filter

end EntityFilter
