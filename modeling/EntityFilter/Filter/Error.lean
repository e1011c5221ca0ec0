/-!
# Why a filter is refused

* `FilterError.kind`: whether the field, the operator or the form of a comparison is at
  fault.
* `FilterError.message`: the wording.
-/

namespace EntityFilter

/-- Why a filter is refused. -/
inductive FilterError
  /-- The selector names no field; the known selectors are listed. -/
  | unknownField (selector : String) (expected : List String)
  /-- An argument is not among the values of the field. -/
  | unexpectedValue (selector : String) (allowed : List String)
  /-- The query selects from another entity than the one the fields belong to. -/
  | otherRoot (queryRoot schemaRoot : String)
  /-- A path goes on below something that is no entity. -/
  | notNavigable (segment : String)
  /-- A path names an attribute that the entity does not have. -/
  | unknownSegment (segment entity : String)
  /-- A path goes on below a scalar. -/
  | notRelation (segment : String)
  | emptyPath
  | unknownOperator (symbol : String)
  /-- A map field is not followed by one key. -/
  | malformedMapSelector (selector : String)
  /-- A boolean field is compared with something else. -/
  | notBoolean (selector : String)
  | noArgument (selector : String)
  deriving DecidableEq

/-- What part of a comparison is at fault. -/
inductive FilterError.Kind
  | unsupportedField
  | unsupportedOperator
  | malformed
  deriving DecidableEq

namespace FilterError

/-- The part of a comparison that an error is about. -/
def kind : FilterError → Kind
  | unknownOperator _ => .unsupportedOperator
  | malformedMapSelector _ => .malformed
  | notBoolean _ => .malformed
  | noArgument _ => .malformed
  | _ => .unsupportedField

/-- A text in curly braces. -/
def braced (s : String) : String :=
  "\x7b" ++ s ++ "\x7d"

/-- A list of texts in square brackets. -/
def listed (l : List String) : String :=
  "[" ++ ", ".intercalate l ++ "]"

/-- The beginning of the messages about a selector. -/
def aboutField (selector : String) : String :=
  "The given search parameter field " ++ braced selector

/-- The beginning of the messages about a segment of a path. -/
def aboutSegment (segment : String) : String :=
  "RSQL field path segment " ++ braced segment

/-- **The wording of an error.** -/
def message : FilterError → String
  | unknownField selector expected =>
    aboutField selector ++ " does not exist, must be one of the following fields " ++
      listed expected
  | unexpectedValue selector allowed =>
    "field " ++ braced selector ++ " must be one of the following values " ++
      braced (listed allowed)
  | otherRoot queryRoot schemaRoot =>
    "query root " ++ queryRoot ++ " does not match the filter schema of " ++ schemaRoot
  | notNavigable segment => aboutSegment segment ++ " cannot be navigated"
  | unknownSegment segment entity => aboutSegment segment ++ " does not exist on " ++ entity
  | notRelation segment => aboutSegment segment ++ " is not a relation"
  | emptyPath => "RSQL field path cannot be empty"
  | unknownOperator symbol =>
    "Operator symbol " ++ braced symbol ++ " is either not supported or not implemented"
  | malformedMapSelector selector =>
    "The syntax of the given map search parameter field " ++ braced selector ++
      " is wrong. Syntax is: <enum name>.<key name>"
  | notBoolean selector =>
    "The value of the given search parameter field " ++ braced selector ++
      " is not well formed. Only a boolean (true or false) value will be expected"
  | noArgument selector => aboutField selector ++ " has no argument"

end FilterError

end EntityFilter
