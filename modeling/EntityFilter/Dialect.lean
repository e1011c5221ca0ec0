/-!
# Dialects

The two dialects differ in how a LIKE pattern writes a literal wildcard: with the escape
character, or as a character class in brackets.
-/

namespace EntityFilter

/-- A dialect of LIKE patterns. -/
inductive Dialect
  | standard
  | sqlServer
  deriving DecidableEq, Inhabited

/-- The character before a literal asterisk in arguments and before a literal wildcard in
LIKE patterns. -/
def escapeMark : Char := '\\'

/-- The character that stands for any run of characters in arguments. -/
def wildcardMark : Char := '*'

end EntityFilter
