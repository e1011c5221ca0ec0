import EntityFilter.Dialect

/-!
# Wildcards in arguments

An asterisk in an argument stands for any run of characters, unless a backslash stands right
before it. All other characters stand for themselves, lone backslashes included.

* `isPattern`: whether an asterisk is left that is no literal.
* `toLike`: the LIKE pattern with the same meaning.
* `literal`: the text that an argument without wildcards stands for.
-/

namespace EntityFilter.Wildcard

/-- Whether an argument has an asterisk without a backslash before it. -/
def hasWildcard : List Char → Bool
  | [] => false
  | '\\' :: '*' :: rest => hasWildcard rest
  | c :: rest => c == wildcardMark || hasWildcard rest

/-- A percent sign or an underscore as a literal of a LIKE pattern. -/
def escaped (d : Dialect) (c : Char) : List Char :=
  match d with
  | .standard => [escapeMark, c]
  | .sqlServer => ['[', c, ']']

/-- The LIKE pattern of an argument. -/
def toLikeChars (d : Dialect) : List Char → List Char
  | [] => []
  | '\\' :: '*' :: rest => escapeMark :: wildcardMark :: toLikeChars d rest
  | c :: rest =>
    let piece :=
      if c == escapeMark then [escapeMark, escapeMark]
      else if c == wildcardMark then ['%']
      else if c == '%' || c == '_' then escaped d c
      else [c]
    piece ++ toLikeChars d rest

/-- An argument without the backslashes before asterisks. -/
def literalChars : List Char → List Char
  | [] => []
  | '\\' :: '*' :: rest => wildcardMark :: literalChars rest
  | c :: rest => c :: literalChars rest

/-- Whether an argument has a wildcard. -/
def isPattern (s : String) : Bool :=
  hasWildcard s.toList

/-- **The LIKE pattern of an argument.** -/
def toLike (d : Dialect) (s : String) : String :=
  String.ofList (toLikeChars d s.toList)

/-- The text that an argument without wildcards stands for. -/
def literal (s : String) : String :=
  String.ofList (literalChars s.toList)

end EntityFilter.Wildcard
