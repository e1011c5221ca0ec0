import EntityFilter.Query

/-!
# Queries as text

A query and a predicate on it written in the manner of SQL, for people to read.

* `Query.explain`: the text of a query with a predicate.
-/

namespace EntityFilter

/-- A source is written as the letter s and its number. -/
def sourceName (s : SourceId) : String :=
  "s" ++ toString s

/-- An expression as text. -/
def Expr.text : Expr → String
  | column s name => sourceName s ++ "." ++ name
  | element s => sourceName s
  | mapKey s => "KEY(" ++ sourceName s ++ ")"
  | mapValue s => "VALUE(" ++ sourceName s ++ ")"
  | upper e => "UPPER(" ++ e.text ++ ")"

/-- A LIKE test as text, the pattern as it is. -/
def Expr.likeText (e : Expr) (word pattern : String) (escape : Char) : String :=
  e.text ++ word ++ Text.enclosed pattern ++ " ESCAPE " ++
    Text.enclosed (String.singleton escape)

/-- Texts in parentheses with a separator between them. -/
def grouped (separator : String) (texts : List String) : String :=
  "(" ++ separator.intercalate texts ++ ")"

namespace Predicate

mutual

/-- A predicate as text, given the texts of sub-queries. -/
def text (subquery : SubqueryId → String) : Predicate → String
  | always => "1 = 1"
  | and ps => grouped " AND " (texts subquery ps)
  | or ps => grouped " OR " (texts subquery ps)
  | not (hasRow s) => "NOT EXISTS " ++ subquery s
  | not p => "NOT (" ++ p.text subquery ++ ")"
  | isNull e => e.text ++ " IS NULL"
  | isNotNull e => e.text ++ " IS NOT NULL"
  | equal e v => e.text ++ " = " ++ v.literal
  | notEqual e v => e.text ++ " <> " ++ v.literal
  | equalExpr l r => l.text ++ " = " ++ r.text
  | like e pattern escape => e.likeText " LIKE " pattern escape
  | notLike e pattern escape => e.likeText " NOT LIKE " pattern escape
  | isIn e vs => e.text ++ " IN " ++ grouped ", " (vs.map Value.literal)
  | order e test v => e.text ++ " " ++ test.symbol ++ " " ++ v.literal
  | hasRow s => "EXISTS " ++ subquery s

/-- The texts of the predicates of a list. -/
def texts (subquery : SubqueryId → String) : List Predicate → List String
  | [] => []
  | p :: ps => p.text subquery :: texts subquery ps

end

end Predicate

/-- A source in the list of sources of a selection. -/
def Source.text (s : SourceId) (src : Source) : String :=
  match src.kind with
  | .root e => "SELECT " ++ sourceName s ++ " FROM " ++ e ++ " " ++ sourceName s
  | .join parent relation kind =>
    (match kind with
      | .inner => " JOIN "
      | .left => " LEFT JOIN ") ++
      sourceName parent ++ "." ++ relation.name ++ " " ++ sourceName s

namespace Query

variable (q : Query)

/-- The sources of a selection as text. -/
def selectText (scope : Scope) : String :=
  String.join ((q.activeIn scope).map fun s => (q.source? s).elim "" (Source.text s))

/-- A sub-query as text, with sub-queries inside it down to a depth. -/
def subqueryText : Nat → SubqueryId → String
  | 0, _ => "()"
  | depth + 1, s =>
    "(" ++ q.selectText (.subquery s) ++ " WHERE " ++
      (q.restriction s).text (subqueryText depth) ++ ")"

/-- **A query with a predicate as text.** Sub-queries that do not contain themselves nest no
deeper than there are sub-queries. -/
def explain (p : Predicate) : String :=
  q.selectText .outer ++ " WHERE " ++ p.text (q.subqueryText q.subqueries.length)

end Query

end EntityFilter
