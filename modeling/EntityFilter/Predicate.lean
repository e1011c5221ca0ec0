import EntityFilter.Ascending
import EntityFilter.Dialect
import EntityFilter.Value

/-!
# Predicates

Tests on the rows of a query. A predicate refers to the sources of its query and to the
query's sub-queries by number, so it has a meaning only together with the query.

* `Predicate.all`, `Predicate.any`: connectives that are true when there is nothing to
  connect.
* `Predicate.sources`: the sources that a predicate reads itself; what its sub-queries read
  is not among them.
-/

namespace EntityFilter

/-- The number of a source in its query. -/
abbrev SourceId := Nat

/-- The number of a sub-query in its query. -/
abbrev SubqueryId := Nat

/-- A scalar read from a source. -/
inductive Expr
  /-- An attribute of a record. -/
  | column (source : SourceId) (name : String)
  /-- The element itself, or the identifier of a record. -/
  | element (source : SourceId)
  | mapKey (source : SourceId)
  | mapValue (source : SourceId)
  | upper (e : Expr)
  deriving DecidableEq, Inhabited

/-- The source that an expression reads. -/
def Expr.source : Expr → SourceId
  | column s _ => s
  | element s => s
  | mapKey s => s
  | mapValue s => s
  | upper e => e.source

/-- An order relation between a column and a value. -/
inductive OrderTest
  | greater
  | greaterOrEqual
  | less
  | lessOrEqual
  deriving DecidableEq, Inhabited

namespace OrderTest

/-- The symbol of an order relation. -/
def symbol : OrderTest → String
  | greater => ">"
  | greaterOrEqual => ">="
  | less => "<"
  | lessOrEqual => "<="

/-- Whether an order satisfies the relation. -/
def accepts : OrderTest → Ordering → Bool
  | greater, o => o == .gt
  | greaterOrEqual, o => o != .lt
  | less, o => o == .lt
  | lessOrEqual, o => o != .gt

end OrderTest

/-- A test on the rows of a query. -/
inductive Predicate
  | always
  | and (children : List Predicate)
  | or (children : List Predicate)
  | not (p : Predicate)
  | isNull (e : Expr)
  | isNotNull (e : Expr)
  | equal (e : Expr) (v : Value)
  | notEqual (e : Expr) (v : Value)
  | equalExpr (l r : Expr)
  | like (e : Expr) (pattern : String) (escape : Char)
  | notLike (e : Expr) (pattern : String) (escape : Char)
  | isIn (e : Expr) (vs : List Value)
  | order (e : Expr) (test : OrderTest) (v : Value)
  /-- Whether the sub-query has a row. -/
  | hasRow (s : SubqueryId)
  deriving Inhabited

namespace Predicate

/-- The conjunction of predicates. -/
def all (ps : List Predicate) : Predicate :=
  if ps.isEmpty then always else and ps

/-- The disjunction of predicates. -/
def any (ps : List Predicate) : Predicate :=
  if ps.isEmpty then always else or ps

/-- A LIKE test with the usual escape character. -/
def likePattern (e : Expr) (pattern : String) : Predicate :=
  like e pattern escapeMark

/-- A negated LIKE test with the usual escape character. -/
def notLikePattern (e : Expr) (pattern : String) : Predicate :=
  notLike e pattern escapeMark

mutual

/-- The sources that a predicate reads, in the order of reading. -/
def reads : Predicate → List SourceId
  | always => []
  | and ps => readsAll ps
  | or ps => readsAll ps
  | not p => p.reads
  | isNull e => [e.source]
  | isNotNull e => [e.source]
  | equal e _ => [e.source]
  | notEqual e _ => [e.source]
  | equalExpr l r => [l.source, r.source]
  | like e _ _ => [e.source]
  | notLike e _ _ => [e.source]
  | isIn e _ => [e.source]
  | order e _ _ => [e.source]
  | hasRow _ => []

/-- The sources that the predicates of a list read. -/
def readsAll : List Predicate → List SourceId
  | [] => []
  | p :: ps => p.reads ++ readsAll ps

end

/-- **The sources that a predicate reads itself**, in ascending order. -/
def sources (p : Predicate) : List SourceId :=
  distinct p.reads

theorem mem_sources {p : Predicate} {s : SourceId} : s ∈ p.sources ↔ s ∈ p.reads :=
  mem_distinct

mutual

/-- Whether two predicates are the same. -/
def same : Predicate → Predicate → Bool
  | always, always => true
  | and ps, and qs => sameAll ps qs
  | or ps, or qs => sameAll ps qs
  | not p, not q => same p q
  | isNull e, isNull f => e == f
  | isNotNull e, isNotNull f => e == f
  | equal e v, equal f w => e == f && v == w
  | notEqual e v, notEqual f w => e == f && v == w
  | equalExpr l r, equalExpr l' r' => l == l' && r == r'
  | like e p c, like f q d => e == f && p == q && c == d
  | notLike e p c, notLike f q d => e == f && p == q && c == d
  | isIn e vs, isIn f ws => e == f && vs == ws
  | order e t v, order f u w => e == f && t == u && v == w
  | hasRow s, hasRow t => s == t
  | _, _ => false

/-- Whether two lists of predicates are the same. -/
def sameAll : List Predicate → List Predicate → Bool
  | [], [] => true
  | p :: ps, q :: qs => same p q && sameAll ps qs
  | _, _ => false

end

mutual

theorem same_iff (p q : Predicate) : same p q = true ↔ p = q := by
  cases p <;> cases q <;>
    simp [same, same_iff, sameAll_iff, and_assoc]

theorem sameAll_iff (ps qs : List Predicate) : sameAll ps qs = true ↔ ps = qs := by
  cases ps <;> cases qs <;> simp [sameAll, same_iff, sameAll_iff]

end

instance : DecidableEq Predicate := fun p q => decidable_of_iff _ (same_iff p q)

end Predicate

end EntityFilter
