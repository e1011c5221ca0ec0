import EntityFilter.Query
import EntityFilter.Store.Binding

/-!
# Selections

A selection binds the sources of a query one after the other, in every possible way, and
keeps the combinations for which the predicate is true.

* `Predicate.truth`: the truth of a predicate under bindings.
* `Query.hasRow`: whether a sub-query has a row.
* `Store.select`: the identifiers of the selected records, one for every combination.
* `Store.selectDistinct`: the same without repetition.
-/

namespace EntityFilter

namespace Value

/-- Whether two values are equal, unknown where they have no order. -/
def equals (a b : Value) : Truth :=
  .ofOption ((a.order? b).map (· == .eq))

/-- Whether a value is one of a list. -/
def isOneOf (a : Value) (vs : List Value) : Truth :=
  if a.isNull then .unknown else vs.foldr (fun v t => (a.equals v).disj t) .no

/-- Whether an order relation holds between two values. -/
def inOrder (a : Value) (test : OrderTest) (b : Value) : Truth :=
  .ofOption ((a.order? b).map test.accepts)

/-- Whether the text of a value matches a pattern. -/
def isLike (a : Value) (pattern : String) (escape : Char) (d : Dialect) : Truth :=
  if a.isNull then .unknown else .ofBool (Like.matchesText a.asText pattern escape d)

end Value

variable (m : Model) (st : Store) (q : Query)

namespace Predicate

variable (hasRow : SubqueryId → Env → Except StoreError Bool) (env : Env)

mutual

/-- **The truth of a predicate under bindings**, given whether sub-queries have rows. A
conjunction is not read on after a part that is false, a disjunction not after one that is
true. -/
def truth : Predicate → Except StoreError Truth
  | .always => return .yes
  | .and ps => truthOfAll ps
  | .or ps => truthOfAny ps
  | .not p => return (← truth p).not
  | .isNull e => return .ofBool (← e.read m env).isNull
  | .isNotNull e => return .ofBool !(← e.read m env).isNull
  | .equal e v => return (← e.read m env).equals v
  | .notEqual e v => return ((← e.read m env).equals v).not
  | .equalExpr l r => do
    let a ← l.read m env
    let b ← r.read m env
    return a.equals b
  | .like e pattern escape => return (← e.read m env).isLike pattern escape st.dialect
  | .notLike e pattern escape => return ((← e.read m env).isLike pattern escape st.dialect).not
  | .isIn e vs => return (← e.read m env).isOneOf vs
  | .order e test v => return (← e.read m env).inOrder test v
  | .hasRow s => return .ofBool (← hasRow s env)

/-- The truth of a conjunction. -/
def truthOfAll : List Predicate → Except StoreError Truth
  | [] => return .yes
  | p :: ps => do
    let t ← truth p
    if t = .no then return .no else return t.conj (← truthOfAll ps)

/-- The truth of a disjunction. -/
def truthOfAny : List Predicate → Except StoreError Truth
  | [] => return .no
  | p :: ps => do
    let t ← truth p
    if t = .yes then return .yes else return t.disj (← truthOfAny ps)

end

end Predicate

namespace Query

/-- Whether some way to bind the sources passes a test; further ways are not tried. -/
def someBinding (test : Env → Except StoreError Bool) :
    List SourceId → Env → Except StoreError Bool
  | [], env => test env
  | s :: rest, env => do
    let bs ← q.candidates st env s
    bs.anyM fun b => someBinding test rest (env.set s b)

/-- All that the ways to bind the sources give, one after the other. -/
def allBindings {α : Type} (visit : Env → Except StoreError (List α)) :
    List SourceId → Env → Except StoreError (List α)
  | [], env => visit env
  | s :: rest, env => do
    let bs ← q.candidates st env s
    return (← bs.mapM fun b => allBindings visit rest (env.set s b)).flatten

/-- **Whether a sub-query has a row**, with sub-queries inside it down to a depth. -/
def hasRow : Nat → SubqueryId → Env → Except StoreError Bool
  | 0, s, _ => .error (.circularSubquery s)
  | depth + 1, s, env =>
    q.someBinding st
      (fun env => do return (← (q.restriction s).truth m st (hasRow depth) env) == .yes)
      (q.activeIn (.subquery s)) env

/-- The truth of a predicate on a query. Sub-queries that do not contain themselves nest no
deeper than there are sub-queries. -/
def truth (p : Predicate) (env : Env) : Except StoreError Truth :=
  p.truth m st (q.hasRow m st q.subqueries.length) env

/-- The identifier of the record that the root is bound to, if the predicate is true. -/
def selected (p : Predicate) (env : Env) : Except StoreError (List Int) := do
  match ← q.truth m st p env, env root with
  | .yes, some (.row _ id _) => return [id]
  | _, _ => return []

end Query

namespace Store

/-- **The identifiers of the selected records**, one for every combination of bindings for
which the predicate is true. -/
def select (p : Predicate) : Except StoreError (List Int) :=
  q.allBindings st (q.selected m st p) (q.activeIn .outer) Env.empty

/-- The identifiers of the selected records, in ascending order, each once. -/
def selectDistinct (p : Predicate) : Except StoreError (List Int) :=
  (select m st q p).map distinct

end Store

end EntityFilter
