import EntityFilter.Compile.Lowering
import EntityFilter.Query

/-!
# Compiling filters

A filter becomes one predicate on a query, and the query gets the joins and sub-queries that
the predicate needs.

* Comparisons that stand directly under one disjunction share the joins of the root; the
  parts of a conjunction never share a join (`Progress.reuse`).
* `Progress.excludeRelated`: a negation through a relation becomes a sub-query that must
  have no row, so one matching related row excludes the outer row.
* `Query.compile`: the predicate of a filter, and the query with what was added to it.
-/

namespace EntityFilter

/-- What a compilation goes by. -/
structure Context where
  model : Model
  schema : Schema
  settings : Settings
  /-- The replacement of placeholders in arguments of order relations. -/
  replace : String → String

/-- How far a compilation has come. -/
structure Progress where
  query : Query
  /-- Within a disjunction, the joins of the root that its comparisons share, by attribute
  name. -/
  reuse : Option (List (String × SourceId))
  /-- Whether a comparison that is no negation has been met. -/
  joinsNeeded : Bool

namespace Progress

variable (p : Progress)

/-- Joins an attribute of a source, or takes the join that is shared. -/
def join (parent : SourceId) (relation : Attribute) : SourceId × Progress :=
  let made := p.query.nextSource
  let query := p.query.join parent relation .left
  match if parent == Query.root then p.reuse else none with
  | none => (made, { p with query := query })
  | some shared =>
    match shared.lookup relation.name with
    | some s => (s, p)
    | none => (made, { p with query := query, reuse := some ((relation.name, made) :: shared) })

/-- Joins attributes one below the other, and gives the last source. -/
def joinAll (start : SourceId) : List Attribute → Progress → SourceId × Progress
  | [], p => (start, p)
  | relation :: rest, p =>
    let (s, p) := p.join start relation
    joinAll s rest p

/-- Drops the outer joins that no predicate reads, and shares them no longer. -/
def discardUnused : Progress :=
  let unused := p.query.unusedJoins
  { p with
    query := p.query.discardUnused
    reuse := p.reuse.map fun shared => shared.filter fun entry => !unused.contains entry.2 }

/-- **Asks that no related row satisfy a demand**: a sub-query over the same entity, tied to
the outer row by the identifier of the field, walks the path again. -/
def excludeRelated (s : Settings) (c : Clause) (joins : List Attribute) (d : Demand) :
    Predicate × Progress :=
  let p := if p.joinsNeeded then p else p.discardUnused
  let sub := p.query.nextSubquery
  let subRoot := p.query.nextSource
  let (last, p) :=
    joinAll subRoot joins { p with query := p.query.openSubquery p.query.entity }
  let r := Reading.ofSource c.selector.shape c.terminal last
  let identifier := c.selector.field.identifier
  let tied := Predicate.equalExpr (.column Query.root identifier) (.column subRoot identifier)
  let tests := tied :: (s.keyTest r c.selector.mapKey ++ [s.demandTest r.value d])
  (.not (.hasRow sub), { p with query := p.query.restrict sub (.and tests) })

end Progress

/-- A step of a compilation. It may fail, and what was added to the query before stays. -/
abbrev Compiling := EStateM FilterError Progress

namespace Context

variable (ctx : Context)

/-- Compiles a comparison. -/
def compileComparison (c : Comparison) : Compiling Predicate := do
  let (joins, outcome) := ctx.schema.plan ctx.model c
  let (last, p) := (← get).joinAll Query.root joins
  set p
  match outcome with
  | .error e => throw e
  | .ok clause =>
    modify fun p => { p with joinsNeeded := p.joinsNeeded || !clause.operator.isNegation }
    let r := Reading.ofSource clause.selector.shape clause.terminal last
    let predicate ←
      match clause.lower ctx.settings ctx.replace r with
      | .inPlace predicate => pure predicate
      | .noneRelated d =>
        modifyGet fun p => p.excludeRelated ctx.settings clause joins d
    modify fun p => { p with query := p.query.markAll predicate.sources }
    return predicate

/-- Runs a step with other joins to share, and goes back to those of before. -/
def sharing {α : Type} (shared : Option (List (String × SourceId))) (step : Compiling α) :
    Compiling α := do
  let before := (← get).reuse
  modify fun p => { p with reuse := shared }
  let a ← step
  modify fun p => { p with reuse := before }
  return a

mutual

/-- **Compiles a filter**; text that is no expression has no predicate. -/
def compileFilter : Filter → Compiling (Option Predicate)
  | .and children => do return some (.all (← sharing none (compileChildren children)))
  | .or children => do return some (.any (← sharing (some []) (compileChildren children)))
  | .comparison c => do return some (← ctx.compileComparison c)
  | .unrecognized _ => return none

/-- Compiles the parts of a connective that have predicates. -/
def compileChildren : List Filter → Compiling (List Predicate)
  | [] => return []
  | f :: rest => do
    let p ← compileFilter f
    return p.toList ++ (← compileChildren rest)

end

end Context

namespace Query

variable (q : Query) (ctx : Context)

/-- **Compiles a filter onto a query.** What a failed compilation added to the query stays
there. -/
def compile (f : Filter) : Except FilterError Predicate × Query :=
  if q.entity ≠ ctx.schema.entity then (.error (.otherRoot q.entity ctx.schema.entity), q)
  else
    match (ctx.compileFilter f).run ⟨q, none, false⟩ with
    | .ok p progress => (.ok (p.getD .always), progress.discardUnused.query)
    | .error e progress => (.error e, progress.query)

/-- Compiles a filter to a list of predicates that must all hold. -/
def compileAll (f : Filter) : Except FilterError (List Predicate) × Query :=
  let (outcome, q) := q.compile ctx f
  (outcome.map fun p => [p], q)

end Query

end EntityFilter
