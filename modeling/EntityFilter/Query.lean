import EntityFilter.Model
import EntityFilter.Predicate

/-!
# Queries

A query selects records of one entity. Its sources are numbered in the order in which they
were made: the root, joins below other sources, and the roots of sub-queries. A source keeps
its number when it is dropped.

* `Query.recordsOf`, `Query.join`, `Query.openSubquery`, `Query.restrict`: building a query.
* `Query.lineage`: a source with the sources that it hangs below.
* `Query.markReferenced`: notes that a predicate reads a source, and with it its lineage.
* `Query.discardUnused`: drops the outer joins that no predicate reads.

Every operation is told by what it does to the source of a number: `Query.source?_join`,
`Query.source?_openSubquery`, `Query.source?_restrict`, `Query.source?_markReferenced`,
`Query.source?_discardUnused`.
-/

namespace EntityFilter

/-- Whether a join keeps rows that reach nothing. -/
inductive JoinKind
  | inner
  | left
  deriving DecidableEq, Inhabited

/-- The selection that a source belongs to. -/
inductive Scope
  | outer
  | subquery (s : SubqueryId)
  deriving DecidableEq, Inhabited

/-- What a source ranges over. -/
inductive SourceKind
  /-- The records of an entity. -/
  | root (entity : String)
  /-- What an attribute of another source reaches. -/
  | join (parent : SourceId) (relation : Attribute) (kind : JoinKind)
  deriving DecidableEq, Inhabited

/-- A source of rows. -/
structure Source where
  kind : SourceKind
  scope : Scope
  /-- Whether the source has not been dropped. -/
  active : Bool
  /-- Whether a predicate is known to read the source or one below it. -/
  referenced : Bool
  deriving DecidableEq, Inhabited

namespace Source

/-- The entity whose records a source ranges over, if it ranges over records. -/
def entity? (s : Source) : Option String :=
  match s.kind with
  | .root e => some e
  | .join _ relation _ => relation.kind.target?

/-- The source that a join hangs below. -/
def parent? (s : Source) : Option SourceId :=
  match s.kind with
  | .root _ => none
  | .join parent _ _ => some parent

/-- Whether a source is a join of the outer selection that no predicate reads. -/
def isUnused (s : Source) : Bool :=
  s.scope == .outer && s.parent?.isSome && !s.referenced

end Source

/-- A sub-query, whose restriction may read outer sources. -/
structure Subquery where
  root : SourceId
  restriction : Predicate
  deriving DecidableEq, Inhabited

/-- A query with its sources and sub-queries. -/
structure Query where
  entity : String
  sources : List Source
  subqueries : List Subquery
  deriving DecidableEq, Inhabited

namespace Query

/-- The query of all records of an entity. -/
def recordsOf (entity : String) : Query :=
  ⟨entity, [⟨.root entity, .outer, true, true⟩], []⟩

/-- The number of the root. -/
def root : SourceId := 0

variable (q : Query)

/-- The number that the next source will have. -/
def nextSource : SourceId := q.sources.length

/-- The number that the next sub-query will have. -/
def nextSubquery : SubqueryId := q.subqueries.length

/-- The source of a number. -/
def source? (s : SourceId) : Option Source := q.sources[s]?

/-- The selection that a source belongs to. -/
def scopeOf (s : SourceId) : Scope :=
  (q.source? s).elim .outer Source.scope

/-- Adds a join below a source, in the selection of that source. -/
def join (parent : SourceId) (relation : Attribute) (kind : JoinKind) : Query :=
  { q with sources :=
      q.sources ++ [⟨.join parent relation kind, q.scopeOf parent, true, false⟩] }

/-- Adds a sub-query over the records of an entity, without restriction, and its root. -/
def openSubquery (entity : String) : Query :=
  { q with
    sources := q.sources ++ [⟨.root entity, .subquery q.nextSubquery, true, true⟩]
    subqueries := q.subqueries ++ [⟨q.nextSource, .always⟩] }

/-- Sets the restriction of a sub-query. -/
def restrict (s : SubqueryId) (p : Predicate) : Query :=
  { q with subqueries := q.subqueries.modify s fun sub => { sub with restriction := p } }

/-- The restriction of a sub-query. -/
def restriction (s : SubqueryId) : Predicate :=
  (q.subqueries[s]?).elim .always Subquery.restriction

/-- **A source with the sources that it hangs below**, up to a root. -/
def lineage (s : SourceId) : List SourceId :=
  match (q.source? s).bind Source.parent? with
  | some parent => if parent < s then s :: lineage parent else [s]
  | none => [s]
termination_by s

/-- **Notes that a predicate reads a source**, and with it its lineage. -/
def markReferenced (s : SourceId) : Query :=
  let marked := q.lineage s
  { q with sources := q.sources.mapIdx fun i src =>
      if i ∈ marked then { src with referenced := true } else src }

/-- Notes that a predicate reads some sources. -/
def markAll (ss : List SourceId) : Query :=
  ss.foldl markReferenced q

/-- The sources with a property, in ascending order. -/
def sourcesWhere (test : Source → Bool) : List SourceId :=
  (List.range q.sources.length).filter fun s => (q.source? s).any test

/-- The outer joins that no predicate reads, dropped ones included. -/
def unusedJoins : List SourceId :=
  q.sourcesWhere Source.isUnused

/-- **Drops the outer joins that no predicate reads.** -/
def discardUnused : Query :=
  { q with sources := q.sources.map fun src =>
      if src.isUnused then { src with active := false } else src }

/-- The sources of a selection that have not been dropped, every join after its parent. -/
def activeIn (scope : Scope) : List SourceId :=
  q.sourcesWhere fun src => src.scope == scope && src.active

/-- The joins of the outer selection that have not been dropped. -/
def rootJoins : List SourceId :=
  (q.activeIn .outer).filter fun s => ((q.source? s).bind Source.parent?).isSome

/-- A join is the source of the next number and leaves the others alone. -/
theorem source?_join (parent : SourceId) (relation : Attribute) (kind : JoinKind) (s : SourceId) :
    (q.join parent relation kind).source? s =
      if s = q.nextSource then some ⟨.join parent relation kind, q.scopeOf parent, true, false⟩
      else q.source? s := by
  simp only [source?, join, nextSource, List.getElem?_append, List.getElem?_singleton]
  grind

/-- The root of a sub-query is the source of the next number and leaves the others alone. -/
theorem source?_openSubquery (entity : String) (s : SourceId) :
    (q.openSubquery entity).source? s =
      if s = q.nextSource then some ⟨.root entity, .subquery q.nextSubquery, true, true⟩
      else q.source? s := by
  simp only [source?, openSubquery, nextSource, List.getElem?_append, List.getElem?_singleton]
  grind

@[simp] theorem source?_restrict (sub : SubqueryId) (p : Predicate) (s : SourceId) :
    (q.restrict sub p).source? s = q.source? s := rfl

/-- A note reaches the lineage of a source and nothing else. -/
theorem source?_markReferenced (read s : SourceId) :
    (q.markReferenced read).source? s =
      (q.source? s).map fun src =>
        if s ∈ q.lineage read then { src with referenced := true } else src := by
  simp [source?, markReferenced]

/-- Only unused joins are dropped, and they stay where they are. -/
theorem source?_discardUnused (s : SourceId) :
    q.discardUnused.source? s =
      (q.source? s).map fun src => if src.isUnused then { src with active := false } else src := by
  simp [source?, discardUnused]

end Query

end EntityFilter
