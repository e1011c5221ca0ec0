import EntityFilter.Proofs.Query.Growth

/-!
# Queries under other numbers

What is added to a query is numbered behind the sources and sub-queries that are there already. So a
query that is built up from its root alone shows in a query that other operations have used before:
its root is the root there, and all the rest stands there under later numbers.

* `Renumbering`: how numbers change, and with them expressions, predicates, sources and sub-queries.
* `Query.Shows`: a query shows in another one under a renumbering.
* `Shows.join`, `Shows.openSubquery`, `Shows.restrict`, `Shows.markAll`, `Shows.discardUnused`: it
  still does when the same is done to both.
* `Shows.onto`: at first, the root alone shows in every query that has a root.
-/

namespace EntityFilter

/-- **How numbers change** where a query is built up behind the sources and sub-queries of another:
the root stays the root, and everything else comes later. -/
structure Renumbering where
  /-- How much later a source comes. -/
  sources : Nat
  /-- How much later a sub-query comes. -/
  subqueries : Nat

namespace Renumbering

variable (ρ : Renumbering)

/-- The new number of a source. -/
def source (s : SourceId) : SourceId :=
  if s = Query.root then Query.root else s + ρ.sources

/-- The new number of a sub-query. -/
def subquery (t : SubqueryId) : SubqueryId :=
  t + ρ.subqueries

@[simp] theorem source_root : ρ.source Query.root = Query.root :=
  if_pos rfl

theorem source_of_ne {s : SourceId} (h : s ≠ Query.root) : ρ.source s = s + ρ.sources :=
  if_neg h

/-- The order of sources stays. -/
theorem source_lt_source {s t : SourceId} : ρ.source s < ρ.source t ↔ s < t := by
  have hroot : Query.root = 0 := rfl
  unfold source SourceId at *
  split <;> split <;> omega

theorem source_inj {s t : SourceId} : ρ.source s = ρ.source t ↔ s = t := by
  have hst := ρ.source_lt_source (s := s) (t := t)
  have hts := ρ.source_lt_source (s := t) (t := s)
  unfold SourceId at *
  omega

@[simp] theorem source_eq_root {s : SourceId} : ρ.source s = Query.root ↔ s = Query.root := by
  rw [← ρ.source_root, source_inj, source_root]

theorem subquery_inj {s t : SubqueryId} : ρ.subquery s = ρ.subquery t ↔ s = t :=
  Nat.add_right_cancel_iff

end Renumbering

/-- An expression under other numbers. -/
def Expr.renumber (ρ : Renumbering) : Expr → Expr
  | column s name => column (ρ.source s) name
  | element s => element (ρ.source s)
  | mapKey s => mapKey (ρ.source s)
  | mapValue s => mapValue (ρ.source s)
  | upper e => upper (e.renumber ρ)

namespace Predicate

mutual

/-- **A predicate under other numbers.** -/
def renumber (ρ : Renumbering) : Predicate → Predicate
  | always => always
  | and ps => and (renumberAll ρ ps)
  | or ps => or (renumberAll ρ ps)
  | not p => not (p.renumber ρ)
  | isNull e => isNull (e.renumber ρ)
  | isNotNull e => isNotNull (e.renumber ρ)
  | equal e v => equal (e.renumber ρ) v
  | notEqual e v => notEqual (e.renumber ρ) v
  | equalExpr l r => equalExpr (l.renumber ρ) (r.renumber ρ)
  | like e pattern escape => like (e.renumber ρ) pattern escape
  | notLike e pattern escape => notLike (e.renumber ρ) pattern escape
  | isIn e vs => isIn (e.renumber ρ) vs
  | order e test v => order (e.renumber ρ) test v
  | hasRow t => hasRow (ρ.subquery t)

/-- The predicates of a list under other numbers. -/
def renumberAll (ρ : Renumbering) : List Predicate → List Predicate
  | [] => []
  | p :: ps => p.renumber ρ :: renumberAll ρ ps

end

variable {ρ : Renumbering}

theorem renumberAll_eq_map (ps : List Predicate) : renumberAll ρ ps = ps.map (renumber ρ) := by
  induction ps with
  | nil => rfl
  | cons p ps ih => rw [renumberAll, ih, List.map_cons]

theorem renumber_all (ps : List Predicate) :
    (Predicate.all ps).renumber ρ = .all (ps.map (renumber ρ)) := by
  cases ps with
  | nil => rfl
  | cons p ps => simp [Predicate.all, renumber, renumberAll_eq_map]

theorem renumber_any (ps : List Predicate) :
    (Predicate.any ps).renumber ρ = .any (ps.map (renumber ρ)) := by
  cases ps with
  | nil => rfl
  | cons p ps => simp [Predicate.any, renumber, renumberAll_eq_map]

end Predicate

/-- What a source ranges over, under other numbers. -/
def SourceKind.renumber (ρ : Renumbering) : SourceKind → SourceKind
  | root entity => root entity
  | join parent relation kind => join (ρ.source parent) relation kind

/-- A selection under other numbers. -/
def Scope.renumber (ρ : Renumbering) : Scope → Scope
  | outer => outer
  | subquery t => subquery (ρ.subquery t)

/-- **A source under other numbers**; what is known of it stays. -/
def Source.renumber (ρ : Renumbering) (src : Source) : Source :=
  { src with kind := src.kind.renumber ρ, scope := src.scope.renumber ρ }

/-- **A sub-query under other numbers.** -/
def Subquery.renumber (ρ : Renumbering) (sub : Subquery) : Subquery :=
  ⟨ρ.source sub.root, sub.restriction.renumber ρ⟩

namespace Source

variable (ρ : Renumbering) (src : Source)

@[simp] theorem parent?_renumber : (src.renumber ρ).parent? = src.parent?.map ρ.source := by
  obtain ⟨kind, scope, active, referenced⟩ := src
  cases kind <;> rfl

@[simp] theorem isUnused_renumber : (src.renumber ρ).isUnused = src.isUnused := by
  unfold isUnused
  rw [parent?_renumber, Option.isSome_map]
  obtain ⟨kind, scope, active, referenced⟩ := src
  cases scope <;> rfl

end Source

namespace Query

variable {ρ : Renumbering} {q q' : Query} {s t parent : SourceId} {src : Source}

/-- The root hangs below nothing and belongs to the outer selection. -/
def Rooted (q : Query) : Prop :=
  ∃ src, q.source? root = some src ∧ src.scope = .outer ∧ src.parent? = none

theorem Rooted.of_grows (h : q.Rooted) (hg : q.Grows q') : q'.Rooted := by
  obtain ⟨src, hsrc, hscope, hparent⟩ := h
  obtain ⟨src', hsrc', hkind', hscope', -⟩ := hg.kept hsrc
  exact ⟨src', hsrc', hscope'.trans hscope, (Source.parent?_congr hkind').trans hparent⟩

theorem Rooted.nextSource_ne (h : q.Rooted) : q.nextSource ≠ root := by
  obtain ⟨src, hsrc, -⟩ := h
  exact Nat.ne_of_gt (source?_lt hsrc)

theorem rooted_recordsOf (entity : String) : (recordsOf entity).Rooted :=
  ⟨_, rfl, rfl, rfl⟩

/-- **A query shows in another one under other numbers**: apart from the root, which both have, the
sources and the sub-queries of the one are found in the other where the renumbering has put them,
and nothing comes behind them. -/
structure Shows (ρ : Renumbering) (q q' : Query) : Prop where
  entity : q'.entity = q.entity
  rooted : q.Rooted
  rootedIn : q'.Rooted
  source : ∀ s, s ≠ root → q'.source? (ρ.source s) = (q.source? s).map (Source.renumber ρ)
  subquery : ∀ t : SubqueryId,
    q'.subqueries[ρ.subquery t]? = (q.subqueries[t]?).map (Subquery.renumber ρ)
  nextSource : q'.nextSource = ρ.source q.nextSource
  nextSubquery : q'.nextSubquery = ρ.subquery q.nextSubquery

/-- How numbers change for what is built up behind a query. -/
def numbering (q : Query) : Renumbering :=
  ⟨q.nextSource - 1, q.nextSubquery⟩

/-- **The root alone shows in every query of the same entity** that has a root. -/
theorem Shows.onto (hq : q.Rooted) : (recordsOf q.entity).Shows q.numbering q := by
  have hpos : 0 < q.nextSource := Nat.pos_of_ne_zero hq.nextSource_ne
  have hmoved : q.numbering.sources = q.nextSource - 1 := rfl
  constructor
  · rfl
  · exact rooted_recordsOf q.entity
  · exact hq
  · intro s hs
    have hbehind : q.nextSource ≤ q.numbering.source s := by
      have hafter : 0 < s := Nat.pos_of_ne_zero hs
      rw [Renumbering.source_of_ne _ hs]
      unfold SourceId at *
      omega
    have hnone : (recordsOf q.entity).source? s = none := by
      refine List.getElem?_eq_none ?_
      exact Nat.pos_of_ne_zero hs
    rw [hnone]
    exact List.getElem?_eq_none hbehind
  · intro t
    exact List.getElem?_eq_none (Nat.le_add_left q.subqueries.length t)
  · have hone : (recordsOf q.entity).nextSource = 1 := rfl
    rw [hone, Renumbering.source_of_ne _ (by decide)]
    unfold SourceId at *
    omega
  · exact (Nat.zero_add _).symm

namespace Shows

/-- The selection that a source belongs to shows. -/
theorem scopeOf (h : q.Shows ρ q') (s : SourceId) :
    q'.scopeOf (ρ.source s) = (q.scopeOf s).renumber ρ := by
  by_cases hs : s = root
  · obtain ⟨src, hsrc, hscope, -⟩ := h.rooted
    obtain ⟨src', hsrc', hscope', -⟩ := h.rootedIn
    rw [hs, ρ.source_root, scopeOf_eq hsrc, scopeOf_eq hsrc', hscope, hscope']
    rfl
  · unfold Query.scopeOf
    rw [h.source s hs]
    cases q.source? s <;> rfl

/-- The sources that a source hangs below show. -/
theorem lineage (h : q.Shows ρ q') (s : SourceId) :
    q'.lineage (ρ.source s) = (q.lineage s).map ρ.source := by
  induction s using Nat.strongRecOn with
  | _ s ih =>
    have hparent : (q'.source? (ρ.source s)).bind Source.parent? =
        ((q.source? s).bind Source.parent?).map ρ.source := by
      by_cases hs : s = root
      · obtain ⟨src, hsrc, -, hnone⟩ := h.rooted
        obtain ⟨src', hsrc', -, hnone'⟩ := h.rootedIn
        rw [hs, ρ.source_root, hsrc, hsrc', Option.bind_some, Option.bind_some, hnone, hnone']
        rfl
      · rw [h.source s hs]
        cases q.source? s with
        | none => rfl
        | some src => exact Source.parent?_renumber ρ src
    rw [Query.lineage, Query.lineage, hparent]
    cases (q.source? s).bind Source.parent? with
    | none => rfl
    | some parent =>
      by_cases hlt : parent < s
      · simp [hlt, ρ.source_lt_source, ih parent hlt]
      · simp [hlt, ρ.source_lt_source]

/-- A source that is added to both queries shows, if it is the same source under other numbers. -/
theorem of_new {r r' : Query} {new : Source} (h : q.Shows ρ q') (hg : q.Grows r)
    (hg' : q'.Grows r')
    (hs : ∀ s, r.source? s = if s = q.nextSource then some new else q.source? s)
    (hs' : ∀ s, r'.source? s = if s = q'.nextSource then some (new.renumber ρ) else q'.source? s)
    (hn : r.nextSource = q.nextSource + 1) (hn' : r'.nextSource = q'.nextSource + 1)
    (hsub : ∀ t : SubqueryId,
      r'.subqueries[ρ.subquery t]? = (r.subqueries[t]?).map (Subquery.renumber ρ))
    (hnsub : r'.nextSubquery = ρ.subquery r.nextSubquery) : r.Shows ρ r' where
  entity := by rw [hg.entity, hg'.entity, h.entity]
  rooted := h.rooted.of_grows hg
  rootedIn := h.rootedIn.of_grows hg'
  source := by
    intro s hne
    rw [hs, hs', h.source s hne, h.nextSource]
    simp only [ρ.source_inj]
    split <;> rfl
  subquery := hsub
  nextSource := by
    have hne := h.rooted.nextSource_ne
    have hne' : q.nextSource + 1 ≠ root := Nat.succ_ne_zero _
    rw [hn', hn, h.nextSource, ρ.source_of_ne hne, ρ.source_of_ne hne', Nat.add_right_comm]
  nextSubquery := hnsub

theorem join (h : q.Shows ρ q') (parent : SourceId) (relation : Attribute) (kind : JoinKind) :
    (q.join parent relation kind).Shows ρ (q'.join (ρ.source parent) relation kind) := by
  refine h.of_new (.join q parent relation kind) (.join q' _ relation kind)
    (source?_join q parent relation kind) (fun s => ?_) ?_ ?_ h.subquery h.nextSubquery
  · rw [source?_join, h.scopeOf]
    rfl
  · simp [Query.nextSource, Query.join]
  · simp [Query.nextSource, Query.join]

theorem openSubquery (h : q.Shows ρ q') (entity : String) :
    (q.openSubquery entity).Shows ρ (q'.openSubquery entity) := by
  have hlast : ∀ t : SubqueryId, ρ.subquery t < q'.nextSubquery ↔ t < q.nextSubquery := by
    intro t
    rw [h.nextSubquery]
    exact Nat.add_lt_add_iff_right
  have hadded : ∀ t : SubqueryId, ρ.subquery t - q'.nextSubquery = t - q.nextSubquery := by
    intro t
    rw [h.nextSubquery]
    exact Nat.add_sub_add_right t ρ.subqueries q.nextSubquery
  refine h.of_new (.openSubquery q entity) (.openSubquery q' entity)
    (source?_openSubquery q entity) (fun s => ?_) ?_ ?_ (fun t => ?_) ?_
  · rw [source?_openSubquery, h.nextSubquery]
    rfl
  · simp [Query.nextSource, Query.openSubquery]
  · simp [Query.nextSource, Query.openSubquery]
  · have hold := h.subquery t
    simp only [Query.openSubquery, List.getElem?_append, ← Query.nextSubquery.eq_1, hlast t,
      hadded t]
    split
    · exact hold
    · rw [List.getElem?_singleton, List.getElem?_singleton, h.nextSource]
      split <;> rfl
  · rw [nextSubquery_openSubquery, nextSubquery_openSubquery, h.nextSubquery]
    exact Nat.add_right_comm _ _ _

theorem restrict (h : q.Shows ρ q') (sub : SubqueryId) (p : Predicate) :
    (q.restrict sub p).Shows ρ (q'.restrict (ρ.subquery sub) (p.renumber ρ)) where
  entity := h.entity
  rooted := h.rooted
  rootedIn := h.rootedIn
  source := h.source
  subquery := by
    intro t
    simp only [Query.restrict, List.getElem?_modify, h.subquery t, ρ.subquery_inj]
    cases q.subqueries[t]? with
    | none => rfl
    | some found => by_cases ht : sub = t <;> simp [ht, Subquery.renumber]
  nextSource := h.nextSource
  nextSubquery := by
    rw [nextSubquery_restrict, nextSubquery_restrict]
    exact h.nextSubquery

/-- Operations that touch only the flags of sources, and the same flags in both queries, leave a
query showing in the other. -/
theorem of_flags {r r' : Query} (h : q.Shows ρ q') (hg : q.Grows r) (hg' : q'.Grows r')
    (hs : ∀ s, s ≠ root → r'.source? (ρ.source s) = (r.source? s).map (Source.renumber ρ))
    (hn : r.nextSource = q.nextSource) (hn' : r'.nextSource = q'.nextSource)
    (hsub : r.subqueries = q.subqueries) (hsub' : r'.subqueries = q'.subqueries) :
    r.Shows ρ r' where
  entity := by rw [hg.entity, hg'.entity, h.entity]
  rooted := h.rooted.of_grows hg
  rootedIn := h.rootedIn.of_grows hg'
  source := hs
  subquery := by
    intro t
    rw [hsub, hsub', h.subquery]
  nextSource := by rw [hn, hn', h.nextSource]
  nextSubquery := by
    have hnext := h.nextSubquery
    unfold Query.nextSubquery at hnext ⊢
    rw [hsub, hsub', hnext]

theorem markReferenced (h : q.Shows ρ q') (read : SourceId) :
    (q.markReferenced read).Shows ρ (q'.markReferenced (ρ.source read)) := by
  refine h.of_flags (.markReferenced q read) (.markReferenced q' _) (fun s hs => ?_) ?_ ?_ rfl rfl
  · have hmem : ρ.source s ∈ q'.lineage (ρ.source read) ↔ s ∈ q.lineage read := by
      rw [h.lineage, List.mem_map]
      constructor
      · rintro ⟨t, ht, heq⟩
        exact ρ.source_inj.1 heq ▸ ht
      · exact fun ht => ⟨s, ht, rfl⟩
    rw [source?_markReferenced, source?_markReferenced, h.source s hs]
    cases q.source? s with
    | none => rfl
    | some src => by_cases hin : s ∈ q.lineage read <;> simp [hmem, hin, Source.renumber]
  · simp [Query.nextSource, Query.markReferenced]
  · simp [Query.nextSource, Query.markReferenced]

theorem markAll (h : q.Shows ρ q') (ss : List SourceId) :
    (q.markAll ss).Shows ρ (q'.markAll (ss.map ρ.source)) := by
  induction ss generalizing q q' with
  | nil => exact h
  | cons s ss ih => exact ih (h.markReferenced s)

theorem discardUnused (h : q.Shows ρ q') : q.discardUnused.Shows ρ q'.discardUnused := by
  refine h.of_flags (.discardUnused q) (.discardUnused q') (fun s hs => ?_) ?_ ?_ rfl rfl
  · rw [source?_discardUnused, source?_discardUnused, h.source s hs]
    cases q.source? s with
    | none => rfl
    | some src =>
      have hunused := Source.isUnused_renumber ρ src
      cases hu : src.isUnused with
      | false => simp [hu, hu ▸ hunused]
      | true =>
        simp only [Option.map_some, hu, hu ▸ hunused, if_true]
        rfl
  · simp [Query.nextSource, Query.discardUnused]
  · simp [Query.nextSource, Query.discardUnused]

/-- The same joins are read by no predicate. -/
theorem mem_unusedJoins (h : q.Shows ρ q') (s : SourceId) :
    ρ.source s ∈ q'.unusedJoins ↔ s ∈ q.unusedJoins := by
  unfold unusedJoins
  rw [mem_sourcesWhere, mem_sourcesWhere]
  by_cases hs : s = root
  · -- the root is no join, in either query
    have never : ∀ {r : Query}, r.Rooted →
        ¬ ∃ src, r.source? root = some src ∧ src.isUnused = true := by
      rintro r ⟨rsrc, hr, -, hnone⟩ ⟨src, hsrc, hunused⟩
      obtain rfl := Option.some.inj (hr.symm.trans hsrc)
      simp [Source.isUnused, hnone] at hunused
    rw [hs, ρ.source_root]
    exact iff_of_false (never h.rootedIn) (never h.rooted)
  · rw [h.source s hs]
    cases q.source? s <;> simp

end Shows

end Query

end EntityFilter
