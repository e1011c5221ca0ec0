import EntityFilter.Proofs.Query.Growth
import Mathlib.Logic.ExistsUnique

/-!
# The trees of a query

The sources of a query hang below one another in trees, one for each selection, and stand in one
list in the order in which they were made. So it is whatever operations have built the query, also
when joins were added below sources that had been dropped, or such sources marked.

* `RootIn.unique`, `RootIn.le`, `Built.exists_root`: a selection has one root, and it stands before
  all that hangs below it.
* `Built.closedUp`: what is known to be read hangs below what is known to be read.
* `Climbs`, `Arena.climbs`: a walk from a source to its parent and on, which marks what it passes,
  comes to its end, and has marked the lineage.
* `Forest`: all this, of the sources of one query.
* `Tended`, `Tidy`: where joins are added only below sources that are not dropped, and only such
  sources are marked, nothing hangs below a source that was dropped.
* `Built.forest`: the sources of every query are such trees, and those of a tended one are tidy.
-/

namespace EntityFilter.Query

variable {q q' : Query} {s r r' parent : SourceId} {src : Source} {scope : Scope}

/-! ## Roots -/

/-- The selections of a query: the outer one, and one for each sub-query that was opened. -/
def HasScope (q : Query) : Scope → Prop
  | .outer => True
  | .subquery sub => sub < q.nextSubquery

theorem hasScope_restrict (sub : SubqueryId) (p : Predicate) :
    (q.restrict sub p).HasScope scope ↔ q.HasScope scope := by
  cases scope with
  | outer => rfl
  | subquery t => simp [HasScope]

/-- To open a sub-query adds its selection. -/
theorem hasScope_openSubquery (entity : String) (h : (q.openSubquery entity).HasScope scope) :
    q.HasScope scope ∨ scope = .subquery q.nextSubquery := by
  cases scope with
  | outer => exact Or.inl trivial
  | subquery sub =>
    have hle : sub < q.nextSubquery + 1 := by simpa [HasScope] using h
    rcases Nat.lt_succ_iff_lt_or_eq.1 hle with hlt | rfl
    · exact Or.inl hlt
    · exact Or.inr rfl

/-- A source of a selection that hangs below nothing. -/
def RootIn (q : Query) (scope : Scope) (r : SourceId) : Prop :=
  ∃ src, q.source? r = some src ∧ src.scope = scope ∧ src.parent? = none

theorem RootIn.of_grows (h : q.RootIn scope r) (hg : q.Grows q') : q'.RootIn scope r := by
  obtain ⟨src, hsrc, hscope, hnone⟩ := h
  obtain ⟨src', hsrc', hkind, hscope', -⟩ := hg.kept hsrc
  exact ⟨src', hsrc', hscope'.trans hscope, (Source.parent?_congr hkind).trans hnone⟩

/-- A selection has no second root. -/
theorem RootIn.unique (h : q.RootIn scope r) (h' : q.RootIn scope r') (hq : q.Arena) : r' = r := by
  obtain ⟨src, hsrc, hscope, hnone⟩ := h
  obtain ⟨src', hsrc', hscope', hnone'⟩ := h'
  cases scope with
  | outer => rw [hq.outerRoot hsrc hscope hnone, hq.outerRoot hsrc' hscope' hnone']
  | subquery sub =>
    have hroot := hq.innerRoot hsrc hscope hnone
    have hroot' := hq.innerRoot hsrc' hscope' hnone'
    exact Option.some.inj (hroot'.symm.trans hroot)

/-- **The root of a selection stands before its other sources.** -/
theorem RootIn.le (h : q.RootIn scope r) (hq : q.Arena) (hsrc : q.source? s = some src)
    (hscope : src.scope = scope) : r ≤ s := by
  -- the parents of a source lead down to the root
  induction s using Nat.strongRecOn generalizing src with
  | _ s ih =>
    cases hp : src.parent? with
    | none =>
      have hs : q.RootIn scope s := ⟨src, hsrc, hscope, hp⟩
      exact Nat.le_of_eq (hs.unique h hq)
    | some parent =>
      obtain ⟨hlt, psrc, hps, hpscope⟩ := hq.parent hsrc hp
      have hle : r ≤ parent := ih parent hlt hps (hpscope.trans hscope)
      exact Nat.le_of_lt (Nat.lt_of_le_of_lt hle hlt)

/-- The root of a selection is not dropped. -/
theorem RootIn.active (h : q.RootIn scope r) (hq : q.Arena) : r ∈ q.activeIn scope := by
  obtain ⟨src, hsrc, hscope, hnone⟩ := h
  refine (mem_activeIn_iff hsrc).2 ⟨hscope, ?_⟩
  cases scope with
  | outer =>
    obtain ⟨marked, hroot⟩ := hq.root
    obtain rfl := hq.outerRoot hsrc hscope hnone
    rw [hroot] at hsrc
    rw [← Option.some.inj hsrc]
  | subquery sub => exact (hq.inner hsrc hscope).2

/-- **A selection has a root.** -/
theorem Built.exists_root (h : q.Built) (hscope : q.HasScope scope) : ∃ r, q.RootIn scope r := by
  induction h with
  | recordsOf entity =>
    cases scope with
    | outer => exact ⟨root, ⟨.root entity, .outer, true, true⟩, rfl, rfl, rfl⟩
    | subquery sub => exact absurd hscope (Nat.not_lt_zero sub)
  | @join q parent relation kind _ _ ih =>
    obtain ⟨r, hr⟩ := ih hscope
    exact ⟨r, hr.of_grows (.join q parent relation kind)⟩
  | @openSubquery q entity _ ih =>
    rcases hasScope_openSubquery entity hscope with hold | rfl
    · obtain ⟨r, hr⟩ := ih hold
      exact ⟨r, hr.of_grows (.openSubquery q entity)⟩
    · have hsrc : (q.openSubquery entity).source? q.nextSource =
          some ⟨.root entity, .subquery q.nextSubquery, true, true⟩ := by
        rw [source?_openSubquery, if_pos rfl]
      exact ⟨q.nextSource, _, hsrc, rfl, rfl⟩
  | @restrict q sub p _ _ ih => exact ih ((hasScope_restrict sub p).1 hscope)
  | @markReferenced q s _ _ ih =>
    obtain ⟨r, hr⟩ := ih hscope
    exact ⟨r, hr.of_grows (.markReferenced q s)⟩
  | @discardUnused q _ ih =>
    obtain ⟨r, hr⟩ := ih hscope
    exact ⟨r, hr.of_grows (.discardUnused q)⟩

/-- Every source belongs to a selection of the query. -/
theorem Arena.hasScope (hq : q.Arena) (hsrc : q.source? s = some src) : q.HasScope src.scope := by
  cases hscope : src.scope with
  | outer => trivial
  | subquery sub => exact (hq.inner hsrc hscope).1

/-! ## Marks -/

/-- **What is known to be read hangs below what is known to be read.** -/
theorem Built.closedUp (h : q.Built) : q.ClosedUp Source.referenced := by
  induction h with
  | recordsOf entity =>
    intro s src parent psrc hsrc _ hp
    obtain ⟨-, rfl⟩ := source?_recordsOf hsrc
    cases hp
  | @join q parent relation kind hq hp ih =>
    have hq' := hq.arena.join hp relation kind
    refine ih.of_new hq' (source?_join q parent relation kind) fun _ _ hread => ?_
    cases hread
  | @openSubquery q entity hq ih =>
    have hq' := hq.arena.openSubquery entity
    refine ih.of_new hq' (source?_openSubquery q entity) fun _ _ _ hp => ?_
    cases hp
  | restrict p _ _ ih => exact ih
  | markReferenced hq _ ih => exact ih.markReferenced hq.arena _
  | discardUnused _ ih =>
    refine ih.of_kept fun h => ?_
    obtain ⟨src, hsrc, hkind, href, -⟩ := source_of_discardUnused h
    exact ⟨src, hsrc, hkind, href⟩

/-- Notes that a predicate reads one source, and nothing of what this hangs below. -/
def note (q : Query) (s : SourceId) : Query :=
  { q with sources := q.sources.modify s fun src => { src with referenced := true } }

/-- **A walk from a source to its parent and on**, which notes every source that it passes. Nothing
ends it but a source that hangs below nothing. -/
inductive Climbs : Query → Option SourceId → Query → Prop
  | done {q : Query} : Climbs q none q
  | step {q q' : Query} {s : SourceId} {src : Source} (hs : q.source? s = some src)
      (h : Climbs (q.note s) src.parent? q') : Climbs q (some s) q'

theorem source?_note (q : Query) (s t : SourceId) :
    (q.note s).source? t =
      (q.source? t).map fun src => if t = s then { src with referenced := true } else src := by
  simp only [source?, note, List.getElem?_modify, eq_comm]
  rfl

@[simp] theorem nextSource_note (q : Query) (s : SourceId) :
    (q.note s).nextSource = q.nextSource := by
  simp [nextSource, note]

theorem Arena.note (hq : q.Arena) (s : SourceId) : (q.note s).Arena := by
  refine hq.of_flags rfl (fun _ => rfl) rfl fun t => ⟨_, source?_note q s t, fun src => ?_⟩
  split <;> exact ⟨rfl, rfl, fun h _ => h⟩

/-- A lineage depends on the parents of sources alone. -/
theorem lineage_congr (h : ∀ t, (q'.source? t).bind Source.parent? =
    (q.source? t).bind Source.parent?) (s : SourceId) : q'.lineage s = q.lineage s := by
  induction s using Nat.strongRecOn with
  | _ s ih =>
    rw [Query.lineage.eq_def q', Query.lineage.eq_def q, h]
    cases (q.source? s).bind Source.parent? with
    | none => rfl
    | some parent =>
      by_cases hlt : parent < s
      · simp only [if_pos hlt, ih parent hlt]
      · simp only [if_neg hlt]

theorem lineage_note (q : Query) (s t : SourceId) : (q.note s).lineage t = q.lineage t := by
  refine lineage_congr (fun u => ?_) t
  rw [source?_note]
  cases q.source? u with
  | none => rfl
  | some src => by_cases hu : u = s <;> simp [hu, Source.parent?]

/-- Two queries with the same entity, sources and sub-queries are the same. -/
theorem ext_source (he : q'.entity = q.entity) (hsub : q'.subqueries = q.subqueries)
    (hs : ∀ t, q'.source? t = q.source? t) : q' = q := by
  obtain ⟨e, sources, subqueries⟩ := q
  obtain ⟨e', sources', subqueries'⟩ := q'
  obtain rfl : e' = e := he
  obtain rfl : subqueries' = subqueries := hsub
  obtain rfl : sources' = sources := List.ext_getElem? hs
  rfl

theorem markReferenced_of_root (hsrc : q.source? s = some src) (hp : src.parent? = none) :
    q.markReferenced s = q.note s := by
  have hlineage : q.lineage s = [s] := by
    rw [Query.lineage, hsrc, Option.bind_some, hp]
  refine ext_source rfl rfl fun t => ?_
  rw [source?_markReferenced, source?_note, hlineage]
  simp only [List.mem_singleton]

/-- To mark a join is to note it and to mark its parent. -/
theorem markReferenced_of_join (hq : q.Arena) (hsrc : q.source? s = some src)
    (hp : src.parent? = some parent) :
    q.markReferenced s = (q.note s).markReferenced parent := by
  refine ext_source rfl rfl fun t => ?_
  rw [source?_markReferenced, source?_markReferenced, source?_note, lineage_note, Option.map_map]
  congr 1
  funext src'
  simp only [Function.comp_apply, mem_lineage_iff hq hsrc hp]
  by_cases ht : t = s <;> simp [ht]

/-- **The walk from a source comes to its end**, and has marked the lineage. -/
theorem Arena.climbs (hq : q.Arena) (hs : s < q.nextSource) :
    Climbs q (some s) (q.markReferenced s) := by
  induction s using Nat.strongRecOn generalizing q with
  | _ s ih =>
    obtain ⟨src, hsrc⟩ := exists_source hs
    refine .step hsrc ?_
    cases hp : src.parent? with
    | none =>
      rw [markReferenced_of_root hsrc hp]
      exact .done
    | some parent =>
      have hlt : parent < s := (hq.parent hsrc hp).1
      rw [markReferenced_of_join hq hsrc hp]
      refine ih parent hlt (hq.note s) ?_
      rw [nextSource_note]
      exact Nat.lt_trans hlt hs

/-! ## Trees -/

/-- **The sources are trees**, one for each selection. -/
structure Forest (q : Query) : Prop where
  /-- Every source belongs to a selection of the query. -/
  placed : ∀ {s src}, q.source? s = some src → q.HasScope src.scope
  /-- A join stands after its parent and in its selection. -/
  below : ∀ {s src parent}, q.source? s = some src → src.parent? = some parent →
    parent < s ∧ ∃ psrc, q.source? parent = some psrc ∧ psrc.scope = src.scope
  /-- A selection has one root. -/
  rooted : ∀ {scope}, q.HasScope scope → ∃! r, q.RootIn scope r
  /-- The root of a selection stands before its other sources. -/
  lowest : ∀ {scope r s src}, q.RootIn scope r → q.source? s = some src → src.scope = scope → r ≤ s
  /-- The root of the outer selection is not dropped. -/
  outer : q.RootIn .outer root ∧ root ∈ q.activeIn .outer
  /-- The sources of sub-queries are not dropped. -/
  inner : ∀ {s src sub}, q.source? s = some src → src.scope = .subquery sub → src.active
  /-- What is known to be read hangs below what is known to be read. -/
  read : q.ClosedUp Source.referenced

/-- **A query that is built with care**: joins are added only below sources that are not dropped,
and only such sources are marked. -/
inductive Tended : Query → Prop
  | recordsOf (entity : String) : Tended (recordsOf entity)
  | join {q : Query} {parent : SourceId} {psrc : Source} (relation : Attribute) (kind : JoinKind)
      (hq : Tended q) (hp : q.source? parent = some psrc) (ha : psrc.active) :
      Tended (q.join parent relation kind)
  | openSubquery {q : Query} (entity : String) (hq : Tended q) : Tended (q.openSubquery entity)
  | restrict {q : Query} {sub : SubqueryId} (p : Predicate)
      (hq : Tended q) (hs : sub < q.nextSubquery) : Tended (q.restrict sub p)
  | markReferenced {q : Query} {s : SourceId} {src : Source}
      (hq : Tended q) (hs : q.source? s = some src) (ha : src.active) : Tended (q.markReferenced s)
  | discardUnused {q : Query} (hq : Tended q) : Tended q.discardUnused

/-- **Nothing hangs below a source that was dropped.** -/
structure Tidy (q : Query) : Prop where
  /-- What is known to be read is not dropped. -/
  read : q.ReadActive
  /-- The parents of sources that are not dropped are not dropped. -/
  closed : q.ClosedUp Source.active
  /-- A selection is listed from its root on. -/
  first : ∀ {scope}, q.HasScope scope → ∃ r rest, q.RootIn scope r ∧ q.activeIn scope = r :: rest
  /-- A join is listed after its parent. -/
  after : ∀ {scope before s later src parent}, q.activeIn scope = before ++ s :: later →
    q.source? s = some src → src.parent? = some parent → parent ∈ before

theorem Tended.built (h : q.Tended) : q.Built := by
  induction h with
  | recordsOf entity => exact .recordsOf entity
  | join relation kind _ hp _ ih => exact .join relation kind ih (source?_lt hp)
  | openSubquery entity _ ih => exact .openSubquery entity ih
  | restrict p _ hs ih => exact .restrict p ih hs
  | markReferenced _ hs _ ih => exact .markReferenced ih (source?_lt hs)
  | discardUnused _ ih => exact .discardUnused ih

theorem Tended.closed (h : q.Tended) : q.ClosedUp Source.active := by
  induction h with
  | recordsOf entity =>
    intro s src parent psrc hsrc _ hp
    obtain ⟨-, rfl⟩ := source?_recordsOf hsrc
    cases hp
  | @join q parent psrc relation kind hq hp ha ih =>
    have hq' := hq.built.arena.join (source?_lt hp) relation kind
    refine ih.of_new hq' (source?_join q parent relation kind) fun above asrc _ habove hasrc => ?_
    obtain rfl : parent = above := Option.some.inj habove
    obtain rfl : psrc = asrc := Option.some.inj (hp.symm.trans hasrc)
    exact ha
  | @openSubquery q entity hq ih =>
    have hq' := hq.built.arena.openSubquery entity
    refine ih.of_new hq' (source?_openSubquery q entity) fun _ _ _ hp => ?_
    cases hp
  | restrict p _ _ ih => exact ih
  | markReferenced _ _ _ ih =>
    refine ih.of_kept fun h => ?_
    obtain ⟨src, hsrc, hkind, hact, -⟩ := source_of_markReferenced h
    exact ⟨src, hsrc, hkind, hact⟩
  | discardUnused hq ih => exact ih.discardUnused hq.built.closedUp hq.built.arena

theorem Tended.readActive (h : q.Tended) : q.ReadActive := by
  induction h with
  | recordsOf entity =>
    intro s src hsrc _
    obtain ⟨-, rfl⟩ := source?_recordsOf hsrc
    rfl
  | @join q parent psrc relation kind _ _ _ ih =>
    exact ih.of_new (source?_join q parent relation kind) rfl
  | @openSubquery q entity _ ih => exact ih.of_new (source?_openSubquery q entity) rfl
  | restrict p _ _ ih => exact ih
  | markReferenced hq hs ha ih =>
    have hmem := (mem_activeIn_iff hs).2 ⟨rfl, ha⟩
    exact ih.markReferenced hq.built.arena hq.closed hmem
  | discardUnused _ ih => exact ih.discardUnused

/-- A join is listed after its parent, which has the smaller number. -/
theorem parent_mem_before (hq : q.Arena) (hpar : q.ParentsActive) {before later : List SourceId}
    (hl : q.activeIn scope = before ++ s :: later) (hsrc : q.source? s = some src)
    (hp : src.parent? = some parent) : parent ∈ before := by
  have hs : s ∈ q.activeIn scope := by simp [hl]
  obtain ⟨hlt, hmem⟩ := parent_mem_activeIn hq hpar hs hsrc hp
  have hasc := q.activeIn_ascending scope
  rw [hl] at hmem hasc
  have hlater := (List.pairwise_cons.1 (List.pairwise_append.1 hasc).2.1).1
  rcases List.mem_append.1 hmem with hmem | hmem
  · exact hmem
  · rcases List.mem_cons.1 hmem with rfl | hmem
    · exact absurd hlt (Nat.lt_irrefl _)
    · exact absurd (hlater parent hmem) (Nat.lt_asymm hlt)

/-- A selection is listed from its root on. -/
theorem RootIn.first (h : q.RootIn scope r) (hq : q.Arena) :
    ∃ rest, q.activeIn scope = r :: rest := by
  have hle : ∀ s ∈ q.activeIn scope, r ≤ s := by
    intro s hs
    obtain ⟨src, hsrc, hscope, -⟩ := mem_activeIn.1 hs
    exact h.le hq hsrc hscope
  obtain ⟨rest, hrest, -⟩ := activeIn_eq_cons (h.active hq) hle
  exact ⟨rest, hrest⟩

/-- **The sources of every query are trees**, one for each selection, and to mark one of them is a
walk that comes to its end. Those of a tended query are tidy. -/
theorem Built.forest (h : q.Built) :
    q.Forest ∧ (∀ s < q.nextSource, Climbs q (some s) (q.markReferenced s)) ∧
      (q.Tended → q.Tidy) := by
  have hq := h.arena
  obtain ⟨marked, hroot⟩ := hq.root
  have houter : q.RootIn .outer root := ⟨_, hroot, rfl, rfl⟩
  have hrooted : ∀ {scope}, q.HasScope scope → ∃! r, q.RootIn scope r := by
    intro scope hscope
    obtain ⟨r, hr⟩ := h.exists_root hscope
    exact ⟨r, hr, fun r' hr' => hr.unique hr' hq⟩
  refine ⟨?_, fun s hs => hq.climbs hs, fun ht => ?_⟩
  · exact {
      placed := hq.hasScope
      below := hq.parent
      rooted := hrooted
      lowest := fun hr hsrc hscope => hr.le hq hsrc hscope
      outer := ⟨houter, houter.active hq⟩
      inner := fun hsrc hscope => (hq.inner hsrc hscope).2
      read := h.closedUp }
  · exact {
      read := ht.readActive
      closed := ht.closed
      first := fun hscope => by
        obtain ⟨r, hr, -⟩ := hrooted hscope
        obtain ⟨rest, hrest⟩ := hr.first hq
        exact ⟨r, rest, hr, hrest⟩
      after := fun hl hsrc hp => parent_mem_before hq ht.closed hl hsrc hp }

end EntityFilter.Query

namespace EntityFilter.Shop

open Query

/-- Items consist of parts. -/
def parts : Attribute := ⟨"parts", .collection "Part"⟩

/-- Orders joined to their items and to their returns, and a sub-query over items with their
parts. -/
def joinedOrders : Query :=
  (((((recordsOf "Order").join 0 ⟨"items", .collection "Item"⟩ .left).join 0
    ⟨"returns", .collection "Item"⟩ .left).openSubquery "Item").join 3 parts .inner).restrict 0
    (.equalExpr (.element 1) (.element 3))

/-- The returns are dropped, and then the items are joined to their parts. -/
def trimmedOrders : Query :=
  (joinedOrders.markReferenced 1).discardUnused.join 1 parts .left

theorem trimmedOrders_forest :
    trimmedOrders.Built ∧ trimmedOrders.Tended ∧ trimmedOrders.Forest ∧ trimmedOrders.Tidy ∧
      Climbs trimmedOrders (some 5) (trimmedOrders.markReferenced 5) ∧
      trimmedOrders.activeIn .outer = [0, 1, 5] ∧
      trimmedOrders.activeIn (.subquery 0) = [3, 4] := by
  have hjoined : joinedOrders.Tended :=
    .restrict _ (.join _ _ (.openSubquery _ (.join _ _ (.join _ _ (.recordsOf _) rfl rfl)
      rfl rfl)) rfl rfl) (by decide)
  have hmarked : joinedOrders.markReferenced 1 = (joinedOrders.note 1).note 0 := by
    rw [markReferenced_of_join hjoined.built.arena rfl rfl, markReferenced_of_root rfl rfl]
  have htrimmed :
      trimmedOrders = ((joinedOrders.note 1).note 0).discardUnused.join 1 parts .left := by
    rw [trimmedOrders, hmarked]
  have hsrc : (joinedOrders.markReferenced 1).discardUnused.source? 1 =
      some ⟨.join 0 ⟨"items", .collection "Item"⟩ .left, .outer, true, true⟩ := by
    rw [hmarked]
    rfl
  have ht : trimmedOrders.Tended :=
    .join parts .left (.discardUnused (.markReferenced hjoined rfl rfl)) hsrc rfl
  obtain ⟨hforest, hclimbs, htidy⟩ := Built.forest ht.built
  refine ⟨ht.built, ht, hforest, htidy ht, hclimbs 5 ?_, ?_, ?_⟩
  · rw [htrimmed]
    decide
  · rw [htrimmed]
    rfl
  · rw [htrimmed]
    rfl

/-- A join below a source that was dropped is listed without its parent. -/
example : ((((recordsOf "Item").join 0 parts .left).discardUnused.join 1 parts .left).activeIn
    .outer) = [0, 2] := by rfl

end EntityFilter.Shop
