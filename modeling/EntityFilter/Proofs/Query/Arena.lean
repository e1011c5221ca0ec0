import EntityFilter.Query

/-!
# The arena of sources

What holds of the sources of every query, whatever operations have built it.

* `Built`: the queries that the operations reach.
* `Arena`: every join stands after the source that it hangs below, in the same selection, and
  every selection has one root, which is never dropped.
* `Built.arena`: every query that is built is such an arena.
* `mem_lineage_parent`: a lineage goes on up to a root.
-/

namespace EntityFilter.Source

variable {src src' : Source} {parent : SourceId} {relation : Attribute} {kind : JoinKind}

theorem parent?_congr (h : src'.kind = src.kind) : src'.parent? = src.parent? := by
  simp [parent?, h]

theorem parent?_of_join (h : src.kind = .join parent relation kind) :
    src.parent? = some parent := by
  simp [parent?, h]

theorem parent?_of_root {entity : String} (h : src.kind = .root entity) : src.parent? = none := by
  simp [parent?, h]

theorem exists_join (h : src.parent? = some parent) :
    ∃ relation kind, src.kind = .join parent relation kind := by
  cases hk : src.kind with
  | root entity =>
    rw [parent?_of_root hk] at h
    cases h
  | join parent' relation kind =>
    rw [parent?_of_join hk] at h
    obtain rfl := Option.some.inj h
    exact ⟨relation, kind, rfl⟩

end EntityFilter.Source

namespace EntityFilter.Query

variable {q : Query} {s t parent : SourceId} {src psrc : Source}

/-- **A query that the operations build.** They name sources and sub-queries by numbers that the
query has given out. -/
inductive Built : Query → Prop
  | recordsOf (entity : String) : Built (recordsOf entity)
  | join {q : Query} {parent : SourceId} (relation : Attribute) (kind : JoinKind)
      (hq : Built q) (hp : parent < q.nextSource) : Built (q.join parent relation kind)
  | openSubquery {q : Query} (entity : String) (hq : Built q) : Built (q.openSubquery entity)
  | restrict {q : Query} {sub : SubqueryId} (p : Predicate)
      (hq : Built q) (hs : sub < q.nextSubquery) : Built (q.restrict sub p)
  | markReferenced {q : Query} {s : SourceId}
      (hq : Built q) (hs : s < q.nextSource) : Built (q.markReferenced s)
  | discardUnused {q : Query} (hq : Built q) : Built q.discardUnused

/-- The shape of a query's sources. -/
structure Arena (q : Query) : Prop where
  /-- The root of the outer selection is source zero. -/
  root : ∃ r, q.source? Query.root = some ⟨.root q.entity, .outer, true, r⟩
  /-- A join stands after its parent and in its selection. -/
  parent : ∀ {s src parent}, q.source? s = some src → src.parent? = some parent →
    parent < s ∧ ∃ psrc, q.source? parent = some psrc ∧ psrc.scope = src.scope
  /-- The outer selection has no second root. -/
  outerRoot : ∀ {s src}, q.source? s = some src → src.scope = .outer → src.parent? = none →
    s = Query.root
  /-- A sub-query has the root that it was opened with and no other. -/
  innerRoot : ∀ {s src sub}, q.source? s = some src → src.scope = .subquery sub →
    src.parent? = none → (q.subqueries[sub]?).map Subquery.root = some s
  /-- The sources of sub-queries are never dropped. -/
  inner : ∀ {s src sub}, q.source? s = some src → src.scope = .subquery sub →
    sub < q.nextSubquery ∧ src.active

theorem source?_lt (h : q.source? s = some src) : s < q.nextSource :=
  (List.getElem?_eq_some_iff.1 h).1

theorem exists_source (h : s < q.nextSource) : ∃ src, q.source? s = some src :=
  ⟨_, List.getElem?_eq_getElem h⟩

theorem scopeOf_eq (h : q.source? s = some src) : q.scopeOf s = src.scope := by
  simp [scopeOf, h]

@[simp] theorem nextSubquery_openSubquery (entity : String) :
    (q.openSubquery entity).nextSubquery = q.nextSubquery + 1 := by
  simp [nextSubquery, openSubquery]

@[simp] theorem nextSubquery_restrict (sub : SubqueryId) (p : Predicate) :
    (q.restrict sub p).nextSubquery = q.nextSubquery := by
  simp [nextSubquery, restrict]

/-- What is found in the query of all records is its root. -/
theorem source?_recordsOf {entity : String} (h : (recordsOf entity).source? s = some src) :
    s = 0 ∧ src = ⟨.root entity, .outer, true, true⟩ := by
  simp only [source?, recordsOf, List.getElem?_singleton] at h
  split at h
  · exact ⟨‹_›, (Option.some.inj h).symm⟩
  · cases h

/-- What is found after a source is added was there before or is the new one. -/
theorem old_or_new {q' : Query} {new : Source}
    (hs : ∀ s, q'.source? s = if s = q.nextSource then some new else q.source? s)
    (h : q'.source? s = some src) : q.source? s = some src ∨ s = q.nextSource ∧ src = new := by
  rw [hs] at h
  split at h
  · exact Or.inr ⟨‹_›, (Option.some.inj h).symm⟩
  · exact Or.inl h

/-- Operations that touch only the flags of sources keep the shape. -/
theorem Arena.of_flags {q' : Query} (hq : q.Arena) (he : q'.entity = q.entity)
    (hs : ∀ sub : SubqueryId,
      (q'.subqueries[sub]?).map Subquery.root = (q.subqueries[sub]?).map Subquery.root)
    (hn : q'.nextSubquery = q.nextSubquery)
    (hf : ∀ s, ∃ f : Source → Source, q'.source? s = (q.source? s).map f ∧
      ∀ src, (f src).kind = src.kind ∧ (f src).scope = src.scope ∧
        (src.active → src.scope ≠ .outer ∨ src.parent? = none → (f src).active)) : q'.Arena := by
  -- the same source, in either direction
  have back : ∀ {s src'}, q'.source? s = some src' → ∃ src, q.source? s = some src ∧
      src'.kind = src.kind ∧ src'.scope = src.scope ∧ src'.parent? = src.parent? ∧
      (src.active → src.scope ≠ .outer ∨ src.parent? = none → src'.active) := by
    intro s src' h
    obtain ⟨f, hf, hk⟩ := hf s
    rw [hf] at h
    obtain ⟨src, hsrc, rfl⟩ := Option.map_eq_some_iff.1 h
    obtain ⟨h1, h2, h3⟩ := hk src
    exact ⟨src, hsrc, h1, h2, Source.parent?_congr h1, h3⟩
  have forth : ∀ {s src}, q.source? s = some src → ∃ src', q'.source? s = some src' ∧
      src'.kind = src.kind ∧ src'.scope = src.scope ∧
      (src.active → src.scope ≠ .outer ∨ src.parent? = none → src'.active) := by
    intro s src h
    obtain ⟨f, hf, hk⟩ := hf s
    obtain ⟨h1, h2, h3⟩ := hk src
    exact ⟨f src, by rw [hf, h]; rfl, h1, h2, h3⟩
  constructor
  · obtain ⟨r, hr⟩ := hq.root
    obtain ⟨⟨k, sc, a, r'⟩, h, hk, hsc, ha⟩ := forth hr
    obtain rfl : k = .root q.entity := hk
    obtain rfl : sc = .outer := hsc
    obtain rfl : a = true := ha rfl (Or.inr rfl)
    exact ⟨r', by rw [h, he]⟩
  · intro s src' parent h hp
    obtain ⟨src, hsrc, -, hsc, hpar, -⟩ := back h
    obtain ⟨hlt, psrc, hps, hpsc⟩ := hq.parent hsrc (hpar ▸ hp)
    obtain ⟨psrc', hps', -, hsc', -⟩ := forth hps
    exact ⟨hlt, psrc', hps', by rw [hsc', hpsc, hsc]⟩
  · intro s src' h hout hnone
    obtain ⟨src, hsrc, -, hsc, hpar, -⟩ := back h
    exact hq.outerRoot hsrc (hsc ▸ hout) (hpar ▸ hnone)
  · intro s src' sub h hin hnone
    obtain ⟨src, hsrc, -, hsc, hpar, -⟩ := back h
    rw [hs]
    exact hq.innerRoot hsrc (hsc ▸ hin) (hpar ▸ hnone)
  · intro s src' sub h hin
    obtain ⟨src, hsrc, -, hsc, -, hact⟩ := back h
    have hin' : src.scope = .subquery sub := hsc ▸ hin
    obtain ⟨h1, h2⟩ := hq.inner hsrc hin'
    exact ⟨hn ▸ h1, hact h2 (Or.inl (by simp [hin']))⟩

theorem arena_recordsOf (entity : String) : (recordsOf entity).Arena := by
  constructor
  · exact ⟨true, rfl⟩
  · intro s src parent h hp
    obtain ⟨-, rfl⟩ := source?_recordsOf h
    cases hp
  · intro s src h _ _
    exact (source?_recordsOf h).1
  · intro s src sub h hin _
    obtain ⟨-, rfl⟩ := source?_recordsOf h
    cases hin
  · intro s src sub h hin
    obtain ⟨-, rfl⟩ := source?_recordsOf h
    cases hin

/-- Operations that add a source keep the shape, if the new source fits into it. -/
theorem Arena.of_new {q' : Query} {new : Source} (hq : q.Arena) (he : q'.entity = q.entity)
    (hs : ∀ s, q'.source? s = if s = q.nextSource then some new else q.source? s)
    (hsub : ∀ sub : SubqueryId, sub < q.nextSubquery →
      (q'.subqueries[sub]?).map Subquery.root = (q.subqueries[sub]?).map Subquery.root)
    (hn : q.nextSubquery ≤ q'.nextSubquery)
    (hjoin : ∀ parent, new.parent? = some parent →
      ∃ psrc, q.source? parent = some psrc ∧ psrc.scope = new.scope)
    (hroot : new.parent? = none → ∃ sub, new.scope = .subquery sub ∧
      (q'.subqueries[sub]?).map Subquery.root = some q.nextSource)
    (hin : ∀ sub, new.scope = .subquery sub → sub < q'.nextSubquery ∧ new.active) : q'.Arena := by
  have old : ∀ {s src}, q.source? s = some src → q'.source? s = some src := by
    intro s src h
    rw [hs, if_neg (Nat.ne_of_lt (source?_lt h)), h]
  constructor
  · obtain ⟨r, hr⟩ := hq.root
    exact ⟨r, by rw [old hr, he]⟩
  · intro s src parent h hpar
    rcases old_or_new hs h with h | ⟨rfl, rfl⟩
    · obtain ⟨hlt, psrc, hps, hsc⟩ := hq.parent h hpar
      exact ⟨hlt, psrc, old hps, hsc⟩
    · obtain ⟨psrc, hps, hsc⟩ := hjoin parent hpar
      exact ⟨source?_lt hps, psrc, old hps, hsc⟩
  · intro s src h hout hnone
    rcases old_or_new hs h with h | ⟨rfl, rfl⟩
    · exact hq.outerRoot h hout hnone
    · obtain ⟨sub, hsc, -⟩ := hroot hnone
      simp [hsc] at hout
  · intro s src sub h hsc hnone
    rcases old_or_new hs h with h | ⟨rfl, rfl⟩
    · rw [hsub sub (hq.inner h hsc).1]
      exact hq.innerRoot h hsc hnone
    · obtain ⟨sub', hsc', hr⟩ := hroot hnone
      obtain rfl : sub' = sub := by simpa [hsc'] using hsc
      exact hr
  · intro s src sub h hsc
    rcases old_or_new hs h with h | ⟨rfl, rfl⟩
    · obtain ⟨h1, h2⟩ := hq.inner h hsc
      exact ⟨Nat.lt_of_lt_of_le h1 hn, h2⟩
    · exact hin sub hsc

theorem Arena.join (hq : q.Arena) (hp : parent < q.nextSource) (relation : Attribute)
    (kind : JoinKind) : (q.join parent relation kind).Arena := by
  obtain ⟨psrc, hps⟩ := exists_source hp
  refine hq.of_new rfl (source?_join q parent relation kind) (fun _ _ => rfl) (Nat.le_refl _)
    ?_ ?_ ?_
  · intro parent' h
    obtain rfl : parent = parent' := by simpa [Source.parent?] using h
    exact ⟨psrc, hps, (scopeOf_eq hps).symm⟩
  · intro h
    simp [Source.parent?] at h
  · intro sub h
    exact ⟨(hq.inner hps (scopeOf_eq hps ▸ h)).1, rfl⟩

theorem Arena.openSubquery (hq : q.Arena) (entity : String) : (q.openSubquery entity).Arena := by
  refine hq.of_new rfl (source?_openSubquery q entity) (fun sub h => ?_) (by simp) ?_ ?_ ?_
  · exact congrArg _ (List.getElem?_append_left h)
  · intro parent h
    simp [Source.parent?] at h
  · intro _
    exact ⟨q.nextSubquery, rfl, by simp [Query.openSubquery, nextSubquery]⟩
  · intro sub h
    obtain rfl : q.nextSubquery = sub := by simpa using h
    simp

theorem Arena.restrict (hq : q.Arena) (sub : SubqueryId) (p : Predicate) :
    (q.restrict sub p).Arena := by
  refine hq.of_flags rfl (fun sub' => ?_) (by simp) fun s =>
    ⟨id, by simp, fun _ => ⟨rfl, rfl, fun h _ => h⟩⟩
  simp only [Query.restrict, List.getElem?_modify]
  cases q.subqueries[sub']? with
  | none => rfl
  | some def' => by_cases h : sub = sub' <;> simp [h]

theorem Arena.markReferenced (hq : q.Arena) (s : SourceId) : (q.markReferenced s).Arena := by
  refine hq.of_flags rfl (fun _ => rfl) rfl fun t =>
    ⟨_, source?_markReferenced q s t, fun src => ?_⟩
  split <;> exact ⟨rfl, rfl, fun h _ => h⟩

theorem Arena.discardUnused (hq : q.Arena) : q.discardUnused.Arena := by
  refine hq.of_flags rfl (fun _ => rfl) rfl fun t =>
    ⟨_, source?_discardUnused q t, fun src => ?_⟩
  refine ⟨by split <;> rfl, by split <;> rfl, fun ha hk => ?_⟩
  -- roots and sources of sub-queries are never unused
  have : src.isUnused = false := by
    rcases hk with hk | hk <;> simp [Source.isUnused, hk]
  simpa [this] using ha

/-- **Every query that is built is an arena.** -/
theorem Built.arena (h : q.Built) : q.Arena := by
  induction h with
  | recordsOf entity => exact arena_recordsOf entity
  | join relation kind _ hp ih => exact ih.join hp relation kind
  | openSubquery entity _ ih => exact ih.openSubquery entity
  | restrict p _ _ ih => exact ih.restrict _ p
  | markReferenced _ _ ih => exact ih.markReferenced _
  | discardUnused _ ih => exact ih.discardUnused

/-! ## Lineages -/

/-- The root hangs below nothing. -/
theorem lineage_root (hq : q.Arena) : q.lineage root = [root] := by
  obtain ⟨r, hr⟩ := hq.root
  rw [Query.lineage, hr]
  rfl

theorem self_mem_lineage (q : Query) (s : SourceId) : s ∈ q.lineage s := by
  rw [lineage]
  split
  · split <;> simp
  · simp

/-- What holds of a source, and of the parent of every source that it holds of, holds of the whole
lineage. -/
theorem lineage_induction {P : SourceId → Prop} (hs : P s)
    (step : ∀ {t src parent}, P t → q.source? t = some src → src.parent? = some parent → P parent) :
    ∀ t ∈ q.lineage s, P t := by
  induction s using Nat.strongRecOn with
  | _ s ih =>
    intro t ht
    rw [lineage] at ht
    split at ht
    · rename_i parent hpar
      obtain ⟨src, hsrc, hp⟩ := Option.bind_eq_some_iff.1 hpar
      split at ht
      · rename_i hlt
        rcases List.mem_cons.1 ht with rfl | ht
        · exact hs
        · exact ih parent hlt (step hs hsrc hp) t ht
      · obtain rfl := List.mem_singleton.1 ht
        exact hs
    · obtain rfl := List.mem_singleton.1 ht
      exact hs

/-- **A lineage goes on up to a root.** -/
theorem mem_lineage_parent (hq : q.Arena) (ht : t ∈ q.lineage s) (hsrc : q.source? t = some src)
    (hp : src.parent? = some parent) : parent ∈ q.lineage s := by
  induction s using Nat.strongRecOn with
  | _ s ih =>
    rw [lineage] at ht ⊢
    split at ht
    · rename_i above habove
      split at ht
      · rename_i hlt
        rw [if_pos hlt]
        rcases List.mem_cons.1 ht with rfl | ht
        · obtain rfl : above = parent := by simpa [hsrc, hp] using habove.symm
          exact List.mem_cons_of_mem _ (self_mem_lineage q above)
        · exact List.mem_cons_of_mem _ (ih above hlt ht)
      · -- a lineage stops at a parent that is no smaller, and there is none
        rename_i hge
        obtain rfl := List.mem_singleton.1 ht
        obtain rfl : above = parent := by simpa [hsrc, hp] using habove.symm
        exact absurd (hq.parent hsrc hp).1 hge
    · rename_i hnone
      obtain rfl := List.mem_singleton.1 ht
      simp [hsrc, hp] at hnone

end EntityFilter.Query
