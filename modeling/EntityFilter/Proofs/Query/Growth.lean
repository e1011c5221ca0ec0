import EntityFilter.Proofs.Query.Flags

/-!
# Growing queries

A compilation only adds to a query, marks sources and drops outer joins that nothing reads.

* `Query.Grows`: sources keep what they range over, marks stay, and so do the restrictions of
  sub-queries.
* `Query.Sound`: no source that is read, and none above it, is dropped.
* `Sound.join`, `Sound.openSubquery`, `Sound.restrict`, `Sound.markAll`, `Sound.discardUnused`:
  what a compilation does to a query keeps it sound.
-/

namespace EntityFilter.Query

variable {q q' q'' : Query} {s t parent : SourceId} {src psrc : Source} {sub : SubqueryId}

theorem restriction_restrict (hsub : sub < q.nextSubquery) (p : Predicate) :
    (q.restrict sub p).restriction sub = p := by
  have : q.subqueries[sub]? = some (q.subqueries.get ⟨sub, hsub⟩) := List.getElem?_eq_getElem hsub
  simp [restriction, restrict, this]

/-- A sub-query that is opened has no restriction, and one that there is not has none either. -/
theorem restriction_openSubquery (q : Query) (entity : String) (sub : SubqueryId) :
    (q.openSubquery entity).restriction sub = q.restriction sub := by
  simp only [restriction, openSubquery, List.getElem?_append, List.getElem?_singleton]
  split
  · rfl
  · rw [List.getElem?_eq_none (Nat.le_of_not_lt ‹¬sub < q.subqueries.length›)]
    split <;> rfl

/-- **A query has grown to another one.** -/
structure Grows (q q' : Query) : Prop where
  entity : q'.entity = q.entity
  kept : ∀ {s src}, q.source? s = some src → ∃ src', q'.source? s = some src' ∧
    src'.kind = src.kind ∧ src'.scope = src.scope ∧ (src.referenced → src'.referenced)
  subqueries : q.nextSubquery ≤ q'.nextSubquery
  restriction : ∀ sub, sub < q.nextSubquery → q'.restriction sub = q.restriction sub

namespace Grows

theorem refl (q : Query) : q.Grows q :=
  ⟨rfl, fun {_ src} h => ⟨src, h, rfl, rfl, id⟩, Nat.le_refl _, fun _ _ => rfl⟩

theorem trans (h : q.Grows q') (h' : q'.Grows q'') : q.Grows q'' where
  entity := h'.entity.trans h.entity
  kept := by
    intro s src hs
    obtain ⟨src', hs', hk, hsc, hr⟩ := h.kept hs
    obtain ⟨src'', hs'', hk', hsc', hr'⟩ := h'.kept hs'
    exact ⟨src'', hs'', hk'.trans hk, hsc'.trans hsc, hr' ∘ hr⟩
  subqueries := Nat.le_trans h.subqueries h'.subqueries
  restriction := fun sub hsub =>
    (h'.restriction sub (Nat.lt_of_lt_of_le hsub h.subqueries)).trans (h.restriction sub hsub)

theorem nextSource_le (h : q.Grows q') : q.nextSource ≤ q'.nextSource := by
  refine Nat.le_of_not_lt fun hlt => ?_
  obtain ⟨src, hs⟩ := exists_source hlt
  obtain ⟨src', hs', -⟩ := h.kept hs
  exact Nat.lt_irrefl _ (source?_lt hs')

theorem join (q : Query) (parent : SourceId) (relation : Attribute) (kind : JoinKind) :
    q.Grows (q.join parent relation kind) where
  entity := rfl
  kept := fun {s src} hs => ⟨src, by
    rw [source?_join, if_neg (Nat.ne_of_lt (source?_lt hs)), hs], rfl, rfl, id⟩
  subqueries := Nat.le_refl _
  restriction := fun _ _ => rfl

theorem openSubquery (q : Query) (entity : String) : q.Grows (q.openSubquery entity) where
  entity := rfl
  kept := fun {s src} hs => ⟨src, by
    rw [source?_openSubquery, if_neg (Nat.ne_of_lt (source?_lt hs)), hs], rfl, rfl, id⟩
  subqueries := by simp
  restriction := fun sub _ => restriction_openSubquery q entity sub

/-- A sub-query may be restricted if it is a new one. -/
theorem restrict (h : q.Grows q') (hsub : q.nextSubquery ≤ sub) (p : Predicate) :
    q.Grows (q'.restrict sub p) where
  entity := h.entity
  kept := h.kept
  subqueries := by simpa using h.subqueries
  restriction := fun sub' hsub' => by
    have hne : sub ≠ sub' := Nat.ne_of_gt (Nat.lt_of_lt_of_le hsub' hsub)
    rw [← h.restriction sub' hsub']
    simp [Query.restriction, Query.restrict, hne]

theorem markReferenced (q : Query) (s : SourceId) : q.Grows (q.markReferenced s) where
  entity := rfl
  kept := fun {t src} ht => by
    refine ⟨_, by rw [source?_markReferenced, ht]; rfl, ?_⟩
    split <;> simp
  subqueries := Nat.le_refl _
  restriction := fun _ _ => rfl

theorem markAll (q : Query) (ss : List SourceId) : q.Grows (q.markAll ss) := by
  induction ss generalizing q with
  | nil => exact refl q
  | cons s ss ih => exact (markReferenced q s).trans (ih _)

theorem discardUnused (q : Query) : q.Grows q.discardUnused where
  entity := rfl
  kept := fun {t src} ht => by
    refine ⟨_, by rw [source?_discardUnused, ht]; rfl, ?_⟩
    dsimp only
    split <;> simp
  subqueries := Nat.le_refl _
  restriction := fun _ _ => rfl

/-- The sources of a sub-query stay. -/
theorem mem_inner (h : q.Grows q') (hq' : q'.Arena) (hs : s ∈ q.activeIn (.subquery sub)) :
    s ∈ q'.activeIn (.subquery sub) := by
  obtain ⟨src, hsrc, hsc, -⟩ := mem_activeIn.1 hs
  obtain ⟨src', hsrc', -, hsc', -⟩ := h.kept hsrc
  have hin : src'.scope = .subquery sub := hsc'.trans hsc
  exact mem_activeIn.2 ⟨src', hsrc', hin, (hq'.inner hsrc' hin).2⟩

/-- A source hangs below the same sources as before. -/
theorem lineage (h : q.Grows q') (hq : q.Arena) (hs : s < q.nextSource) :
    q'.lineage s = q.lineage s := by
  induction s using Nat.strongRecOn with
  | _ s ih =>
    obtain ⟨src, hsrc⟩ := exists_source hs
    obtain ⟨src', hsrc', hk, -⟩ := h.kept hsrc
    have hparent := Source.parent?_congr hk
    rw [Query.lineage.eq_def q', Query.lineage.eq_def q, hsrc, hsrc', Option.bind_some,
      Option.bind_some, hparent]
    cases hp : src.parent? with
    | none => rfl
    | some parent =>
      have hlt := (hq.parent hsrc hp).1
      simp only [if_pos hlt, ih parent hlt (Nat.lt_trans hlt hs)]

end Grows

/-- **No source that is read, and none above it, is dropped.** -/
structure Sound (q : Query) : Prop extends Arena q where
  /-- The parents of sources that are not dropped are not dropped. -/
  parentActive : q.ParentsActive
  /-- Marks go up to the root. -/
  parentReferenced : ∀ {s src parent psrc}, q.source? s = some src → src.referenced →
    src.parent? = some parent → q.source? parent = some psrc → psrc.referenced
  /-- Only sources that are not dropped are marked. -/
  marked : ∀ {s src}, q.source? s = some src → src.referenced → src.active
  left : ∀ {s src parent relation kind}, q.source? s = some src →
    src.kind = .join parent relation kind → kind = .left
  /-- Restrictions read the root of the outer selection and the sources of their sub-query. -/
  inside : ∀ sub, ∀ s ∈ (q.restriction sub).reads,
    s = Query.root ∨ s ∈ q.activeIn (.subquery sub)
  /-- Restrictions ask for no sub-query. -/
  flat : ∀ sub, (q.restriction sub).subqueries = []

theorem sound_recordsOf (entity : String) : (recordsOf entity).Sound := by
  have only : ∀ {s src}, (recordsOf entity).source? s = some src →
      src = ⟨.root entity, .outer, true, true⟩ := fun h => (source?_recordsOf h).2
  exact {
    toArena := arena_recordsOf entity
    parentActive := fun _ _ _ _ _ _ _ hps => by rw [only hps]
    parentReferenced := fun _ _ _ hps => by rw [only hps]
    marked := fun h _ => by rw [only h]
    left := fun h hk => by rw [only h] at hk; cases hk
    inside := by simp [restriction, recordsOf, Predicate.reads]
    flat := fun _ => rfl }

namespace Sound

/-- The restrictions that stay read what they may still read. -/
theorem inside_of_grows (hq : q.Sound) (hg : q.Grows q') (hq' : q'.Arena)
    (h : q'.restriction sub = q.restriction sub) :
    ∀ s ∈ (q'.restriction sub).reads, s = Query.root ∨ s ∈ q'.activeIn (.subquery sub) := by
  rw [h]
  exact fun s hs => (hq.inside sub s hs).imp id (hg.mem_inner hq')

theorem closedUp_referenced (hq : q.Sound) : q.ClosedUp Source.referenced :=
  fun _ _ _ _ hs hr hp hps => hq.parentReferenced hs hr hp hps

theorem readActive (hq : q.Sound) : q.ReadActive :=
  fun _ _ hs hr => hq.marked hs hr

/-- A sound query stays sound when a source is added that fits below the others. -/
theorem of_new {new : Source} (hq : q.Sound) (hg : q.Grows q') (hq' : q'.Arena)
    (hs : ∀ s, q'.source? s = if s = q.nextSource then some new else q.source? s)
    (hact : new.active) (hleft : ∀ parent relation kind, new.kind = .join parent relation kind →
      kind = .left ∧ new.referenced = false ∧ ∀ psrc, q.source? parent = some psrc → psrc.active)
    (hrestr : ∀ sub, q'.restriction sub = q.restriction sub) : q'.Sound := by
  have hpar : q.ClosedUp Source.active := hq.parentActive
  constructor
  · exact hq'
  · refine hpar.of_new hq' hs fun parent psrc _ hp hps => ?_
    obtain ⟨relation, kind, hk⟩ := Source.exists_join hp
    exact (hleft _ _ _ hk).2.2 psrc hps
  · have hup : q'.ClosedUp Source.referenced := by
      refine hq.closedUp_referenced.of_new hq' hs fun parent psrc hr hp _ => ?_
      obtain ⟨relation, kind, hk⟩ := Source.exists_join hp
      rw [(hleft _ _ _ hk).2.1] at hr
      cases hr
    exact @hup
  · have hread := hq.readActive.of_new hs hact
    exact @hread
  · intro s src par relation kind h hk
    rcases old_or_new hs h with h | ⟨-, rfl⟩
    · exact hq.left h hk
    · exact (hleft _ _ _ hk).1
  · exact fun sub => hq.inside_of_grows hg hq' (hrestr sub)
  · exact fun sub => by rw [hrestr sub, hq.flat sub]

/-- A join may be added below a source that is not dropped. -/
theorem join (hq : q.Sound) (hp : q.source? parent = some psrc) (hact : psrc.active)
    (relation : Attribute) : (q.join parent relation .left).Sound := by
  refine hq.of_new (.join q parent relation .left) (hq.toArena.join (source?_lt hp) _ _)
    (source?_join q parent relation .left) rfl ?_ fun _ => rfl
  rintro _ _ _ ⟨⟩
  refine ⟨rfl, rfl, fun psrc' hps => ?_⟩
  obtain rfl : psrc' = psrc := Option.some.inj (hps.symm.trans hp)
  exact hact

theorem openSubquery (hq : q.Sound) (entity : String) : (q.openSubquery entity).Sound := by
  exact hq.of_new (.openSubquery q entity) (hq.toArena.openSubquery entity)
    (source?_openSubquery q entity) rfl (fun _ _ _ hk => by cases hk)
    (restriction_openSubquery q entity)

/-- A sub-query may be restricted by what reads the outer root and its own sources. -/
theorem restrict (hq : q.Sound) {p : Predicate}
    (hp : ∀ s ∈ p.reads, s = Query.root ∨ s ∈ q.activeIn (.subquery sub))
    (hflat : p.subqueries = []) : (q.restrict sub p).Sound := by
  have restr : ∀ sub', (q.restrict sub p).restriction sub' = q.restriction sub' ∨
      sub' = sub ∧ (q.restrict sub p).restriction sub' = p := by
    intro sub'
    simp only [Query.restriction, Query.restrict, List.getElem?_modify]
    by_cases he : sub = sub'
    · subst he
      cases q.subqueries[sub]? with
      | none => exact Or.inl rfl
      | some old => exact Or.inr ⟨rfl, by simp⟩
    · exact Or.inl (by simp [he])
  exact {
    toArena := hq.toArena.restrict sub p
    parentActive := hq.parentActive
    parentReferenced := hq.parentReferenced
    marked := hq.marked
    left := hq.left
    inside := fun sub' => by
      rcases restr sub' with h | ⟨rfl, h⟩
      · rw [h]; exact hq.inside sub'
      · rw [h]; exact hp
    flat := fun sub' => by
      rcases restr sub' with h | ⟨rfl, h⟩
      · rw [h]; exact hq.flat sub'
      · rw [h]; exact hflat }

/-- **What a source hangs below is not dropped**, and belongs to the same selection. -/
theorem lineage_active (hq : q.Sound) {scope : Scope} (hs : s ∈ q.activeIn scope) :
    ∀ a ∈ q.lineage s, a ∈ q.activeIn scope :=
  Query.lineage_active hq.toArena hq.parentActive hs

theorem markReferenced (hq : q.Sound) (hs : s ∈ q.activeIn .outer) :
    (q.markReferenced s).Sound := by
  have hq' := hq.toArena.markReferenced s
  have hpar : q.ClosedUp Source.active := hq.parentActive
  constructor
  · exact hq'
  · refine hpar.of_kept fun h => ?_
    obtain ⟨src, hsrc, hk, hact, -⟩ := source_of_markReferenced h
    exact ⟨src, hsrc, hk, hact⟩
  · have hup := hq.closedUp_referenced.markReferenced hq.toArena s
    exact @hup
  · have hread := hq.readActive.markReferenced hq.toArena hq.parentActive hs
    exact @hread
  · intro t src' par relation kind h hk
    obtain ⟨src, hsrc, hk', -⟩ := source_of_markReferenced h
    exact hq.left hsrc (hk' ▸ hk)
  · exact fun sub => hq.inside_of_grows (.markReferenced q s) hq' rfl
  · exact hq.flat

/-- Dropping keeps a query sound: what is marked stays, and with it all that is above. -/
theorem discardUnused (hq : q.Sound) : q.discardUnused.Sound := by
  have hq' := hq.toArena.discardUnused
  have hpar : q.ClosedUp Source.active := hq.parentActive
  constructor
  · exact hq'
  · exact hpar.discardUnused hq.closedUp_referenced hq.toArena
  · have hup : q.discardUnused.ClosedUp Source.referenced := by
      refine hq.closedUp_referenced.of_kept fun h => ?_
      obtain ⟨src, hsrc, hk, href, -⟩ := source_of_discardUnused h
      exact ⟨src, hsrc, hk, href⟩
    exact @hup
  · have hread := hq.readActive.discardUnused
    exact @hread
  · intro t src' par relation kind h hk
    obtain ⟨src, hsrc, hk', -⟩ := source_of_discardUnused h
    exact hq.left hsrc (hk' ▸ hk)
  · exact fun sub => hq.inside_of_grows (.discardUnused q) hq' rfl
  · exact hq.flat

end Sound

/-! ## Sources that are marked -/

/-- **An outer source that a predicate is known to read.** -/
def Marked (q : Query) (s : SourceId) : Prop :=
  ∃ src, q.source? s = some src ∧ src.scope = .outer ∧ src.referenced

theorem Grows.marked (h : q.Grows q') (hs : q.Marked s) : q'.Marked s := by
  obtain ⟨src, hsrc, hsc, hr⟩ := hs
  obtain ⟨src', hsrc', -, hsc', hr'⟩ := h.kept hsrc
  exact ⟨src', hsrc', hsc'.trans hsc, hr' hr⟩

/-- To drop unused joins does not drop what is marked. -/
theorem Marked.not_unused (hs : q.Marked s) : s ∉ q.unusedJoins := by
  obtain ⟨src, hsrc, -, hr⟩ := hs
  rw [mem_unusedJoins_iff hsrc]
  simp [Source.isUnused, hr]

/-- A marked source is not dropped. -/
theorem Marked.active (hs : q.Marked s) (hq : q.Sound) : s ∈ q.activeIn .outer := by
  obtain ⟨src, hsrc, hsc, hr⟩ := hs
  exact mem_activeIn.2 ⟨src, hsrc, hsc, hq.marked hsrc hr⟩

theorem activeIn_markReferenced (q : Query) (s : SourceId) (scope : Scope) :
    t ∈ (q.markReferenced s).activeIn scope ↔ t ∈ q.activeIn scope := by
  simp only [mem_activeIn, source?_markReferenced, Option.map_eq_some_iff]
  constructor
  · rintro ⟨_, ⟨src, hsrc, rfl⟩, h⟩
    refine ⟨src, hsrc, ?_⟩
    split at h <;> exact h
  · rintro ⟨src, hsrc, h⟩
    refine ⟨_, ⟨src, hsrc, rfl⟩, ?_⟩
    split <;> exact h

theorem marked_markReferenced (hq : q.Sound) (hs : s ∈ q.activeIn .outer) (ht : t ∈ q.lineage s) :
    (q.markReferenced s).Marked t := by
  obtain ⟨src, hsrc, hsc, -⟩ := mem_activeIn.1 (hq.lineage_active hs t ht)
  refine ⟨{ src with referenced := true }, ?_, hsc, rfl⟩
  rw [source?_markReferenced, hsrc, Option.map_some, if_pos ht]

/-- **Marking what a predicate reads** keeps the query sound. -/
theorem Sound.markAll (hq : q.Sound) {ss : List SourceId} (h : ∀ s ∈ ss, s ∈ q.activeIn .outer) :
    (q.markAll ss).Sound ∧ ∀ s ∈ ss, ∀ t ∈ q.lineage s, (q.markAll ss).Marked t := by
  induction ss generalizing q with
  | nil => exact ⟨hq, by simp⟩
  | cons s ss ih =>
    obtain ⟨hs, hss⟩ := List.forall_mem_cons.1 h
    obtain ⟨hsound, hmarked⟩ := ih (hq.markReferenced hs) fun t ht =>
      (activeIn_markReferenced q s .outer).2 (hss t ht)
    refine ⟨hsound, List.forall_mem_cons.2 ⟨fun t ht => ?_, fun u hu t ht => hmarked u hu t ?_⟩⟩
    · exact (Grows.markAll _ ss).marked (marked_markReferenced hq hs ht)
    · -- marking does not change lineages
      rw [(Grows.markReferenced q s).lineage hq.toArena (lt_of_mem_activeIn (hss u hu))]
      exact ht

/-! ## Paths of joins -/

/-- **Left joins one below the other**, from a source to the last one. -/
inductive Path (q : Query) : SourceId → List Attribute → SourceId → Prop
  | nil {s : SourceId} : Path q s [] s
  | cons {start s last : SourceId} {relation : Attribute} {rest : List Attribute} {src : Source}
      (hs : q.source? s = some src) (hk : src.kind = .join start relation .left)
      (h : Path q s rest last) : Path q start (relation :: rest) last

/-- A path stays where its joins keep what they range over. -/
theorem Path.of_kept {start last : SourceId} {joins : List Attribute} (hp : q.Path start joins last)
    (h : ∀ {s src}, q.source? s = some src → ∃ src', q'.source? s = some src' ∧
      src'.kind = src.kind) : q'.Path start joins last := by
  induction hp with
  | nil => exact .nil
  | cons hs hk _ ih =>
    obtain ⟨src', hs', hk'⟩ := h hs
    exact .cons hs' (hk'.trans hk) ih

theorem Grows.path (h : q.Grows q') {start last : SourceId} {joins : List Attribute}
    (hp : q.Path start joins last) : q'.Path start joins last :=
  hp.of_kept fun hs =>
    have ⟨src', hs', hk, _⟩ := h.kept hs
    ⟨src', hs', hk⟩

/-- A join hangs below what its parent hangs below. -/
theorem mem_lineage_iff (hq : q.Arena) (hs : q.source? s = some src)
    (hp : src.parent? = some parent) : t ∈ q.lineage s ↔ t = s ∨ t ∈ q.lineage parent := by
  rw [Query.lineage.eq_def q s, hs, Option.bind_some, hp]
  simp only [if_pos (hq.parent hs hp).1, List.mem_cons]

/-- What a source hangs below, the end of a path from it hangs below, too. -/
theorem Path.lineage {start last : SourceId} {joins : List Attribute} (hq : q.Arena)
    (h : q.Path start joins last) (ht : t ∈ q.lineage start) : t ∈ q.lineage last := by
  induction h with
  | nil => exact ht
  | cons hs hk _ ih => exact ih ((mem_lineage_iff hq hs (Source.parent?_of_join hk)).2 (Or.inr ht))

end EntityFilter.Query
