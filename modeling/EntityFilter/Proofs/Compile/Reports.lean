import EntityFilter.Proofs.Compile.Building
import EntityFilter.Proofs.Query.Forest

/-!
# What a drop of joins reports

To drop the unused joins of a query reports their numbers. The flag that a source is dropped is not
among what makes a join unused, so a join that was dropped earlier is reported again, as long as no
predicate reads it.

* `Query.Drops`: a source that goes with the next drop.
* `Query.mem_unusedJoins_iff_drops`: what a report is made of.
* `Source.Ages`, `Query.Keeps`: what happens to a source in a run, and to all sources of a query.
* `Context.Compiles.keeps`, `Query.keeps_compile`: a compilation does no more to them.
* `Query.Leads`: the operations lead from one query to another one.
* `Query.Keeps.reported`: what was reported is not dropped again, and it is reported again until it
  is marked.
-/

namespace EntityFilter

namespace Query

variable {q q' : Query} {s : SourceId} {src : Source}

/-- **A source is live**: its selection has it among the sources that are not dropped. -/
def Live (q : Query) (s : SourceId) : Prop :=
  ∃ scope, s ∈ q.activeIn scope

/-- **A source goes with the next drop**: it is live before and is not live after. -/
def Drops (q : Query) (s : SourceId) : Prop :=
  q.Live s ∧ ¬ q.discardUnused.Live s

/-- A source that was dropped keeps its number. -/
def Dropped (q : Query) (s : SourceId) : Prop :=
  s < q.nextSource ∧ ¬ q.Live s

theorem live_iff (h : q.source? s = some src) : q.Live s ↔ src.active := by
  constructor
  · rintro ⟨scope, hs⟩
    exact ((mem_activeIn_iff h).1 hs).2
  · intro hactive
    exact ⟨src.scope, (mem_activeIn_iff h).2 ⟨rfl, hactive⟩⟩

theorem Live.exists_source (h : q.Live s) : ∃ src, q.source? s = some src ∧ src.active := by
  obtain ⟨scope, hs⟩ := h
  obtain ⟨src, hsrc, -, hactive⟩ := mem_activeIn.1 hs
  exact ⟨src, hsrc, hactive⟩

/-- What is live after a drop was live before and was not unused. -/
theorem live_discardUnused (h : q.source? s = some src) :
    q.discardUnused.Live s ↔ src.active ∧ ¬ src.isUnused := by
  obtain ⟨src', hsrc', -⟩ := (Grows.discardUnused q).kept h
  obtain ⟨old, hold, -, -, hactive⟩ := source_of_discardUnused hsrc'
  obtain rfl : old = src := Option.some.inj (hold.symm.trans h)
  rw [live_iff hsrc', hactive]

theorem drops_iff (h : q.source? s = some src) : q.Drops s ↔ src.active ∧ src.isUnused := by
  rw [Drops, live_iff h, live_discardUnused h]
  tauto

theorem isUnused_iff : src.isUnused ↔
    src.scope = .outer ∧ src.parent?.isSome ∧ ¬ src.referenced := by
  simp [Source.isUnused, and_assoc]

/-- A source that was dropped is a join of the outer selection: roots and the sources of sub-queries
are never dropped. -/
theorem Arena.outer_of_dropped (hq : q.Arena) (h : q.source? s = some src) (hd : ¬ src.active) :
    src.scope = .outer ∧ src.parent?.isSome := by
  have houter : src.scope = .outer := by
    cases hscope : src.scope with
    | outer => rfl
    | subquery sub => exact absurd (hq.inner h hscope).2 hd
  refine ⟨houter, ?_⟩
  cases hparent : src.parent? with
  | some parent => rfl
  | none =>
    obtain ⟨marked, hroot⟩ := hq.root
    obtain rfl := hq.outerRoot h houter hparent
    obtain rfl := Option.some.inj (hroot.symm.trans h)
    exact absurd rfl hd

/-- **A report consists of what goes with the drop and of what was dropped before and is not read.**
-/
theorem mem_unusedJoins_iff_drops (hq : q.Arena) (s : SourceId) :
    s ∈ q.unusedJoins ↔ q.Drops s ∨ q.Dropped s ∧ ¬ q.Marked s := by
  by_cases hlt : s < q.nextSource
  · obtain ⟨src, hsrc⟩ := exists_source hlt
    have hmarked : q.Marked s ↔ src.scope = .outer ∧ src.referenced := by
      simp [Marked, hsrc]
    rw [mem_unusedJoins_iff hsrc, drops_iff hsrc, Dropped, live_iff hsrc, hmarked]
    -- what is live is reported if it goes, and what was dropped if it is not marked
    by_cases hactive : src.active
    · simp [hactive]
    · obtain ⟨houter, hjoin⟩ := hq.outer_of_dropped hsrc hactive
      rw [isUnused_iff]
      simp [hactive, houter, hjoin, hlt]
  · -- no source, no report
    have hnone : q.source? s = none := List.getElem?_eq_none (Nat.le_of_not_lt hlt)
    have hlive : ¬ q.Live s := fun h => by
      obtain ⟨src, hsrc, -⟩ := h.exists_source
      exact hlt (source?_lt hsrc)
    simp [unusedJoins, mem_sourcesWhere, hnone, Drops, Dropped, hlive, hlt]

end Query

/-! ## Sources in a run -/

/-- **What happens to a source in a run**: it ranges over the same and stays in its selection, its
mark stays, and so does that it is dropped. -/
structure Source.Ages (src src' : Source) : Prop where
  kind : src'.kind = src.kind
  scope : src'.scope = src.scope
  referenced : src.referenced → src'.referenced
  active : src'.active → src.active

theorem Source.Ages.refl (src : Source) : src.Ages src :=
  ⟨rfl, rfl, id, id⟩

theorem Source.Ages.trans {src src' src'' : Source} (h : src.Ages src') (h' : src'.Ages src'') :
    src.Ages src'' where
  kind := h'.kind.trans h.kind
  scope := h'.scope.trans h.scope
  referenced := h'.referenced ∘ h.referenced
  active := h.active ∘ h'.active

/-- **All sources stay**, and no more happens to them than happens in a run. -/
def Query.Keeps (q q' : Query) : Prop :=
  ∀ ⦃s src⦄, q.source? s = some src → ∃ src', q'.source? s = some src' ∧ src.Ages src'

namespace Query

variable {q q' q'' : Query} {s : SourceId}

namespace Keeps

theorem refl (q : Query) : q.Keeps q :=
  fun _ src h => ⟨src, h, .refl src⟩

theorem trans (h : q.Keeps q') (h' : q'.Keeps q'') : q.Keeps q'' := by
  intro s src hsrc
  obtain ⟨src', hsrc', hages⟩ := h hsrc
  obtain ⟨src'', hsrc'', hages'⟩ := h' hsrc'
  exact ⟨src'', hsrc'', hages.trans hages'⟩

/-- A new source leaves the others alone. -/
theorem of_new {new : Source}
    (hs : ∀ s, q'.source? s = if s = q.nextSource then some new else q.source? s) :
    q.Keeps q' := by
  intro s src hsrc
  refine ⟨src, ?_, .refl src⟩
  rw [hs, if_neg (Nat.ne_of_lt (source?_lt hsrc)), hsrc]

theorem join (q : Query) (parent : SourceId) (relation : Attribute) (kind : JoinKind) :
    q.Keeps (q.join parent relation kind) :=
  of_new (source?_join q parent relation kind)

theorem openSubquery (q : Query) (entity : String) : q.Keeps (q.openSubquery entity) :=
  of_new (source?_openSubquery q entity)

theorem restrict (q : Query) (sub : SubqueryId) (p : Predicate) : q.Keeps (q.restrict sub p) :=
  refl q

theorem markReferenced (q : Query) (read : SourceId) : q.Keeps (q.markReferenced read) := by
  intro s src hsrc
  refine ⟨_, by rw [source?_markReferenced, hsrc]; rfl, ?_⟩
  split
  · exact ⟨rfl, rfl, fun _ => rfl, id⟩
  · exact .refl src

theorem markAll (q : Query) (ss : List SourceId) : q.Keeps (q.markAll ss) := by
  induction ss generalizing q with
  | nil => exact refl q
  | cons s ss ih => exact (markReferenced q s).trans (ih _)

theorem discardUnused (q : Query) : q.Keeps q.discardUnused := by
  intro s src hsrc
  refine ⟨_, by rw [source?_discardUnused, hsrc]; rfl, ?_⟩
  dsimp only
  split
  · exact ⟨rfl, rfl, id, fun h => by cases h⟩
  · exact .refl src

/-- **What was reported is not dropped again, and it is reported again until it is marked.** -/
theorem reported (h : q.discardUnused.Keeps q') (hs : s ∈ q.unusedJoins) :
    ¬ q'.Drops s ∧ (s ∈ q'.unusedJoins ↔ ¬ q'.Marked s) := by
  obtain ⟨src, hsrc, hunused⟩ := mem_sourcesWhere.1 hs
  obtain ⟨houter, hjoin, -⟩ := isUnused_iff.1 hunused
  obtain ⟨dropped, hdropped, hages⟩ := Keeps.discardUnused q hsrc
  obtain ⟨src', hsrc', hages'⟩ := h hdropped
  -- it has gone with this drop at the latest, and stays dropped
  have hgone : ¬ dropped.active := by
    rw [← live_iff hdropped, live_discardUnused hsrc]
    exact fun hlive => hlive.2 hunused
  have hgone' : ¬ src'.active := fun hactive => hgone (hages'.active hactive)
  -- it is the same join of the outer selection still
  have hages : src.Ages src' := hages.trans hages'
  have houter' : src'.scope = .outer := hages.scope.trans houter
  have hjoin' : src'.parent?.isSome := by
    rw [Source.parent?_congr hages.kind]
    exact hjoin
  have hmarked : q'.Marked s ↔ src'.referenced := by
    simp [Marked, hsrc', houter']
  constructor
  · rw [drops_iff hsrc']
    exact fun hdrops => hgone' hdrops.1
  · rw [mem_unusedJoins_iff hsrc', isUnused_iff, hmarked]
    simp [houter', hjoin']

end Keeps

end Query

open Query

namespace Progress

variable {p p' : Progress} {start s last : SourceId} {relation : Attribute}
  {joins : List Attribute}

theorem keeps_join (h : p.join start relation = (s, p')) : p.query.Keeps p'.query := by
  rcases join_cases h with ⟨-, hquery, -⟩ | ⟨rfl, -⟩
  · exact hquery ▸ .join p.query start relation .left
  · exact .refl _

theorem keeps_joinAll (h : joinAll start joins p = (last, p')) : p.query.Keeps p'.query := by
  induction joins generalizing p start with
  | nil =>
    obtain ⟨-, rfl⟩ := Prod.mk.inj h
    exact .refl _
  | cons relation rest ih =>
    obtain ⟨s, p₁, hjoin⟩ : ∃ s p₁, p.join start relation = (s, p₁) := ⟨_, _, rfl⟩
    rw [joinAll, hjoin] at h
    exact (keeps_join hjoin).trans (ih h)

theorem keeps_cleared (p : Progress) : p.query.Keeps p.cleared.query := by
  unfold cleared
  split
  · exact .refl _
  · exact .discardUnused p.query

/-- **A negation** may drop joins, opens a sub-query, joins its path below the root of that, and
restricts it. -/
theorem keeps_excludeRelated {st : Settings} {c : Clause} {d : Demand} {predicate : Predicate}
    (h : p.excludeRelated st c joins d = (predicate, p')) : p.query.Keeps p'.query := by
  have hclear : p.query.Keeps p.cleared.query := keeps_cleared p
  have hopen : p.cleared.query.Keeps p.cleared.opened.query := .openSubquery _ _
  obtain ⟨last, p₁, hjoin⟩ :
      ∃ last p₁, joinAll p.cleared.query.nextSource joins p.cleared.opened = (last, p₁) :=
    ⟨_, _, rfl⟩
  have hjoins : p.cleared.opened.query.Keeps p₁.query := keeps_joinAll hjoin
  simp only [excludeRelated, ← cleared.eq_1, ← opened.eq_1, hjoin] at h
  obtain ⟨-, rfl⟩ := Prod.mk.inj h
  have hadded : p.query.Keeps p₁.query := (hclear.trans hopen).trans hjoins
  exact hadded.trans (.restrict p₁.query _ _)

end Progress

namespace Context

variable {ctx : Context} {p p' : Progress} {fs : List Filter} {ps : List Predicate}

theorem keeps_finish {clause : Clause} {joins : List Attribute} {last : SourceId}
    {predicate : Predicate} (h : ctx.finish clause joins last p = (predicate, p')) :
    p.query.Keeps p'.query := by
  unfold finish at h
  dsimp only at h
  split at h
  · obtain ⟨-, rfl⟩ := Prod.mk.inj h
    exact .markAll p.query _
  · have hexclude := Progress.keeps_excludeRelated h
    exact hexclude

/-- **A run keeps all sources.** -/
theorem Compiles.keeps (h : ctx.Compiles fs p ps p') : p.query.Keeps p'.query := by
  induction h with
  | nil => exact .refl _
  | and _ _ ih ihr => exact ih.trans ihr
  | or _ _ ih ihr => exact ih.trans ihr
  | comparison _ hj hf _ ihr =>
    have hjoins := Progress.keeps_joinAll hj
    have hdone := keeps_finish hf
    exact (hjoins.trans hdone).trans ihr
  | unrecognized _ ihr => exact ihr

theorem Begins.keeps {c : Comparison} {aside aside' : List Shared}
    (h : ctx.Begins fs p aside c p' aside') : p.query.Keeps p'.query := by
  induction h with
  | here => exact .refl _
  | and _ ih => exact ih
  | or _ ih => exact ih
  | later hf _ ih => exact hf.keeps.trans ih

end Context

namespace Query

variable {q q' : Query}

/-- A compilation keeps all sources, whether it fails or not. -/
theorem keeps_compile (q : Query) (ctx : Context) (f : Filter) : q.Keeps (q.compile ctx f).2 := by
  unfold compile
  split
  · exact .refl q
  · split
    · rename_i o p' hrun
      have hkeeps := (Context.compiles_of_ok f hrun).keeps
      exact hkeeps.trans (.discardUnused p'.query)
    · rename_i e p' hrun
      -- it stops at the comparison that fails, when the path of this has been joined
      obtain ⟨c, p, aside, hbegins, -, rfl⟩ := Context.begins_of_error f hrun [] []
      exact hbegins.keeps.trans (Progress.keeps_joinAll rfl)

/-- **Operations lead from one query to another one**, compilations among them, in any order. -/
inductive Leads (q : Query) : Query → Prop
  | refl : Leads q q
  | join {q' : Query} (parent : SourceId) (relation : Attribute) (kind : JoinKind)
      (h : Leads q q') : Leads q (q'.join parent relation kind)
  | openSubquery {q' : Query} (entity : String) (h : Leads q q') : Leads q (q'.openSubquery entity)
  | restrict {q' : Query} (sub : SubqueryId) (p : Predicate) (h : Leads q q') :
      Leads q (q'.restrict sub p)
  | markReferenced {q' : Query} (s : SourceId) (h : Leads q q') : Leads q (q'.markReferenced s)
  | discardUnused {q' : Query} (h : Leads q q') : Leads q q'.discardUnused
  | compile {q' : Query} (ctx : Context) (f : Filter) (h : Leads q q') :
      Leads q (q'.compile ctx f).2

theorem Leads.keeps (h : q.Leads q') : q.Keeps q' := by
  induction h with
  | refl => exact .refl q
  | join parent relation kind _ ih => exact ih.trans (.join _ parent relation kind)
  | openSubquery entity _ ih => exact ih.trans (.openSubquery _ entity)
  | restrict sub p _ ih => exact ih.trans (.restrict _ sub p)
  | markReferenced s _ ih => exact ih.trans (.markReferenced _ s)
  | discardUnused _ ih => exact ih.trans (.discardUnused _)
  | compile ctx f _ ih => exact ih.trans (keeps_compile _ ctx f)

/-- **What a drop of joins reports**, on a query that compilations and other operations reach. No
number stands twice in a report. The report consists of the sources that go with the drop and of
those that were dropped before and are not marked; so it is the former alone exactly if whatever was
dropped before has been marked since. Whatever the operations do afterwards, a source that was
reported does not go again, and a later drop reports it again exactly if it is not marked then. -/
theorem Reached.reports (hq : q.Reached) :
    q.unusedJoins.Nodup ∧
      (∀ s, s ∈ q.unusedJoins ↔ q.Drops s ∨ q.Dropped s ∧ ¬ q.Marked s) ∧
      ((∀ s, s ∈ q.unusedJoins ↔ q.Drops s) ↔ ∀ s, q.Dropped s → q.Marked s) ∧
      ∀ q', q.discardUnused.Leads q' → ∀ s ∈ q.unusedJoins,
        ¬ q'.Drops s ∧ (s ∈ q'.unusedJoins ↔ ¬ q'.Marked s) := by
  have hmem := mem_unusedJoins_iff_drops hq.built.arena
  refine ⟨List.nodup_range.filter _, hmem, ⟨fun hall s hdropped => ?_, fun hall s => ?_⟩,
    fun q' hleads s hs => hleads.keeps.reported hs⟩
  · -- what is not marked would be reported, though it is not live
    by_contra hmarked
    have hdrops : q.Drops s := (hall s).1 ((hmem s).2 (Or.inr ⟨hdropped, hmarked⟩))
    exact hdropped.2 hdrops.1
  · rw [hmem s]
    constructor
    · rintro (hdrops | ⟨hdropped, hmarked⟩)
      · exact hdrops
      · exact absurd (hall s hdropped) hmarked
    · exact Or.inl

end Query

namespace Shop

open Query

/-- Orders joined to their items. -/
def itemsJoined : Query :=
  (recordsOf "Order").join 0 ⟨"items", .collection "Item"⟩ .left

/-- Orders whose join to the items was dropped, joined to their items anew. -/
def itemsRejoined : Query :=
  itemsJoined.discardUnused.join 0 ⟨"items", .collection "Item"⟩ .left

theorem reached_itemsJoined : itemsJoined.Reached :=
  .join _ _ (.start "Order") (by decide)

theorem reached_itemsRejoined : itemsRejoined.Reached :=
  .join _ _ (.discardUnused reached_itemsJoined) (by decide)

/-- The second join goes with the drop and is reported with the first one. When the first one has
been marked, the next drop reports the second one alone. -/
theorem itemsRejoined_reports :
    itemsRejoined.Reached ∧ itemsRejoined.unusedJoins = [1, 2] ∧
      itemsRejoined.Dropped 1 ∧ itemsRejoined.Drops 2 ∧
      itemsRejoined.discardUnused.Leads (itemsRejoined.discardUnused.markReferenced 1) ∧
      1 ∉ (itemsRejoined.discardUnused.markReferenced 1).unusedJoins ∧
      2 ∈ (itemsRejoined.discardUnused.markReferenced 1).unusedJoins := by
  have hreports : itemsRejoined.unusedJoins = [1, 2] := by rfl
  have hleads : itemsRejoined.discardUnused.Leads
      (itemsRejoined.discardUnused.markReferenced 1) := .markReferenced 1 .refl
  have hmarked : itemsRejoined.discardUnused.markReferenced 1 =
      (itemsRejoined.discardUnused.note 1).note 0 := by
    have harena : itemsRejoined.discardUnused.Arena :=
      reached_itemsRejoined.discardUnused.built.arena
    rw [markReferenced_of_join harena rfl rfl, markReferenced_of_root rfl rfl]
  obtain ⟨-, hmem, -, hlater⟩ := reached_itemsRejoined.reports
  have hdropped : itemsRejoined.Dropped 1 := by
    refine ⟨by decide, ?_⟩
    rw [live_iff rfl]
    decide
  have hdrops : itemsRejoined.Drops 2 := by
    have hlive : itemsRejoined.Live 2 := by
      rw [live_iff rfl]
    have hreported : 2 ∈ itemsRejoined.unusedJoins := by simp [hreports]
    exact ((hmem 2).1 hreported).resolve_right fun h => h.1.2 hlive
  -- what the next drop reports of the two follows from their marks
  have hone := (hlater _ hleads 1 (by simp [hreports])).2
  have htwo := (hlater _ hleads 2 (by simp [hreports])).2
  rw [hmarked] at hone htwo
  refine ⟨reached_itemsRejoined, hreports, hdropped, hdrops, hleads, ?_, ?_⟩
  · rw [hmarked, hone]
    exact fun hread => hread ⟨_, rfl, rfl, rfl⟩
  · rw [hmarked, htwo]
    rintro ⟨src, hsrc, -, hread⟩
    obtain rfl := Option.some.inj hsrc
    cases hread

/-- **A join is reported twice**: the first drop drops it, and the second one reports it again,
though it was dropped before. -/
theorem itemsJoined_reportedTwice :
    itemsJoined.discardUnused.Reached ∧ itemsJoined.Drops 1 ∧ itemsJoined.unusedJoins = [1] ∧
      itemsJoined.discardUnused.unusedJoins = [1] ∧ ¬ itemsJoined.discardUnused.Live 1 ∧
      ¬ itemsJoined.discardUnused.Drops 1 := by
  have hgone : ¬ itemsJoined.discardUnused.Live 1 := by
    rw [live_iff rfl]
    decide
  have hdrops : itemsJoined.Drops 1 := by
    refine ⟨?_, hgone⟩
    rw [live_iff rfl]
  exact ⟨.discardUnused reached_itemsJoined, hdrops, by rfl, by rfl, hgone, fun h => hgone h.1⟩

end Shop

end EntityFilter
