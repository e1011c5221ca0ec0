import EntityFilter.Proofs.Compile.Renumbered

/-!
# What is shared on any query

A compilation may go onto a query that has seen other operations, some of which no compilation would
do. What it shares are joins of its own all the same: they hang below the root, and go through the
attributes by whose names they are found.

* `Query.Anchored`, `Progress.Anchored`: the root stands for the records of the query's entity, and
  what is shared are joins of it.
* `Progress.Advances`: what every step of a compilation leaves as it is, and what it may share in
  addition.
* `Progress.join_advances`: a join, new or shared, reaches what its attribute does.
* `Context.Begins.anchored`, `Query.Reached.anchored`: so it is whenever a comparison is begun, on
  every query.
-/

namespace EntityFilter

open Query

/-- **The root stands for the records of the query's entity.** -/
def Query.Anchored (q : Query) : Prop :=
  ∃ src, q.source? root = some src ∧ src.scope = .outer ∧ src.kind = .root q.entity

theorem Query.Anchored.of_grows {q q' : Query} (h : q.Anchored) (hg : q.Grows q') :
    q'.Anchored := by
  obtain ⟨src, hsrc, hscope, hkind⟩ := h
  obtain ⟨src', hsrc', hkind', hscope', -⟩ := hg.kept hsrc
  exact ⟨src', hsrc', hscope'.trans hscope, by rw [hkind', hkind, hg.entity]⟩

namespace Progress

variable {m : Model} {p p' p'' : Progress} {start s last : SourceId} {relation : Attribute}
  {joins : List Attribute}

/-- **What is shared are joins of the root** through the attributes that they are named by. -/
structure Anchored (m : Model) (p : Progress) : Prop where
  query : p.query.Anchored
  entries : ∀ e ∈ p.entries, p.query.SharedAs m e

/-- **A step of a compilation** adds to the query, and may share a join of the root. -/
structure Advances (m : Model) (p p' : Progress) : Prop where
  grows : p.query.Grows p'.query
  entries : ∀ e ∈ p'.entries, e ∈ p.entries ∨ p'.query.SharedAs m e

theorem Advances.refl (m : Model) (p : Progress) : Advances m p p :=
  ⟨.refl _, fun _ he => Or.inl he⟩

theorem Advances.trans (h : Advances m p p') (h' : Advances m p' p'') : Advances m p p'' where
  grows := h.grows.trans h'.grows
  entries := by
    intro e he
    rcases h'.entries e he with he | he
    · exact (h.entries e he).imp id h'.grows.sharedAs
    · exact Or.inr he

theorem Advances.anchored (h : Advances m p p') (hp : p.Anchored m) : p'.Anchored m where
  query := hp.query.of_grows h.grows
  entries := by
    intro e he
    rcases h.entries e he with he | he
    · exact h.grows.sharedAs (hp.entries e he)
    · exact he

/-- What was shared before may be shared again. -/
theorem Advances.restore (m : Model) (p : Progress) (h : p.query.Grows p'.query) :
    Advances m p { p' with reuse := p.reuse } :=
  ⟨h, fun _ he => Or.inl he⟩

theorem Anchored.sharing {shared : Shared} (h : p.Anchored m) (hs : shared.getD [] = []) :
    Anchored m { p with reuse := shared } :=
  ⟨h.query, fun e he => absurd (hs ▸ show e ∈ shared.getD [] from he) List.not_mem_nil⟩

/-! ## Steps -/

/-- **A join, new or shared, reaches what its attribute does.** -/
theorem join_advances {e : String} (hp : p.Anchored m)
    (he : (p.query.source? start).bind Source.entity? = some e)
    (ha : (m.entity e).attribute? relation.name = some relation)
    (h : p.join start relation = (s, p')) :
    Advances m p p' ∧ (p'.query.source? s).bind Source.entity? = relation.kind.target? := by
  obtain ⟨rsrc, hrsrc, hscope, hkind⟩ := hp.query
  have hentity : start = root → e = p.query.entity := by
    rintro rfl
    have hroot : rsrc.entity? = some p.query.entity := by rw [Source.entity?, hkind]
    rw [hrsrc, Option.bind_some, hroot] at he
    exact (Option.some.inj he).symm
  rcases join_cases h with ⟨rfl, hquery, -, -, hentries⟩ | ⟨rfl, rfl, hmem⟩
  · have hnew : p'.query.source? p.query.nextSource =
        some ⟨.join start relation .left, p.query.scopeOf start, true, false⟩ := by
      rw [hquery, source?_join, if_pos rfl]
    have hgrows : p.query.Grows p'.query := hquery ▸ .join p.query start relation .left
    refine ⟨⟨hgrows, fun entry hentry => ?_⟩, by rw [hnew]; rfl⟩
    rcases hentries with heq | ⟨rfl, heq⟩
    · exact Or.inl (heq ▸ hentry)
    · rw [heq] at hentry
      rcases List.mem_cons.1 hentry with rfl | hentry
      · refine Or.inr ⟨_, relation, hnew, (scopeOf_eq hrsrc).trans hscope, rfl, ?_⟩
        rw [hgrows.entity, ← hentity rfl, ha]
      · exact Or.inl hentry
  · obtain ⟨src, relation', hsrc, -, hk, ha'⟩ := hp.entries _ hmem
    rw [← hentity rfl] at ha'
    obtain rfl : relation' = relation := Option.some.inj (ha'.symm.trans ha)
    refine ⟨.refl m _, ?_⟩
    rw [hsrc, Option.bind_some, Source.entity?, hk]

theorem joinAll_advances (hp : p.Anchored m)
    (hch : m.Chained ((p.query.source? start).bind Source.entity?) joins)
    (h : joinAll start joins p = (last, p')) : Advances m p p' := by
  induction joins generalizing p start with
  | nil =>
    obtain ⟨rfl, rfl⟩ := Prod.mk.inj h
    exact .refl m p
  | cons relation rest ih =>
    obtain ⟨s, p₁, hjoin⟩ : ∃ s p₁, p.join start relation = (s, p₁) := ⟨_, _, rfl⟩
    rw [joinAll, hjoin] at h
    generalize he : (p.query.source? start).bind Source.entity? = o at hch
    cases hch with
    | cons ha _ hrest =>
      obtain ⟨hadv, hreached⟩ := join_advances hp he ha hjoin
      exact hadv.trans (ih (hadv.anchored hp) (hreached ▸ hrest) h)

/-- What the root of a query stands for. -/
theorem Anchored.entity_root (hp : p.Anchored m) :
    (p.query.source? root).bind Source.entity? = some p.query.entity := by
  obtain ⟨src, hsrc, -, hkind⟩ := hp.query
  rw [hsrc, Option.bind_some, Source.entity?, hkind]

theorem cleared_advances (m : Model) (p : Progress) : Advances m p p.cleared := by
  unfold cleared
  split
  · exact .refl m p
  · exact ⟨.discardUnused p.query, fun e he => Or.inl (mem_entries_discardUnused.1 he).1⟩

theorem opened_advances (m : Model) (p : Progress) :
    Advances m p p.opened ∧
      p.opened.query.source? p.query.nextSource =
        some ⟨.root p.query.entity, .subquery p.query.nextSubquery, true, true⟩ := by
  refine ⟨⟨.openSubquery p.query p.query.entity, fun _ he => Or.inl he⟩, ?_⟩
  rw [opened, source?_openSubquery, if_pos rfl]

theorem excludeRelated_advances {st : Settings} {c : Clause} {d : Demand} {predicate : Predicate}
    (hp : p.Anchored m) (hch : m.Chained (some p.query.entity) joins)
    (h : p.excludeRelated st c joins d = (predicate, p')) : Advances m p p' := by
  have hclear := cleared_advances m p
  obtain ⟨hopen, hnew⟩ := opened_advances m p.cleared
  obtain ⟨last, p₁, hjoin⟩ :
      ∃ last p₁, joinAll p.cleared.query.nextSource joins p.cleared.opened = (last, p₁) :=
    ⟨_, _, rfl⟩
  simp only [excludeRelated, ← cleared.eq_1, ← opened.eq_1, hjoin] at h
  obtain ⟨rfl, rfl⟩ := Prod.mk.inj h
  have hchained : m.Chained ((p.cleared.opened.query.source? p.cleared.query.nextSource).bind
      Source.entity?) joins := by
    rw [hnew, Option.bind_some, Source.entity?, hclear.grows.entity]
    exact hch
  have hjoins := joinAll_advances (hopen.anchored (hclear.anchored hp)) hchained hjoin
  refine hclear.trans ⟨(hopen.trans hjoins).grows.restrict (Nat.le_refl _) _, fun e he => ?_⟩
  exact (hopen.trans hjoins).entries e he

end Progress

namespace Context

variable {ctx : Context} {p p' : Progress} {fs : List Filter} {ps : List Predicate}

/-- What a comparison does after its path is joined. -/
theorem finish_advances {clause : Clause} {joins : List Attribute} {last : SourceId}
    {predicate : Predicate} (hp : p.Anchored ctx.model)
    (hch : ctx.model.Chained (some p.query.entity) joins)
    (h : ctx.finish clause joins last p = (predicate, p')) :
    Progress.Advances ctx.model p p' := by
  unfold finish at h
  dsimp only at h
  split at h
  · obtain ⟨rfl, rfl⟩ := Prod.mk.inj h
    exact ⟨.markAll p.query _, fun _ he => Or.inl he⟩
  · have hnote : Progress.Advances ctx.model p (p.note clause.operator) :=
      ⟨.refl _, fun _ he => Or.inl he⟩
    exact hnote.trans (Progress.excludeRelated_advances (hnote.anchored hp) hch h)

/-- The joins of a comparison hang below the root. -/
theorem chained_root (hp : p.Anchored ctx.model) (he : p.query.entity = ctx.schema.entity)
    (c : Comparison) :
    ctx.model.Chained ((p.query.source? root).bind Source.entity?)
      (ctx.schema.plan ctx.model c).1 := by
  rw [hp.entity_root, he]
  exact ctx.schema.chained_plan ctx.model c

/-- **A run adds to the query, and shares joins of the root.** -/
theorem Compiles.advances (h : ctx.Compiles fs p ps p') (hp : p.Anchored ctx.model)
    (he : p.query.entity = ctx.schema.entity) : Progress.Advances ctx.model p p' := by
  induction h with
  | nil => exact .refl _ _
  | @and _ _ p _ _ _ _ _ _ ih ihr =>
    have hback := Progress.Advances.restore ctx.model p (ih (hp.sharing rfl) he).grows
    exact hback.trans (ihr (hback.anchored hp) (hback.grows.entity.trans he))
  | @or _ _ p _ _ _ _ _ _ ih ihr =>
    have hback := Progress.Advances.restore ctx.model p (ih (hp.sharing rfl) he).grows
    exact hback.trans (ihr (hback.anchored hp) (hback.grows.entity.trans he))
  | @comparison c _ _ _ _ _ _ _ joined hj _ done hf _ ihr =>
    have hjoins := Progress.joinAll_advances hp (chained_root hp he c) hj
    have hchained : ctx.model.Chained (some joined.query.entity)
        (ctx.schema.plan ctx.model c).1 := by
      rw [hjoins.grows.entity, he]
      exact ctx.schema.chained_plan ctx.model c
    have hdone := hjoins.trans (finish_advances (hjoins.anchored hp) hchained hf)
    exact hdone.trans (ihr (hdone.anchored hp) (hdone.grows.entity.trans he))
  | unrecognized _ ihr => exact ihr hp he

/-- **Whenever a comparison is begun**, what is shared are joins of the root. -/
theorem Begins.anchored {c : Comparison} {aside aside' : List Shared}
    (h : ctx.Begins fs p aside c p' aside') (hp : p.Anchored ctx.model)
    (he : p.query.entity = ctx.schema.entity) :
    p'.Anchored ctx.model ∧ p.query.Grows p'.query := by
  induction h with
  | here => exact ⟨hp, .refl _⟩
  | and _ ih => exact ih (hp.sharing rfl) he
  | or _ ih => exact ih (hp.sharing rfl) he
  | later hf _ ih =>
    have hadv := hf.advances hp he
    obtain ⟨hanchored, hgrows⟩ := ih (hadv.anchored hp) (hadv.grows.entity.trans he)
    exact ⟨hanchored, hadv.grows.trans hgrows⟩

end Context

namespace Query

variable {q : Query}

/-- A compilation begins with nothing shared. -/
theorem Anchored.start (hq : q.Anchored) (m : Model) : Progress.Anchored m ⟨q, none, false⟩ :=
  ⟨hq, by simp [Progress.entries]⟩

/-- A compilation, failed or not, adds to the query. -/
theorem Anchored.compile_grows (hq : q.Anchored) (ctx : Context) (f : Filter) :
    q.Grows (q.compile ctx f).2 := by
  unfold compile
  split
  · exact .refl q
  · rename_i he
    have he : q.entity = ctx.schema.entity := Classical.not_not.1 he
    have hstart := hq.start ctx.model
    split
    · rename_i o p' hrun
      have hadv := (Context.compiles_of_ok f hrun).advances hstart he
      exact hadv.grows.trans (.discardUnused p'.query)
    · rename_i e p' hrun
      obtain ⟨c, p, aside, hbegins, -, rfl⟩ := Context.begins_of_error f hrun [] []
      obtain ⟨hanchored, hgrows⟩ := hbegins.anchored hstart he
      have hchained := Context.chained_root hanchored (hgrows.entity.trans he) c
      exact hgrows.trans (Progress.joinAll_advances hanchored hchained rfl).grows

theorem Reached.anchored (h : q.Reached) : q.Anchored := by
  induction h with
  | start entity => exact ⟨_, rfl, rfl, rfl⟩
  | join relation kind _ _ ih => exact ih.of_grows (.join _ _ relation kind)
  | openSubquery entity _ ih => exact ih.of_grows (.openSubquery _ entity)
  | restrict p _ _ ih => exact ih
  | markReferenced _ _ ih => exact ih.of_grows (.markReferenced _ _)
  | discardUnused _ ih => exact ih.of_grows (.discardUnused _)
  | compile ctx f _ ih => exact ih.of_grows (ih.compile_grows ctx f)

end Query

end EntityFilter
