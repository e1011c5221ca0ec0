import EntityFilter.Proofs.Compile.Renumbered
import EntityFilter.Proofs.Compile.Sharing

/-!
# What a compilation builds

A compilation changes its query by the operations of queries alone, and names sources and
sub-queries by numbers that the query has given out: the root, a join that it has just made or that
is shared, the root of a sub-query that it has just opened. So whatever holds of every query that
the operations build holds of the queries that compilations reach, also of those that fail.

* `Progress.Minted`: the query of a state is built, and what is shared are numbers of its sources.
* `Progress.Builds`: a step of a compilation comes to such a state again.
* `Progress.join_builds`, `Progress.excludeRelated_builds`, `Context.finish_builds`: every step does.
* `Context.Compiles.builds`, `Context.Begins.minted`: so does every run.
* `Query.Reached.built`: every query that compilations and other operations reach is built.
-/

namespace EntityFilter

open Query

theorem Query.Built.markAll {q : Query} (h : q.Built) {ss : List SourceId}
    (hss : ∀ s ∈ ss, s < q.nextSource) : (q.markAll ss).Built := by
  induction ss generalizing q with
  | nil => exact h
  | cons s ss ih =>
    have hs : s < q.nextSource := hss s List.mem_cons_self
    refine ih (.markReferenced h hs) fun t ht => ?_
    have ht : t < q.nextSource := hss t (List.mem_cons_of_mem s ht)
    exact Nat.lt_of_lt_of_le ht (Grows.markReferenced q s).nextSource_le

namespace Progress

variable {p p' p'' : Progress} {start s last : SourceId} {relation : Attribute}
  {joins : List Attribute}

/-- **The query of a state is built, and what is shared are numbers of its sources.** -/
structure Minted (p : Progress) : Prop where
  built : p.query.Built
  entries : ∀ e ∈ p.entries, e.2 < p.query.nextSource

/-- **A step that builds**: it takes back no number, and may share a source in addition. -/
structure Builds (p p' : Progress) : Prop where
  built : p'.query.Built
  grows : p.query.Grows p'.query
  entries : ∀ e ∈ p'.entries, e ∈ p.entries ∨ e.2 < p'.query.nextSource

theorem Minted.refl (hp : p.Minted) : p.Builds p :=
  ⟨hp.built, .refl _, fun _ he => Or.inl he⟩

theorem Builds.trans (h : p.Builds p') (h' : p'.Builds p'') : p.Builds p'' where
  built := h'.built
  grows := h.grows.trans h'.grows
  entries := by
    intro e he
    rcases h'.entries e he with he | hlt
    · exact (h.entries e he).imp id fun hlt => Nat.lt_of_lt_of_le hlt h'.grows.nextSource_le
    · exact Or.inr hlt

theorem Builds.minted (h : p.Builds p') (hp : p.Minted) : p'.Minted where
  built := h.built
  entries := by
    intro e he
    rcases h.entries e he with he | hlt
    · exact Nat.lt_of_lt_of_le (hp.entries e he) h.grows.nextSource_le
    · exact hlt

/-- Nothing is shared at first within a connective. -/
theorem Minted.sharing {shared : Shared} (hp : p.Minted) (hs : shared.getD [] = []) :
    Minted { p with reuse := shared } :=
  ⟨hp.built, fun e he => absurd (hs ▸ show e ∈ shared.getD [] from he) List.not_mem_nil⟩

/-- What was shared before may be shared again. -/
theorem Builds.restore {shared : Shared} (h : Builds { p with reuse := shared } p') :
    p.Builds { p' with reuse := p.reuse } :=
  ⟨h.built, h.grows, fun _ he => Or.inl he⟩

/-! ## Steps -/

/-- **A join, new or shared, is a source of the query.** -/
theorem join_builds (hp : p.Minted) (hstart : start < p.query.nextSource)
    (h : p.join start relation = (s, p')) : p.Builds p' ∧ s < p'.query.nextSource := by
  have hgrows : p.query.Grows p'.query := grows_join h
  rcases join_cases h with ⟨rfl, hquery, -, -, hentries⟩ | ⟨rfl, -, hmem⟩
  · have hbuilt : p'.query.Built := hquery ▸ .join relation .left hp.built hstart
    have hnew : p.query.nextSource < p'.query.nextSource := by
      rw [hquery]
      simp [Query.join, nextSource]
    refine ⟨⟨hbuilt, hgrows, fun e he => ?_⟩, hnew⟩
    rcases hentries with heq | ⟨-, heq⟩
    · exact Or.inl (heq ▸ he)
    · rw [heq] at he
      rcases List.mem_cons.1 he with rfl | he
      · exact Or.inr hnew
      · exact Or.inl he
  · exact ⟨hp.refl, hp.entries _ hmem⟩

/-- A path is joined below a source that there is. -/
theorem joinAll_builds (hp : p.Minted) (hstart : start < p.query.nextSource)
    (h : joinAll start joins p = (last, p')) : p.Builds p' ∧ last < p'.query.nextSource := by
  induction joins generalizing p start with
  | nil =>
    obtain ⟨rfl, rfl⟩ := Prod.mk.inj h
    exact ⟨hp.refl, hstart⟩
  | cons relation rest ih =>
    obtain ⟨s, p₁, hjoin⟩ : ∃ s p₁, p.join start relation = (s, p₁) := ⟨_, _, rfl⟩
    rw [joinAll, hjoin] at h
    obtain ⟨hstep, hs⟩ := join_builds hp hstart hjoin
    obtain ⟨hrest, hlast⟩ := ih (hstep.minted hp) hs h
    exact ⟨hstep.trans hrest, hlast⟩

theorem cleared_builds (hp : p.Minted) : p.Builds p.cleared := by
  unfold cleared
  split
  · exact hp.refl
  · refine ⟨.discardUnused hp.built, .discardUnused p.query, fun e he => Or.inl ?_⟩
    exact (mem_entries_discardUnused.1 he).1

theorem opened_builds (hp : p.Minted) : p.Builds p.opened :=
  ⟨.openSubquery _ hp.built, .openSubquery _ _, fun _ he => Or.inl he⟩

/-- **A negation opens a sub-query, joins its path below the root of that, and restricts it.** -/
theorem excludeRelated_builds (hp : p.Minted) {st : Settings} {c : Clause} {d : Demand}
    {predicate : Predicate} (h : p.excludeRelated st c joins d = (predicate, p')) :
    p.Builds p' := by
  have hclear : p.Builds p.cleared := cleared_builds hp
  have hopen : p.cleared.Builds p.cleared.opened := opened_builds (hclear.minted hp)
  have hroot : p.cleared.query.nextSource < p.cleared.opened.query.nextSource := by
    simp [opened, openSubquery, nextSource]
  obtain ⟨last, p₁, hjoin⟩ :
      ∃ last p₁, joinAll p.cleared.query.nextSource joins p.cleared.opened = (last, p₁) :=
    ⟨_, _, rfl⟩
  have hjoins : p.cleared.opened.Builds p₁ :=
    (joinAll_builds (hopen.minted (hclear.minted hp)) hroot hjoin).1
  -- the sub-query that is restricted is the one that was opened
  have hsub : p.cleared.query.nextSubquery < p₁.query.nextSubquery := by
    refine Nat.lt_of_lt_of_le ?_ hjoins.grows.subqueries
    simp [opened]
  simp only [excludeRelated, ← cleared.eq_1, ← opened.eq_1, hjoin] at h
  obtain ⟨-, rfl⟩ := Prod.mk.inj h
  have hadded : p.cleared.Builds p₁ := hopen.trans hjoins
  refine hclear.trans ⟨.restrict _ hadded.built hsub, ?_, hadded.entries⟩
  exact hadded.grows.restrict (Nat.le_refl _) _

end Progress

namespace Context

variable {ctx : Context} {p p' : Progress} {fs : List Filter} {ps : List Predicate}

/-- **What a comparison does after its path is joined** is to mark the source that the path leads
to, or to open a sub-query. -/
theorem finish_builds {clause : Clause} {joins : List Attribute} {last : SourceId}
    {predicate : Predicate} (hp : p.Minted) (hlast : last < p.query.nextSource)
    (h : ctx.finish clause joins last p = (predicate, p')) : p.Builds p' := by
  have hnote : (p.note clause.operator).Minted := ⟨hp.built, hp.entries⟩
  unfold finish at h
  dsimp only at h
  cases hlower : clause.lower ctx.settings ctx.replace
      (Reading.ofSource clause.selector.shape clause.terminal last) with
  | inPlace test =>
    rw [hlower] at h
    obtain ⟨-, rfl⟩ := Prod.mk.inj h
    have hlocal := Clause.local_of_inPlace (Reading.ofSource_at _ _ last) hlower
    have hmarks : ∀ s ∈ test.sources, s < p.query.nextSource := by
      rw [hlocal.sources]
      simpa using hlast
    exact ⟨hp.built.markAll hmarks, .markAll p.query _, fun _ he => Or.inl he⟩
  | noneRelated d =>
    rw [hlower] at h
    have hexclude := Progress.excludeRelated_builds hnote h
    exact ⟨hexclude.built, hexclude.grows, hexclude.entries⟩

/-- The path of a comparison is joined below the root. -/
theorem joined_builds (hp : p.Minted) {c : Comparison} {last : SourceId}
    (h : Progress.joinAll root (ctx.schema.plan ctx.model c).1 p = (last, p')) :
    p.Builds p' ∧ last < p'.query.nextSource := by
  obtain ⟨marked, hroot⟩ := hp.built.arena.root
  exact Progress.joinAll_builds hp (source?_lt hroot) h

/-- **A run builds.** -/
theorem Compiles.builds (h : ctx.Compiles fs p ps p') (hp : p.Minted) : p.Builds p' := by
  induction h with
  | nil => exact hp.refl
  | and _ _ ih ihr =>
    have hparts := (ih (hp.sharing rfl)).restore
    exact hparts.trans (ihr (hparts.minted hp))
  | or _ _ ih ihr =>
    have hparts := (ih (hp.sharing rfl)).restore
    exact hparts.trans (ihr (hparts.minted hp))
  | comparison _ hj hf _ ihr =>
    obtain ⟨hjoins, hlast⟩ := joined_builds hp hj
    have hdone := hjoins.trans (finish_builds (hjoins.minted hp) hlast hf)
    exact hdone.trans (ihr (hdone.minted hp))
  | unrecognized _ ihr => exact ihr hp

theorem Begins.minted {c : Comparison} {aside aside' : List Shared}
    (h : ctx.Begins fs p aside c p' aside') (hp : p.Minted) : p'.Minted := by
  induction h with
  | here => exact hp
  | and _ ih => exact ih (hp.sharing rfl)
  | or _ ih => exact ih (hp.sharing rfl)
  | later hf _ ih => exact ih ((hf.builds hp).minted hp)

end Context

namespace Query

variable {q : Query}

/-- A compilation builds, whether it fails or not. -/
theorem Built.compile (hq : q.Built) (ctx : Context) (f : Filter) : (q.compile ctx f).2.Built := by
  have hstart : Progress.Minted ⟨q, none, false⟩ := ⟨hq, by simp [Progress.entries]⟩
  unfold Query.compile
  split
  · exact hq
  · split
    · rename_i o p' hrun
      exact .discardUnused ((Context.compiles_of_ok f hrun).builds hstart).built
    · rename_i e p' hrun
      obtain ⟨c, p, aside, hbegins, -, rfl⟩ := Context.begins_of_error f hrun [] []
      exact (Context.joined_builds (hbegins.minted hstart) rfl).1.built

/-- **Every query that compilations and other operations reach is built.** -/
theorem Reached.built (h : q.Reached) : q.Built := by
  induction h with
  | start entity => exact .recordsOf entity
  | join relation kind _ hp ih => exact .join relation kind ih hp
  | openSubquery entity _ ih => exact .openSubquery entity ih
  | restrict p _ hs ih => exact .restrict p ih hs
  | markReferenced _ hs ih => exact .markReferenced ih hs
  | discardUnused _ ih => exact .discardUnused ih
  | compile ctx f _ ih => exact ih.compile ctx f

end Query

end EntityFilter
