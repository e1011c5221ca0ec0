import EntityFilter.Proofs.Compile.Moving
import EntityFilter.Proofs.Compile.Scoping
import EntityFilter.Proofs.Query.Renumbering

/-!
# Compilations onto queries in use

A compilation looks at a query only to number what it adds. Joins, marks, dropped sources and
sub-queries that are there before it make no difference to what it shares, drops and returns. So two
runs of one compilation, one onto the root alone and one onto a query in use, go side by side, and
each state of the one shows in the state of the other.

* `Predicate.renumber_eq_moveTo`: a test of one source under other numbers.
* `Progress.Shows`: a state of a compilation shows in a state of another one.
* `Progress.Shows.join`, `Progress.Shows.excludeRelated`, `Context.finish_shows`: a step of both.
* `Context.run_shows`: a run of both.
* `Query.Reached`: the queries that compilations and other operations reach.
* `Query.Reached.compile_renumbered`: a compilation onto such a query is a compilation onto the root
  alone, under other numbers.
-/

namespace EntityFilter

variable {ρ : Renumbering} {s t : SourceId}

/-! ## Tests under other numbers -/

theorem Expr.renumber_eq_moveTo {e : Expr} (h : ρ.source e.source = t) :
    e.renumber ρ = e.moveTo t := by
  induction e with
  | upper e ih => rw [Expr.renumber, Expr.moveTo, ih h]
  | _ => rw [Expr.renumber, Expr.moveTo, ← h]; rfl

namespace Predicate

mutual

/-- **A predicate that reads one source** and asks for no sub-query is moved to where its source
is. -/
theorem renumber_eq_moveTo (p : Predicate) (hs : ∀ s ∈ p.reads, ρ.source s = t)
    (hflat : p.subqueries = []) : p.renumber ρ = p.moveTo t := by
  match p with
  | .always => rfl
  | .and ps => rw [renumber, moveTo, renumberAll_eq_moveAllTo ps hs hflat]
  | .or ps => rw [renumber, moveTo, renumberAll_eq_moveAllTo ps hs hflat]
  | .not p => rw [renumber, moveTo, renumber_eq_moveTo p hs hflat]
  | .hasRow sub => simp [subqueries] at hflat
  | .equalExpr l r =>
    rw [renumber, moveTo, Expr.renumber_eq_moveTo (hs l.source (by simp [reads])),
      Expr.renumber_eq_moveTo (hs r.source (by simp [reads]))]
  | .isNull e | .isNotNull e | .equal e _ | .notEqual e _ | .like e _ _ | .notLike e _ _
  | .isIn e _ | .order e _ _ =>
    rw [renumber, moveTo, Expr.renumber_eq_moveTo (hs e.source (by simp [reads]))]

theorem renumberAll_eq_moveAllTo (ps : List Predicate) (hs : ∀ s ∈ readsAll ps, ρ.source s = t)
    (hflat : subqueriesOfAll ps = []) : renumberAll ρ ps = moveAllTo t ps := by
  match ps with
  | [] => rfl
  | p :: ps =>
    rw [readsAll, List.forall_mem_append] at hs
    rw [subqueriesOfAll, List.append_eq_nil_iff] at hflat
    rw [renumberAll, moveAllTo, renumber_eq_moveTo p hs.1 hflat.1,
      renumberAll_eq_moveAllTo ps hs.2 hflat.2]

end

theorem Local.renumber {p : Predicate} (h : p.Local s) : p.renumber ρ = p.moveTo (ρ.source s) :=
  renumber_eq_moveTo p (fun t ht => by rw [(h.reads t).1 ht]) h.flat

/-- A predicate that reads one source reads it once. -/
theorem Local.sources {p : Predicate} (h : p.Local s) : p.sources = [s] := by
  have hmem : ∀ t, t ∈ p.sources ↔ t = s := fun t => mem_sources.trans (h.reads t)
  have hasc : Ascending id p.sources := distinct_ascending p.reads
  have hlt : p.sources.Pairwise (· < ·) := hasc.imp fun hlt => Nat.compare_eq_lt.1 hlt
  cases hl : p.sources with
  | nil => exact absurd ((hmem s).2 rfl) (hl ▸ List.not_mem_nil)
  | cons a rest =>
    rw [hl] at hmem hlt
    obtain rfl := (hmem a).1 List.mem_cons_self
    cases rest with
    | nil => rfl
    | cons b rest =>
      -- a second source would be the same one, and come after itself
      obtain rfl := (hmem b).1 (by simp)
      exact absurd ((List.pairwise_cons.1 hlt).1 b List.mem_cons_self) (Nat.lt_irrefl b)

end Predicate

/-- The restriction of a negation under other numbers. -/
theorem Clause.renumber_exclusion (c : Clause) (st : Settings) (d : Demand)
    (subRoot last : SourceId) : (c.exclusion st d subRoot last).renumber ρ =
      c.exclusion st d (ρ.source subRoot) (ρ.source last) := by
  have htests : (c.relatedTests st d last).map (Predicate.renumber ρ) =
      c.relatedTests st d (ρ.source last) := by
    rw [← c.relatedTests_moveTo st d last (ρ.source last)]
    exact List.map_congr_left fun test htest => (local_relatedTests htest).renumber
  rw [exclusion, Predicate.renumber, Predicate.renumberAll_eq_map, List.map_cons, htests, exclusion]
  rfl

/-! ## Steps -/

/-- What is found under a key after the values are changed. -/
theorem lookup_map {κ α β : Type} [BEq κ] (f : α → β) (l : List (κ × α)) (k : κ) :
    (l.map fun e => (e.1, f e.2)).lookup k = (l.lookup k).map f := by
  induction l with
  | nil => rfl
  | cons e l ih =>
    obtain ⟨key, a⟩ := e
    simp only [List.map_cons, List.lookup_cons, ih]
    split <;> rfl

namespace Progress

variable {p p' p₁ : Progress}

/-- **A state of a compilation shows in a state of another one**: the query does, the same joins are
shared, and as much is known of the comparisons that have been met. -/
structure Shows (ρ : Renumbering) (p p' : Progress) : Prop where
  query : p.query.Shows ρ p'.query
  reuse : p'.reuse = p.reuse.map (List.map fun e => (e.1, ρ.source e.2))
  needed : p'.joinsNeeded = p.joinsNeeded

/-- A state with another query shows, if the query does. -/
theorem Shows.withQuery (h : p.Shows ρ p') {q q' : Query} (hq : q.Shows ρ q') :
    Shows ρ { p with query := q } { p' with query := q' } :=
  ⟨hq, h.reuse, h.needed⟩

/-- **A join that is made, or shared, is made or shared in both.** -/
theorem Shows.join (h : p.Shows ρ p') {parent : SourceId} {relation : Attribute}
    (hj : p.join parent relation = (s, p₁)) :
    ∃ p₁', p'.join (ρ.source parent) relation = (ρ.source s, p₁') ∧ p₁.Shows ρ p₁' := by
  have hquery := h.query.join parent relation .left
  have hroot : (ρ.source parent == Query.root) = (parent == Query.root) := by
    rw [Bool.eq_iff_iff, beq_iff_eq, beq_iff_eq, ρ.source_eq_root]
  unfold Progress.join at hj ⊢
  dsimp only at hj ⊢
  rw [hroot, h.reuse, h.query.nextSource]
  cases hp : parent == Query.root with
  | false =>
    rw [hp] at hj
    obtain ⟨rfl, rfl⟩ := Prod.mk.inj hj
    exact ⟨_, rfl, hquery, rfl, h.needed⟩
  | true =>
    rw [hp] at hj
    cases hr : p.reuse with
    | none =>
      rw [hr] at hj
      obtain ⟨rfl, rfl⟩ := Prod.mk.inj hj
      exact ⟨_, rfl, hquery, rfl, h.needed⟩
    | some shared =>
      simp only [hr, if_true, Option.map_some] at hj ⊢
      rw [lookup_map]
      cases hl : shared.lookup relation.name with
      | none =>
        rw [hl] at hj
        obtain ⟨rfl, rfl⟩ := Prod.mk.inj hj
        exact ⟨_, rfl, hquery, rfl, h.needed⟩
      | some found =>
        rw [hl] at hj
        obtain ⟨rfl, rfl⟩ := Prod.mk.inj hj
        exact ⟨_, rfl, h⟩

/-- A path that is joined is joined in both. -/
theorem Shows.joinAll (h : p.Shows ρ p') {start last : SourceId} {joins : List Attribute}
    (hj : Progress.joinAll start joins p = (last, p₁)) :
    ∃ p₁', Progress.joinAll (ρ.source start) joins p' = (ρ.source last, p₁') ∧
      p₁.Shows ρ p₁' := by
  induction joins generalizing start p p' with
  | nil =>
    obtain ⟨rfl, rfl⟩ := Prod.mk.inj hj
    exact ⟨p', rfl, h⟩
  | cons relation rest ih =>
    obtain ⟨p₂', hstep, h₂⟩ := h.join (s := (p.join start relation).1) rfl
    obtain ⟨p₁', hrest, h₁⟩ := ih h₂ hj
    refine ⟨p₁', ?_, h₁⟩
    rw [Progress.joinAll, hstep]
    exact hrest

/-- The same joins are dropped, and shared no longer. -/
theorem Shows.discardUnused (h : p.Shows ρ p') : p.discardUnused.Shows ρ p'.discardUnused where
  query := h.query.discardUnused
  reuse := by
    have hsame : ∀ s, p'.query.unusedJoins.contains (ρ.source s) =
        p.query.unusedJoins.contains s := by
      intro s
      rw [Bool.eq_iff_iff, List.contains_iff_mem, List.contains_iff_mem]
      exact h.query.mem_unusedJoins s
    simp only [Progress.discardUnused, h.reuse, Option.map_map]
    congr 1
    funext shared
    simp only [Function.comp_apply, List.filter_map]
    congr 2
    funext e
    simp only [Function.comp_apply, hsame]
  needed := h.needed

theorem Shows.cleared (h : p.Shows ρ p') : p.cleared.Shows ρ p'.cleared := by
  unfold Progress.cleared
  rw [h.needed]
  split
  · exact h
  · exact h.discardUnused

theorem Shows.note (h : p.Shows ρ p') (op : Operator) : (p.note op).Shows ρ (p'.note op) :=
  ⟨h.query, h.reuse, by simp only [Progress.note, h.needed]⟩

/-- **A negation opens the same sub-query in both.** -/
theorem Shows.excludeRelated (h : p.Shows ρ p') (st : Settings) (c : Clause)
    (joins : List Attribute) (d : Demand) :
    (p'.excludeRelated st c joins d).1 = (p.excludeRelated st c joins d).1.renumber ρ ∧
      (p.excludeRelated st c joins d).2.Shows ρ (p'.excludeRelated st c joins d).2 := by
  have hclear := h.cleared
  have hopen : p.cleared.opened.Shows ρ p'.cleared.opened := by
    unfold opened
    rw [hclear.query.entity]
    exact hclear.withQuery (hclear.query.openSubquery _)
  obtain ⟨last, p₁, hjoin⟩ :
      ∃ last p₁, Progress.joinAll p.cleared.query.nextSource joins p.cleared.opened = (last, p₁) :=
    ⟨_, _, rfl⟩
  obtain ⟨p₁', hjoin', h₁⟩ := hopen.joinAll hjoin
  rw [← hclear.query.nextSource] at hjoin'
  have hrestrict := h₁.query.restrict p.cleared.query.nextSubquery
    (c.exclusion st d p.cleared.query.nextSource last)
  rw [c.renumber_exclusion, ← hclear.query.nextSource, ← hclear.query.nextSubquery] at hrestrict
  simp only [Progress.excludeRelated, ← Progress.cleared.eq_1, ← opened.eq_1, hjoin, hjoin']
  refine ⟨?_, h₁.withQuery hrestrict⟩
  rw [Predicate.renumber, Predicate.renumber, hclear.query.nextSubquery]

end Progress

namespace Context

variable {ctx : Context} {p p' : Progress}

/-- **What a comparison does after its path is joined, it does in both.** -/
theorem finish_shows (h : p.Shows ρ p') (clause : Clause) (joins : List Attribute)
    (last : SourceId) :
    (ctx.finish clause joins (ρ.source last) p').1 =
        (ctx.finish clause joins last p).1.renumber ρ ∧
      (ctx.finish clause joins last p).2.Shows ρ
        (ctx.finish clause joins (ρ.source last) p').2 := by
  have hnote := h.note clause.operator
  unfold finish
  dsimp only
  cases hlower : clause.lower ctx.settings ctx.replace
      (Reading.ofSource clause.selector.shape clause.terminal last) with
  | noneRelated d =>
    rw [Clause.lower_at (ρ.source last) hlower]
    exact hnote.excludeRelated ctx.settings clause joins d
  | inPlace test =>
    have hmoved := Clause.lower_at (ρ.source last) hlower
    have hlocal := Clause.local_of_inPlace (Reading.ofSource_at _ _ last) hlower
    have hlocal' := Clause.local_of_inPlace (Reading.ofSource_at _ _ (ρ.source last)) hmoved
    rw [hmoved]
    refine ⟨hlocal.renumber.symm, hnote.withQuery ?_⟩
    rw [hlocal.sources, hlocal'.sources]
    exact hnote.query.markAll [last]

/-! ## Runs -/

/-- **The end of a run shows in the end of another one**: both come to the same, under other
numbers, or both fail for the same reason. -/
def EndsAlike {α : Type} (ρ : Renumbering) (renumber : α → α) :
    EStateM.Result FilterError Progress α → EStateM.Result FilterError Progress α → Prop
  | .ok a p, .ok a' p' => a' = renumber a ∧ p.Shows ρ p'
  | .error e p, .error e' p' => e' = e ∧ p.Shows ρ p'
  | _, _ => False

section Runs

variable {α β : Type} {ra : α → α} {rb : β → β} {x y : Compiling α}
  {next next' : α → Compiling β}

/-- Runs that end alike may go on alike. -/
theorem EndsAlike.bind (h : EndsAlike ρ ra (x.run p) (y.run p'))
    (hnext : ∀ {a p p'}, p.Shows ρ p' → EndsAlike ρ rb ((next a).run p) ((next' (ra a)).run p')) :
    EndsAlike ρ rb ((x >>= next).run p) ((y >>= next').run p') := by
  rw [EStateM.run_bind, EStateM.run_bind]
  cases hx : x.run p <;> cases hy : y.run p' <;> rw [hx, hy] at h
  · obtain ⟨rfl, hp⟩ := h
    exact hnext hp
  · cases h
  · cases h
  · exact h

theorem EndsAlike.sharing {shared shared' : Shared}
    (hshared : shared' = shared.map (List.map fun e => (e.1, ρ.source e.2))) (h : p.Shows ρ p')
    (hstep : ∀ {p p'}, p.Shows ρ p' → EndsAlike ρ ra (x.run p) (y.run p')) :
    EndsAlike ρ ra ((Context.sharing shared x).run p) ((Context.sharing shared' y).run p') := by
  have hcaches : Progress.Shows ρ { p with reuse := shared } { p' with reuse := shared' } :=
    ⟨h.query, hshared, h.needed⟩
  have hinner := hstep hcaches
  rw [run_sharing, run_sharing]
  cases hx : x.run { p with reuse := shared } <;> cases hy : y.run { p' with reuse := shared' } <;>
    rw [hx, hy] at hinner
  · exact ⟨hinner.1, hinner.2.query, h.reuse, hinner.2.needed⟩
  · cases hinner
  · cases hinner
  · exact hinner

end Runs

theorem comparison_shows (h : p.Shows ρ p') (c : Comparison) :
    EndsAlike ρ (Predicate.renumber ρ) ((ctx.compileComparison c).run p)
      ((ctx.compileComparison c).run p') := by
  obtain ⟨last, joined, hjoin⟩ :
      ∃ last joined, Progress.joinAll Query.root (ctx.schema.plan ctx.model c).1 p =
        (last, joined) := ⟨_, _, rfl⟩
  obtain ⟨joined', hjoin', hj⟩ := h.joinAll hjoin
  rw [ρ.source_root] at hjoin'
  rw [run_compileComparison, run_compileComparison]
  simp only [hjoin, hjoin']
  cases (ctx.schema.plan ctx.model c).2 with
  | error e => exact ⟨rfl, hj⟩
  | ok clause => exact finish_shows hj clause _ last

mutual

/-- **Runs from states of which one shows in the other end alike**: no join, mark or sub-query of
before makes a difference. -/
theorem run_shows (f : Filter) {p p' : Progress} (h : p.Shows ρ p') :
    EndsAlike ρ (Option.map (Predicate.renumber ρ)) ((ctx.compileFilter f).run p)
      ((ctx.compileFilter f).run p') := by
  match f with
  | .and children =>
    refine EndsAlike.bind (.sharing rfl h fun hinner => runAll_shows children hinner) fun hp => ?_
    exact ⟨congrArg some (Predicate.renumber_all _).symm, hp⟩
  | .or children =>
    refine EndsAlike.bind (.sharing rfl h fun hinner => runAll_shows children hinner) fun hp => ?_
    exact ⟨congrArg some (Predicate.renumber_any _).symm, hp⟩
  | .comparison c => exact EndsAlike.bind (comparison_shows h c) fun hp => ⟨rfl, hp⟩
  | .unrecognized text => exact ⟨rfl, h⟩

theorem runAll_shows (fs : List Filter) {p p' : Progress} (h : p.Shows ρ p') :
    EndsAlike ρ (List.map (Predicate.renumber ρ)) ((ctx.compileChildren fs).run p)
      ((ctx.compileChildren fs).run p') := by
  match fs with
  | [] => exact ⟨rfl, h⟩
  | f :: rest =>
    refine EndsAlike.bind (run_shows f h) fun {o _ _} hp => ?_
    refine EndsAlike.bind (runAll_shows rest hp) fun {ps _ _} hp => ⟨?_, hp⟩
    cases o <;> simp

end

end Context

namespace Query

variable {q : Query} {ctx : Context}

/-- A compilation onto the root alone shows in a compilation onto a query in use. -/
theorem compile_shows (hq : q.Rooted) (he : q.entity = ctx.schema.entity) (f : Filter) :
    (q.compile ctx f).1 = ((recordsOf ctx.schema.entity).compile ctx f).1.map
        (Predicate.renumber q.numbering) ∧
      ((recordsOf ctx.schema.entity).compile ctx f).2.Shows q.numbering (q.compile ctx f).2 := by
  have hstart : Progress.Shows q.numbering ⟨recordsOf q.entity, none, false⟩ ⟨q, none, false⟩ :=
    ⟨.onto hq, rfl, rfl⟩
  have hrun := ctx.run_shows f hstart
  have hentity : (recordsOf q.entity).entity = ctx.schema.entity := he
  rw [← he]
  unfold compile
  rw [if_neg (fun hne => hne he), if_neg (fun hne => hne hentity)]
  cases hx : (ctx.compileFilter f).run ⟨recordsOf q.entity, none, false⟩ <;>
    cases hy : (ctx.compileFilter f).run ⟨q, none, false⟩ <;> rw [hx, hy] at hrun
  · obtain ⟨rfl, hp⟩ := hrun
    refine ⟨?_, hp.discardUnused.query⟩
    rename_i o _ _
    cases o <;> rfl
  · cases hrun
  · cases hrun
  · obtain ⟨rfl, hp⟩ := hrun
    exact ⟨rfl, hp.query⟩

theorem Rooted.compile (hq : q.Rooted) (ctx : Context) (f : Filter) :
    (q.compile ctx f).2.Rooted := by
  by_cases he : q.entity = ctx.schema.entity
  · exact (compile_shows hq he f).2.rootedIn
  · unfold Query.compile
    rw [if_pos he]
    exact hq

/-- **The queries that compilations and other operations reach**, in any order, from the query of
all records. The operations name sources and sub-queries by numbers that the query has given out. -/
inductive Reached : Query → Prop
  | start (entity : String) : Reached (recordsOf entity)
  | join {q : Query} {parent : SourceId} (relation : Attribute) (kind : JoinKind)
      (hq : Reached q) (hp : parent < q.nextSource) : Reached (q.join parent relation kind)
  | openSubquery {q : Query} (entity : String) (hq : Reached q) : Reached (q.openSubquery entity)
  | restrict {q : Query} {sub : SubqueryId} (p : Predicate)
      (hq : Reached q) (hs : sub < q.nextSubquery) : Reached (q.restrict sub p)
  | markReferenced {q : Query} {s : SourceId}
      (hq : Reached q) (hs : s < q.nextSource) : Reached (q.markReferenced s)
  | discardUnused {q : Query} (hq : Reached q) : Reached q.discardUnused
  | compile {q : Query} (ctx : Context) (f : Filter) (hq : Reached q) :
      Reached (q.compile ctx f).2

theorem Reached.rooted (h : q.Reached) : q.Rooted := by
  induction h with
  | start entity => exact rooted_recordsOf entity
  | join relation kind _ _ ih => exact ih.of_grows (.join _ _ relation kind)
  | openSubquery entity _ ih => exact ih.of_grows (.openSubquery _ entity)
  | restrict p _ _ ih => exact ih
  | markReferenced _ _ ih => exact ih.of_grows (.markReferenced _ _)
  | discardUnused _ ih => exact ih.of_grows (.discardUnused _)
  | compile ctx f _ ih => exact ih.compile ctx f

/-- What shows in a query, apart from the root, is the end of the list of its sources. -/
theorem Shows.drop_sources {ρ : Renumbering} {fresh : Query} (h : fresh.Shows ρ q) :
    q.sources.drop (ρ.sources + 1) = fresh.sources.tail.map (Source.renumber ρ) := by
  refine List.ext_getElem? fun i => ?_
  have hsource := h.source (i + 1) (Nat.succ_ne_zero i)
  rw [ρ.source_of_ne (Nat.succ_ne_zero i)] at hsource
  have hindex : ρ.sources + 1 + i = i + 1 + ρ.sources := by omega
  rw [List.getElem?_drop, List.getElem?_map, List.getElem?_tail, hindex]
  exact hsource

theorem Shows.drop_subqueries {ρ : Renumbering} {fresh : Query} (h : fresh.Shows ρ q) :
    q.subqueries.drop ρ.subqueries = fresh.subqueries.map (Subquery.renumber ρ) := by
  refine List.ext_getElem? fun i => ?_
  rw [List.getElem?_drop, List.getElem?_map, Nat.add_comm]
  exact h.subquery i

/-- **A compilation onto a query in use is the compilation onto the root alone, under other
numbers**: the root stays the root, the other sources are counted from behind those that are there,
and so are the sub-queries. It succeeds with the predicate, or fails with the error, that it comes
to on the root alone, and what it adds to the query are the sources, dropped or not, and the
sub-queries that it adds there. -/
theorem Reached.compile_renumbered (h : q.Reached) (he : q.entity = ctx.schema.entity)
    (f : Filter) :
    (q.compile ctx f).1 = ((recordsOf ctx.schema.entity).compile ctx f).1.map
        (Predicate.renumber q.numbering) ∧
      (q.compile ctx f).2.sources.drop q.nextSource =
        ((recordsOf ctx.schema.entity).compile ctx f).2.sources.tail.map
          (Source.renumber q.numbering) ∧
      (q.compile ctx f).2.subqueries.drop q.nextSubquery =
        ((recordsOf ctx.schema.entity).compile ctx f).2.subqueries.map
          (Subquery.renumber q.numbering) := by
  obtain ⟨houtcome, hshows⟩ := compile_shows h.rooted he f
  have hsources := hshows.drop_sources
  have hbehind : q.numbering.sources + 1 = q.nextSource :=
    Nat.sub_add_cancel (Nat.pos_of_ne_zero h.rooted.nextSource_ne)
  rw [hbehind] at hsources
  exact ⟨houtcome, hsources, hshows.drop_subqueries⟩

end Query

namespace Shop

open Query

/-- A query in use: a join was made and dropped, a sub-query was opened and restricted, another join
was made and marked as read, and a compilation has failed. -/
def used : Query :=
  (((((((recordsOf "Order").join 0 ⟨"items", .collection "Item"⟩ .inner).discardUnused.openSubquery
    "Item").restrict 0 (.isNull (.column 2 "qty"))).join 0 ⟨"items", .collection "Item"⟩
      .left).markReferenced 3).compile context failing).2

theorem used_compile_renumbered :
    used.Reached ∧ used.entity = context.schema.entity ∧ used.numbering = ⟨4, 1⟩ ∧
      (used.compile context twoOrNotThree).1 =
        .ok (.or [.equal (.column 5 "qty") (.text "2"), .not (.hasRow 1)]) ∧
      (used.compile context twoOrNotThree).2.sources.drop 5 =
        ((recordsOf "Order").compile context twoOrNotThree).2.sources.tail.map
          (Source.renumber used.numbering) ∧
      (used.compile context twoOrNotThree).2.subqueries.drop 1 =
        ((recordsOf "Order").compile context twoOrNotThree).2.subqueries.map
          (Subquery.renumber used.numbering) := by
  have h : used.Reached := by
    refine .compile context failing (.markReferenced (.join _ _ (.restrict _ (.openSubquery "Item"
      (.discardUnused (.join _ _ (.start "Order") ?_))) ?_) ?_) ?_) <;> decide
  have he : used.entity = context.schema.entity := by decide
  obtain ⟨houtcome, hsources, hsubqueries⟩ := h.compile_renumbered he twoOrNotThree
  refine ⟨h, he, by rfl, ?_, hsources, hsubqueries⟩
  have halone : ((recordsOf "Order").compile context twoOrNotThree).1 =
      .ok (.or [.equal (.column 1 "qty") (.text "2"), .not (.hasRow 0)]) := by rfl
  rw [houtcome]
  exact congrArg _ halone

end Shop

end EntityFilter
