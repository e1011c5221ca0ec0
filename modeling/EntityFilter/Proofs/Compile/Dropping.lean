import EntityFilter.Proofs.Compile.Complement
import EntityFilter.Proofs.Store.Ways

/-!
# Joins that nothing reads

Every comparison joins its path before it is known whether the joins are needed. At the end of a
compilation the joins that are left are those that the predicate reads, each with what is above it.

* `Query.marked_markAll`: marks come from what is read, and from nowhere else.
* `Context.Accounted`, `Context.Compiles.accounted`: what a run marks, its predicates read.
* `Context.JoinFree`, `Context.Compiles.readsRoot`: comparisons that need no join.
* `Context.unread_dropped`: no join is left that the predicate does not read. A filter of
  comparisons that need no join lists every matching record once.
-/

namespace EntityFilter

namespace Query

variable {q : Query} {s t parent : SourceId} {src : Source}

/-! ## Where marks come from -/

theorem marked_join {relation : Attribute} {kind : JoinKind}
    (h : (q.join parent relation kind).Marked t) : q.Marked t := by
  obtain ⟨src, hsrc, hsc, hr⟩ := h
  rcases old_or_new (source?_join q parent relation kind) hsrc with hsrc | ⟨-, rfl⟩
  · exact ⟨src, hsrc, hsc, hr⟩
  · cases hr

/-- The root of a sub-query is no source of the outer selection. -/
theorem marked_openSubquery {entity : String} (h : (q.openSubquery entity).Marked t) :
    q.Marked t := by
  obtain ⟨src, hsrc, hsc, hr⟩ := h
  rcases old_or_new (source?_openSubquery q entity) hsrc with hsrc | ⟨-, rfl⟩
  · exact ⟨src, hsrc, hsc, hr⟩
  · cases hsc

theorem marked_discardUnused (h : q.discardUnused.Marked t) : q.Marked t := by
  obtain ⟨src', hsrc', hsc, hr⟩ := h
  rw [source?_discardUnused] at hsrc'
  obtain ⟨src, hsrc, rfl⟩ := Option.map_eq_some_iff.1 hsrc'
  refine ⟨src, hsrc, ?_⟩
  split at hsc <;> split at hr <;> exact ⟨hsc, hr⟩

theorem marked_of_markReferenced (h : (q.markReferenced s).Marked t) :
    q.Marked t ∨ t ∈ q.lineage s := by
  obtain ⟨src', hsrc', hsc, hr⟩ := h
  rw [source?_markReferenced] at hsrc'
  obtain ⟨src, hsrc, rfl⟩ := Option.map_eq_some_iff.1 hsrc'
  by_cases ht : t ∈ q.lineage s
  · exact Or.inr ht
  · rw [if_neg ht] at hsc hr
    exact Or.inl ⟨src, hsrc, hsc, hr⟩

/-- **Marks come from what is read**, and from nowhere else. -/
theorem marked_markAll (hq : q.Arena) {ss : List SourceId} (hss : ∀ s ∈ ss, s < q.nextSource)
    (h : (q.markAll ss).Marked t) : q.Marked t ∨ ∃ s ∈ ss, t ∈ q.lineage s := by
  induction ss generalizing q with
  | nil => exact Or.inl h
  | cons s ss ih =>
    obtain ⟨hs, hss⟩ := List.forall_mem_cons.1 hss
    have hg := Grows.markReferenced q s
    rcases ih (hq.markReferenced s) (fun u hu => Nat.lt_of_lt_of_le (hss u hu) hg.nextSource_le) h
      with h | ⟨u, hu, ht⟩
    · exact (marked_of_markReferenced h).imp id fun ht => ⟨s, List.mem_cons_self, ht⟩
    · rw [hg.lineage hq (hss u hu)] at ht
      exact Or.inr ⟨u, List.mem_cons_of_mem _ hu, ht⟩

/-- A join of the outer selection is left because it is marked. -/
theorem marked_of_mem_rootJoins (h : s ∈ q.discardUnused.rootJoins) : q.discardUnused.Marked s := by
  obtain ⟨hact, hjoin⟩ := List.mem_filter.1 h
  obtain ⟨src', hsrc', hsc, ha⟩ := mem_activeIn.1 hact
  refine ⟨src', hsrc', hsc, ?_⟩
  rw [source?_discardUnused] at hsrc'
  obtain ⟨src, hsrc, rfl⟩ := Option.map_eq_some_iff.1 hsrc'
  by_cases hunused : src.isUnused
  · simp [hunused] at ha
  · rw [if_neg hunused] at hsc ha ⊢
    have hparent : src.parent?.isSome := by
      simpa [source?_discardUnused, hsrc, hunused] using hjoin
    simpa [Source.isUnused, hsc, hparent] using hunused

end Query

namespace Progress

open Query

variable {p p' : Progress} {s start last t : SourceId} {joins : List Attribute}

/-- Joining a path marks nothing. -/
theorem marked_joinAll (h : joinAll start joins p = (last, p')) (ht : p'.query.Marked t) :
    p.query.Marked t := by
  induction joins generalizing p start with
  | nil =>
    obtain ⟨rfl, rfl⟩ := Prod.mk.inj h
    exact ht
  | cons relation rest ih =>
    obtain ⟨s, p₁, hjoin⟩ : ∃ s p₁, p.join start relation = (s, p₁) := ⟨_, _, rfl⟩
    rw [joinAll, hjoin] at h
    have ht := ih h
    rcases join_cases hjoin with ⟨-, hquery, -⟩ | ⟨rfl, -, -⟩
    · rw [hquery] at ht
      exact marked_join ht
    · exact ht

/-- A negation through a relation marks nothing. -/
theorem marked_excludeRelated {st : Settings} {c : Clause} {d : Demand} {predicate : Predicate}
    (h : p.excludeRelated st c joins d = (predicate, p')) (ht : p'.query.Marked t) :
    p.query.Marked t := by
  obtain ⟨last, p₁, hjoin⟩ :
      ∃ last p₁, joinAll p.cleared.query.nextSource joins p.cleared.opened = (last, p₁) :=
    ⟨_, _, rfl⟩
  simp only [excludeRelated, ← cleared.eq_1, ← opened.eq_1, hjoin] at h
  obtain ⟨-, rfl⟩ := Prod.mk.inj h
  have hopened := marked_openSubquery (marked_joinAll hjoin ht)
  unfold cleared at hopened
  split at hopened
  · exact hopened
  · exact marked_discardUnused hopened

end Progress

namespace Context

open Query

variable {ctx : Context} {p p' p'' first joined done : Progress} {clause : Clause}
  {joins : List Attribute} {last t : SourceId} {predicate : Predicate} {ps qs : List Predicate}
  {fs : List Filter}

/-- **What is marked is read**: it was marked before, or one of the predicates reads it or something
below it. -/
def Accounted (p : Progress) (ps : List Predicate) (p' : Progress) : Prop :=
  ∀ t, p'.query.Marked t → p.query.Marked t ∨ ∃ predicate ∈ ps, p'.query.Below predicate t

/-- One more predicate comes before. -/
theorem Accounted.cons (h : Accounted p [predicate] first) (hr : Accounted first qs p')
    (hfirst : ctx.Ran p [predicate] first) (hrest : ctx.Ran first qs p') :
    Accounted p (predicate :: qs) p' := by
  intro t ht
  rcases hr t ht with ht | ⟨predicate', hmem, ht⟩
  · refine (h t ht).imp id ?_
    rintro ⟨predicate', hmem, ht⟩
    obtain rfl := List.mem_singleton.1 hmem
    have hsafe := hfirst.safe predicate' hmem
    exact ⟨predicate', List.mem_cons_self,
      (hsafe.below_iff hfirst.ready.sound hrest.follows.grows).2 ht⟩
  · exact Or.inr ⟨predicate', List.mem_cons_of_mem _ hmem, ht⟩

/-- What the parts of a connective read, the connective reads. -/
theorem Accounted.connect {shared : Shared} (h : Accounted { p with reuse := shared } ps p')
    (hc : predicate.Connects ps) : Accounted p [predicate] { p' with reuse := p.reuse } := by
  intro t ht
  exact (h t ht).imp id fun hread =>
    ⟨predicate, List.mem_singleton_self _, (below_connect hc).2 hread⟩

/-- **A comparison marks what its predicate reads.** -/
theorem accounted_comparison (hp : p.Ready ctx.model)
    (hch : ctx.model.Chained (some p.query.entity) joins)
    (hj : Progress.joinAll root joins p = (last, joined))
    (h : ctx.finish clause joins last joined = (predicate, done)) :
    Accounted p [predicate] done := by
  obtain ⟨src, hsrc, hent, hact⟩ := Progress.root_active hp.sound
  have hjoined : Progress.Joined ctx.model p root joins .outer last joined :=
    Progress.joinAll_joined hp.sound hsrc hact (hent ▸ hch) hp.shared hj
  intro t ht
  unfold finish at h
  dsimp only at h
  split at h
  · rename_i test hlower
    obtain ⟨rfl, rfl⟩ := Prod.mk.inj h
    have hlocal := Clause.local_of_inPlace (Reading.ofSource_at _ _ last) hlower
    have hlt : ∀ s ∈ test.sources, s < joined.query.nextSource := by
      intro s hs
      rw [(hlocal.reads s).1 (Predicate.mem_sources.1 hs)]
      exact lt_of_mem_activeIn hjoined.reached
    rcases marked_markAll hjoined.sound.toArena hlt ht with ht | ⟨s, hs, hlin⟩
    · exact Or.inl (Progress.marked_joinAll hj ht)
    · refine Or.inr ⟨test, List.mem_singleton_self _, s, Predicate.mem_sources.1 hs, ?_⟩
      have hg : joined.query.Grows (joined.query.markAll test.sources) := .markAll _ _
      exact (hg.lineage hjoined.sound.toArena (hlt s hs)).symm ▸ hlin
  · have hbefore := Progress.marked_excludeRelated (p := joined.note clause.operator) h ht
    exact Or.inl (Progress.marked_joinAll hj hbefore)

/-- **What a run marks, its predicates read.** -/
theorem Compiles.accounted (h : ctx.Compiles fs p ps p') (hp : p.Ready ctx.model)
    (he : p.query.entity = ctx.schema.entity) : Accounted p ps p' := by
  replace h := h.proceeds hp he
  clear hp he
  induction h with
  | nil => exact fun t ht => Or.inl ht
  | connective hconn _ _ hfirst hrest _ _ ih ihr =>
    exact (ih.connect (hconn.connects _)).cons ihr hfirst hrest
  | comparison _ hp _ hch hj hf hcompared hrest _ ihr =>
    exact (accounted_comparison hp hch hj hf).cons ihr hcompared.ran hrest
  | unrecognized _ ih => exact ih

/-- **The joins that a run leaves** are those that its predicates read, and what is above these. -/
theorem Compiles.below_of_mem_rootJoins {s : SourceId}
    (h : ctx.Compiles fs ⟨recordsOf ctx.schema.entity, none, false⟩ ps p)
    (hs : s ∈ p.query.discardUnused.rootJoins) :
    ∃ predicate ∈ ps, p.query.discardUnused.Below predicate s := by
  have hstart := ready_start ctx.model (sound_recordsOf ctx.schema.entity)
  obtain ⟨hready, -, hsafe⟩ := h.run hstart rfl
  rcases h.accounted hstart rfl s (marked_discardUnused (marked_of_mem_rootJoins hs)) with
    ⟨src, hsrc, -⟩ | ⟨part, hpart, hbelow⟩
  · -- the query has begun with its root alone, and the root is no join
    obtain ⟨rfl, -⟩ := source?_recordsOf hsrc
    obtain ⟨r, hr⟩ := hready.sound.discardUnused.root
    have hjoin := (List.mem_filter.1 hs).2
    rw [show p.query.discardUnused.source? 0 = _ from hr] at hjoin
    cases hjoin
  · exact ⟨part, hpart, ((hsafe part hpart).below_iff hready.sound (.discardUnused _)).2 hbelow⟩

/-! ## Comparisons that need no join -/

/-- **A comparison that needs no join**: it tests a basic attribute of the root, or it is a negation
through a relation, which is asked in a sub-query. -/
inductive JoinFree (ctx : Context) (c : Comparison) : Prop
  | basic {r : ResolvedSelector} {a : Attribute} (hr : ctx.schema.resolve c.selector = .ok r)
      (hnav : r.navigation = [a.name])
      (ha : (ctx.model.entity ctx.schema.entity).attribute? a.name = some a)
      (hk : a.kind.isBasic = true)
  | negation {clause : Clause} {d : Demand} (hplan : (ctx.schema.plan ctx.model c).2 = .ok clause)
      (h : clause.lower ctx.settings ctx.replace
        (Reading.ofSource clause.selector.shape clause.terminal root) = .noneRelated d)

/-- The predicate of a comparison that needs no join reads the root at most. -/
theorem Compared.readsRoot {c : Comparison} (hfree : ctx.JoinFree c)
    (hplan : (ctx.schema.plan ctx.model c).2 = .ok clause)
    (h : ctx.Compared p clause (ctx.schema.plan ctx.model c).1 predicate done) :
    ∀ s ∈ predicate.reads, s = root := by
  rcases h.lowered with ⟨last, hlower, hpath, -⟩ | ⟨_, _, _, -, -, hex⟩
  · have hlocal := Clause.local_of_inPlace (Reading.ofSource_at _ _ last) hlower
    intro s hs
    rw [(hlocal.reads s).1 hs]
    cases hfree with
    | basic hr hnav ha hk =>
      have hjoins : (ctx.schema.plan ctx.model c).1 = [] := by
        simp [Schema.plan, hr, hnav, Model.route, ha, hk, Route.stop]
      rw [hjoins] at hpath
      cases hpath
      rfl
    | negation hplan' hnone =>
      -- a clause is lowered alike for every source, so it is no test in place
      obtain rfl := Except.ok.inj (hplan.symm.trans hplan')
      have hmoved := hlower.symm.trans (Clause.lower_at last hnone)
      cases hmoved
  · simp [hex.predicate, Predicate.reads]

theorem Compiles.readsRoot (h : ctx.Compiles fs p ps p') (hp : p.Ready ctx.model)
    (he : p.query.entity = ctx.schema.entity)
    (hfree : ∀ c ∈ Filter.comparisonsOfAll fs, ctx.JoinFree c) :
    ∀ predicate ∈ ps, ∀ s ∈ predicate.reads, s = root := by
  replace h := h.proceeds hp he
  clear hp he
  induction h with
  | nil => simp
  | connective hconn _ _ _ _ _ _ ih ihr =>
    obtain ⟨hfirst, hrest⟩ := List.forall_mem_append.1 hfree
    rw [hconn.comparisons] at hfirst
    refine List.forall_mem_cons.2 ⟨fun s hs => ?_, ihr hrest⟩
    obtain ⟨part, hpart, hs⟩ := ((hconn.connects _).reads s).1 hs
    exact ih hfirst part hpart s hs
  | comparison hplan _ _ _ _ _ hcompared _ _ ihr =>
    obtain ⟨hfirst, hrest⟩ := List.forall_mem_append.1 hfree
    have hc := hfirst _ (List.mem_singleton_self _)
    exact List.forall_mem_cons.2 ⟨hcompared.readsRoot hc hplan, ihr hrest⟩
  | unrecognized _ ih => exact ih hfree

end Context

/-! ## Selections without joins -/

section Selections

open Query

variable {m : Model} {st : Store} {q : Query} {p : Predicate}

/-- The joins are the active sources after the root. -/
theorem Query.rootJoins_eq_tail (hq : q.Arena) : q.rootJoins = (q.activeIn .outer).tail := by
  obtain ⟨rest, hrest, hnot⟩ := activeIn_outer hq
  obtain ⟨r, hr⟩ := hq.root
  have hjoins : ∀ s ∈ rest, ((q.source? s).bind Source.parent?).isSome := by
    intro s hs
    obtain ⟨src, hsrc, hsc, -⟩ := mem_activeIn.1 (hrest ▸ List.mem_cons_of_mem _ hs)
    cases hp : src.parent? with
    | none => exact absurd (hq.outerRoot hsrc hsc hp ▸ hs) hnot
    | some parent => simp [hsrc, hp]
  have hroot : (q.source? root).bind Source.parent? = none := by rw [hr]; rfl
  rw [rootJoins, hrest, List.tail_cons, List.filter_cons_of_neg (by simp [hroot]),
    List.filter_eq_self.2 hjoins]

/-- If a predicate reads the root only, and every join is above something that it reads, then there
are no joins. -/
theorem Query.rootJoins_eq_nil (hq : q.Arena)
    (hread : ∀ s ∈ q.rootJoins, ∃ t ∈ p.sources, s ∈ q.lineage t)
    (hroot : ∀ s ∈ p.reads, s = root) : q.rootJoins = [] := by
  refine List.eq_nil_iff_forall_not_mem.2 fun s hs => ?_
  obtain ⟨t, ht, hlin⟩ := hread s hs
  rw [hroot t (Predicate.mem_sources.1 ht), lineage_root hq, List.mem_singleton] at hlin
  obtain ⟨r, hr⟩ := hq.root
  have hjoin := (List.mem_filter.1 hs).2
  rw [hlin, hr] at hjoin
  cases hjoin

/-- Without joins there is one way to bind the sources for a record of the root. -/
theorem Query.times_le_one (hq : q.Arena) (h : q.rootJoins = []) (b : Binding) :
    q.times m st p b ≤ 1 := by
  have htail : (q.activeIn .outer).tail = [] := (rootJoins_eq_tail hq).symm.trans h
  rw [times, htail, ways_nil]
  exact (Multiset.count_le_card _ _).trans (by simp)

/-- **A selection without joins lists every record at most once**, in ascending order. -/
theorem Store.select_strict (hst : st.WellFormed m) (hq : q.Sound) (ht : q.Typed m)
    (hp : q.Safe p) (h : q.rootJoins = []) :
    ∃ ids, select m st q p = .ok ids ∧ ids.Pairwise (· < ·) := by
  refine ⟨_, select_times hst hq.toArena hq.parentActive ht (hp.readsWithin hq), ?_⟩
  rw [List.pairwise_flatMap]
  constructor
  · intro e _
    rw [List.pairwise_replicate]
    exact Or.inl (Query.times_le_one hq.toArena h _)
  · refine (st.table q.entity).ascending.imp fun {e e'} hlt a ha b hb => ?_
    rw [List.eq_of_mem_replicate ha, List.eq_of_mem_replicate hb]
    exact Std.compare_eq_lt.1 hlt

end Selections

namespace Context

open Query

variable {ctx : Context} {f : Filter} {predicate : Predicate} {q : Query}

/-- **No join is left that the predicate does not read.** After the compilation of a filter onto a
query of its own every join of the outer selection is a source that the predicate reads itself, or
one above such a source. If the filter consists of comparisons that need no join, in whatever
order and nesting, then no join is left at all, and on every well-formed store the selection lists
each record that the filter asks for once, in ascending order. -/
theorem unread_dropped
    (h : (recordsOf ctx.schema.entity).compile ctx f = (.ok predicate, q)) :
    (∀ s ∈ q.rootJoins, ∃ t ∈ predicate.sources, s ∈ q.lineage t) ∧
      ((∀ c ∈ f.comparisons, ctx.JoinFree c) → q.rootJoins = [] ∧
        ∀ st : Store, st.WellFormed ctx.model →
          ∃ ids, Store.select ctx.model st q predicate = .ok ids ∧ ids.Pairwise (· < ·) ∧
            ∀ id, id ∈ ids ↔ ∃ record, st.record? ctx.schema.entity id = some record ∧
              f.Reading (ctx.Meets st · (.row ctx.schema.entity id record))) := by
  have hok := congrArg Prod.fst h
  obtain ⟨-, o, p, hrun, hcompile, rfl⟩ := compile_ok hok
  obtain rfl : p.query.discardUnused = q := congrArg Prod.snd (hcompile.symm.trans h)
  have hstart := ready_start ctx.model (sound_recordsOf ctx.schema.entity)
  obtain ⟨hready, hfollows, hsafe⟩ := hrun.run hstart rfl
  have hgrows : p.query.Grows p.query.discardUnused := .discardUnused p.query
  have read : ∀ s ∈ p.query.discardUnused.rootJoins,
      ∃ t ∈ (o.getD .always).sources, s ∈ p.query.discardUnused.lineage t := by
    intro s hs
    obtain ⟨part, hpart, t, ht, hlin⟩ := hrun.below_of_mem_rootJoins hs
    obtain rfl := Option.mem_toList.1 hpart
    exact ⟨t, Predicate.mem_sources.2 ht, hlin⟩
  refine ⟨read, fun hfree => ?_⟩
  have hroot : ∀ s ∈ (o.getD .always).reads, s = root := by
    have hparts := hrun.readsRoot hstart rfl (by simpa [Filter.comparisonsOfAll] using hfree)
    cases o with
    | none => simp [Predicate.reads]
    | some part => exact hparts part (by simp)
  have hnone := rootJoins_eq_nil hready.sound.discardUnused.toArena read hroot
  refine ⟨hnone, fun st hst => ?_⟩
  obtain ⟨ids, hselect, hasc⟩ := Store.select_strict hst hready.sound.discardUnused
    (hfollows.typed (typed_recordsOf _ _)).discardUnused
    ((safe_getD hsafe).of_grows hready.sound hgrows) hnone
  refine ⟨ids, hselect, hasc, fun id => ?_⟩
  obtain ⟨answer, ⟨_, _, hcompile', hanswer⟩, -, hmem⟩ := answers_of_ok hst hok
  obtain ⟨hp, rfl⟩ := Prod.mk.inj (hcompile'.symm.trans hcompile)
  obtain rfl := Except.ok.inj hp
  change Except.map distinct
    (Store.select ctx.model st p.query.discardUnused (o.getD .always)) = _ at hanswer
  rw [hselect] at hanswer
  obtain rfl := Except.ok.inj hanswer
  rw [← hmem, mem_distinct]

end Context

namespace Shop

open Query

/-- Orders may be filtered by their number, too. -/
def numbered : Context :=
  ⟨model, ⟨"Order", [⟨⟨"number", "id", [], false, none, "id", none⟩, ["id"], none⟩,
    ⟨⟨"item", "items", ["qty"], false, none, "id", none⟩, ["items"], none⟩]⟩, .standard, id⟩

/-- A disjunction that shares a join which no part of it needs. -/
def notThreeOrOne : Filter :=
  .or [.compareOne .notEqual "item.qty" "3",
    .and [.compareOne .equal "number" "1", .compareOne .notEqual "item.qty" "2"]]

/-- What the disjunction compiles to. -/
def rootTests : Predicate :=
  .or [.not (.hasRow 0), .and [.equal (.column 0 "id") (.text "1"), .not (.hasRow 1)]]

/-- What its compilation reaches. -/
def joinless : Query := ((recordsOf "Order").compile numbered notThreeOrOne).2

theorem notThreeOrOne_drops :
    (recordsOf "Order").compile numbered notThreeOrOne = (.ok rootTests, joinless) ∧
      joinless.rootJoins = [] ∧
      ∃ ids, Store.select numbered.model store joinless rootTests = .ok ids ∧
        ids.Pairwise (· < ·) ∧
        ∀ id, id ∈ ids ↔ ∃ record, store.record? "Order" id = some record ∧
          notThreeOrOne.Reading (numbered.Meets store · (.row "Order" id record)) := by
  have h : (recordsOf numbered.schema.entity).compile numbered notThreeOrOne =
      (.ok rootTests, joinless) := by decide +kernel
  have three : numbered.JoinFree ⟨"item.qty", "!=", ["3"]⟩ := by
    have hplan : (numbered.schema.plan numbered.model ⟨"item.qty", "!=", ["3"]⟩).2 =
      .ok { quantity "3" with operator := .notEqual } := by rfl
    exact .negation (d := .equal (.text "3")) hplan (by rfl)
  have two : numbered.JoinFree ⟨"item.qty", "!=", ["2"]⟩ := by
    have hplan : (numbered.schema.plan numbered.model ⟨"item.qty", "!=", ["2"]⟩).2 =
      .ok { quantity "2" with operator := .notEqual } := by rfl
    exact .negation (d := .equal (.text "2")) hplan (by rfl)
  have one : numbered.JoinFree ⟨"number", "==", ["1"]⟩ :=
    .basic (r := ⟨⟨⟨"number", "id", [], false, none, "id", none⟩, ["id"], none⟩, [], none⟩)
      (a := ⟨"id", .basic .int⟩) (by rfl) (by rfl) (by rfl) (by rfl)
  have hfree : ∀ c ∈ notThreeOrOne.comparisons, numbered.JoinFree c := by
    have hcomparisons : notThreeOrOne.comparisons =
      [⟨"item.qty", "!=", ["3"]⟩, ⟨"number", "==", ["1"]⟩, ⟨"item.qty", "!=", ["2"]⟩] := by rfl
    rw [hcomparisons]
    simp only [List.forall_mem_cons, List.not_mem_nil, false_imp_iff, implies_true, and_true]
    exact ⟨three, one, two⟩
  obtain ⟨hjoins, hselect⟩ := (Context.unread_dropped h).2 hfree
  exact ⟨h, hjoins, hselect store store_wellFormed⟩

end Shop

end EntityFilter
