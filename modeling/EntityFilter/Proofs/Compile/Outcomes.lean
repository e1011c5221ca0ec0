import EntityFilter.Proofs.Compile.Lasting
import EntityFilter.Proofs.Compile.Sharing

/-!
# How often a filter lists a record

A filter lists a record of the root as often as there are ways to bind the joins that make its
predicate true. The ways are those of its parts, one after the other: a comparison brings the joins
of its path, but for the one that comparisons under the same disjunction have brought already.

* `Course`, `Context.outcomes`: what a filter comes to for a record, read off its comparisons.
* `Context.Unfolds`, `Context.Proceeds.unfolds`: over all ways to bind what it reads, a run comes to
  what its filters come to, whatever joins it has made, shared and dropped.
* `Context.frequency`, `Context.select_compile`: a selection lists a record as often as the filter.
-/

namespace EntityFilter

open Query

/-- **What the parts of a filter come to**, after what is held already: whether they are true, and
what is held then, each as often as there is a way to bind their joins. -/
abbrev Course := Held → Multiset (Multiset Prop × Held)

namespace Course

/-- One course after the other. -/
def seq (F G : Course) : Course := fun held =>
  (F held).bind fun w => (G w.2).map fun u => (w.1 + u.1, u.2)

/-- The course of no parts at all. -/
def done : Course := fun held => {(0, held)}

/-- What is said of parts that hold nothing in common with what comes before and after. -/
def within (F : Course) (inner : Held) (verdict : Multiset Prop → Prop) : Course := fun held =>
  (F inner).map fun w => ({verdict w.1}, held)

variable (F : Course)

theorem done_seq : done.seq F = F := by
  funext held
  simp [seq, done]

theorem seq_done : F.seq done = F := by
  funext held
  simp only [seq, done, Multiset.map_singleton, add_zero]
  exact (Multiset.bind_singleton _ id).trans (Multiset.map_id _)

end Course

/-- Whether all parts of a filter hold. -/
def Conjoins (values : Multiset Prop) : Prop := ∀ P ∈ values, P

/-- Whether one of the parts of a filter holds, or there is none. -/
def Disjoins (values : Multiset Prop) : Prop := values = 0 ∨ ∃ P ∈ values, P

namespace Context

variable (ctx : Context) (st : Store) (b : Binding)

/-- **What a comparison comes to** for a record of the root. -/
def compared (c : Comparison) : Course :=
  match (ctx.schema.plan ctx.model c).2 with
  | .error _ => .done
  | .ok clause =>
    match clause.lower ctx.settings ctx.replace
        (Reading.ofSource clause.selector.shape clause.terminal root) with
    | .inPlace test => fun held =>
      (b.follow st (ctx.schema.plan ctx.model c).1 held).map fun w =>
        ({test.Holds ctx.model st.dialect w.1}, w.2)
    | .noneRelated d => fun held =>
      {({¬ clause.Finds ctx.model st ctx.settings ctx.schema.entity
          (ctx.schema.plan ctx.model c).1 d b}, held)}

mutual

/-- **What a filter comes to** for a record of the root. -/
def outcomes : Filter → Course
  | .and children => Course.within (outcomesOf children) none Conjoins
  | .or children => Course.within (outcomesOf children) (some fun _ => none) Disjoins
  | .comparison c => ctx.compared st b c
  | .unrecognized _ => .done

/-- What filters come to, one after the other. -/
def outcomesOf : List Filter → Course
  | [] => .done
  | f :: fs => Course.seq (outcomes f) (outcomesOf fs)

end

end Context

/-! ## Runs -/

/-- Whether predicates are true under bindings. -/
def Query.values (m : Model) (st : Store) (q : Query) (ps : List Predicate) (env : Env) :
    Multiset Prop :=
  ps.map fun predicate => q.value m st predicate env = .yes

namespace Query

variable {m : Model} {st : Store} {q : Query} {ps qs : List Predicate} {env env' : Env}

theorem values_append :
    q.values m st (ps ++ qs) env = q.values m st ps env + q.values m st qs env := by
  simp [values]

/-- The values of predicates depend on the root and on what the predicates read. -/
theorem values_congr (hq : q.Sound) (hroot : env root = env' root)
    (h : ∀ predicate ∈ ps, ∀ t, q.Below predicate t → env t = env' t) :
    q.values m st ps env = q.values m st ps env' := by
  have hvalue : ∀ predicate ∈ ps,
      (q.value m st predicate env = .yes) = (q.value m st predicate env' = .yes) := by
    intro predicate hmem
    rw [value_congr hq (fun s hs => h predicate hmem s ⟨s, hs, self_mem_lineage q s⟩) hroot]
  rw [values, values, List.map_congr_left hvalue]

theorem conjoins_values :
    Conjoins (q.values m st ps env) ↔ q.value m st (.all ps) env = .yes := by
  simp only [Conjoins, values, Multiset.mem_coe, List.forall_mem_map]
  exact Predicate.value_all_eq_yes.symm

theorem disjoins_values : Disjoins (q.values m st ps env) ↔ q.value m st (.any ps) env = .yes := by
  simp only [Disjoins, values, Multiset.coe_eq_zero, List.map_eq_nil_iff, Multiset.mem_coe,
    List.mem_map, exists_exists_and_eq_and]
  exact Predicate.value_any_eq_yes.symm

end Query

namespace Context

variable {ctx : Context} {st : Store} {q start : Query} {b : Binding} {D : Set SourceId}
  {p p' p₁ joined done : Progress} {ps qs : List Predicate} {l l' : List SourceId} {F G : Course}
  {predicate : Predicate} {clause : Clause} {joins : List Attribute} {fs : List Filter}

/-- **A run comes to a course.** Over all ways to bind the sources that its predicates read, beyond
those that are bound before, the predicates are true and names are held as the course says. -/
structure Unfolds (ctx : Context) (st : Store) (q : Query) (b : Binding) (D : Set SourceId)
    (p : Progress) (ps : List Predicate) (p' : Progress) (l : List SourceId) (F : Course) :
    Prop where
  hangs : q.Hangs D l
  below : ∀ t ∈ l, ∃ predicate ∈ ps, q.Below predicate t
  bound : ∀ predicate ∈ ps, ∀ t, q.Below predicate t → t ∈ D ∨ t ∈ l
  ways : ∀ env, env.Binds D → env root = some b →
    (q.ways st l env).map (fun env' => (q.values ctx.model st ps env', p'.held env')) =
      F (p.held env)

theorem Unfolds.nil : ctx.Unfolds st q b D p [] p [] .done where
  hangs := .nil
  below := by simp
  bound := by simp
  ways := fun env _ _ => by simp [values, Course.done]

/-- A run that goes on where another has ended comes to one course after the other. -/
theorem Unfolds.append (hq : q.Sound) (hroot : root ∈ D) (h : ctx.Unfolds st q b D p ps p₁ l F)
    (h' : ctx.Unfolds st q b (D ∪ {t | t ∈ l}) p₁ qs p' l' G) :
    ctx.Unfolds st q b D p (ps ++ qs) p' (l ++ l') (F.seq G) where
  hangs := h.hangs.append h'.hangs
  below := by
    intro t ht
    rcases List.mem_append.1 ht with ht | ht
    · obtain ⟨predicate, hmem, ht⟩ := h.below t ht
      exact ⟨predicate, List.mem_append_left _ hmem, ht⟩
    · obtain ⟨predicate, hmem, ht⟩ := h'.below t ht
      exact ⟨predicate, List.mem_append_right _ hmem, ht⟩
  bound := by
    intro predicate hmem t ht
    rw [List.mem_append]
    rcases List.mem_append.1 hmem with hmem | hmem
    · exact (h.bound predicate hmem t ht).imp id Or.inl
    · rcases h'.bound predicate hmem t ht with (hD | hl) | hl
      · exact Or.inl hD
      · exact Or.inr (Or.inl hl)
      · exact Or.inr (Or.inr hl)
  ways := by
    intro env henv hb
    have hrootNot : root ∉ l := fun hmem => h.hangs.not_mem _ hmem hroot
    -- the sources that are bound later are not those that the first predicates read
    have hsame : ∀ env₁ ∈ q.ways st l env, ∀ env' ∈ q.ways st l' env₁,
        q.values ctx.model st ps env' = q.values ctx.model st ps env₁ := by
      intro env₁ _ env' hmem
      have hkeep : ∀ t, t ∈ D ∨ t ∈ l → env' t = env₁ t := fun t ht =>
        eq_of_mem_ways hmem fun hl' => h'.hangs.not_mem t hl' ht
      exact values_congr hq (hkeep root (Or.inl hroot)) fun predicate hp t ht =>
        hkeep t (h.bound predicate hp t ht)
    have hrest : ∀ env₁ ∈ q.ways st l env,
        (q.ways st l' env₁).map (fun env' => (q.values ctx.model st (ps ++ qs) env',
          p'.held env')) =
        (G (p₁.held env₁)).map fun u => (q.values ctx.model st ps env₁ + u.1, u.2) := by
      intro env₁ hmem
      rw [← h'.ways env₁ (binds_of_mem_ways henv hmem) ((eq_of_mem_ways hmem hrootNot).trans hb),
        Multiset.map_map]
      refine Multiset.map_congr rfl fun env' hmem' => ?_
      rw [values_append, hsame env₁ hmem env' hmem', Function.comp_apply]
    rw [ways_append, Multiset.map_bind, Multiset.bind_congr hrest, Course.seq,
      ← h.ways env henv hb, Multiset.bind_map]

/-- **A connective comes to what is said of its parts**, and holds what was held before. -/
theorem Unfolds.connect {shared : Shared} {inner : Held} {verdict : Multiset Prop → Prop}
    (h : ctx.Unfolds st q b D { p with reuse := shared } ps p₁ l F)
    (hinner : ∀ env, Progress.held { p with reuse := shared } env = inner)
    (hc : predicate.Connects ps)
    (hverdict : ∀ env, verdict (q.values ctx.model st ps env) ↔
      q.value ctx.model st predicate env = .yes)
    (hnew : ∀ e ∈ p.entries, e.2 ∉ l) :
    ctx.Unfolds st q b D p [predicate] { p₁ with reuse := p.reuse } l (F.within inner verdict) where
  hangs := h.hangs
  below := fun t ht => ⟨predicate, List.mem_singleton_self _, (below_connect hc).2 (h.below t ht)⟩
  bound := by
    intro predicate' hmem t ht
    obtain rfl := List.mem_singleton.1 hmem
    obtain ⟨part, hpart, ht⟩ := (below_connect hc).1 ht
    exact h.bound part hpart t ht
  ways := by
    intro env henv hb
    rw [Course.within, ← hinner env, ← h.ways env henv hb, Multiset.map_map]
    refine Multiset.map_congr rfl fun env' hmem => ?_
    have hheld : Progress.held { p₁ with reuse := p.reuse } env' = p.held env := by
      have hsame : Progress.held { p₁ with reuse := p.reuse } env' = p.held env' := rfl
      rw [hsame]
      exact Progress.held_congr fun e he => eq_of_mem_ways hmem (hnew e he)
    rw [hheld, Function.comp_apply, propext (hverdict env')]
    rfl

/-! ## Comparisons -/

/-- A test of the end of a path comes to what stands there. -/
theorem unfolds_inPlace {last : SourceId} (hp : p.Ready ctx.model)
    (hch : ctx.model.Chained (some p.query.entity) joins) (hD : p.Based D)
    (hj : Progress.joinAll root joins p = (last, joined))
    (hlower : clause.lower ctx.settings ctx.replace
      (Reading.ofSource clause.selector.shape clause.terminal last) = .inPlace predicate)
    (hreuse : done.reuse = joined.reuse) (hq : q.Sound) (hg : joined.query.Grows q) :
    ∃ l, ctx.Unfolds st q b D p [predicate] done l fun held =>
      (b.follow st joins held).map fun w => ({predicate.Holds ctx.model st.dialect w.1}, w.2) := by
  have hlocal := Clause.local_of_inPlace (Reading.ofSource_at _ _ last) hlower
  have hbelow : ∀ t, q.Below predicate t ↔ t ∈ q.lineage last := by
    intro t
    constructor
    · rintro ⟨s, hs, ht⟩
      exact (hlocal.reads s).1 hs ▸ ht
    · exact fun ht => ⟨last, (hlocal.reads last).2 rfl, ht⟩
  obtain ⟨l, hl, hways⟩ := Progress.joinAll_ways hp hch hD hj hq hg
  refine ⟨l, hl.hangs, ?_, ?_, fun env henv hb => ?_⟩
  · exact fun t ht => ⟨predicate, List.mem_singleton_self _, (hbelow t).2 (hl.inside t ht)⟩
  · intro predicate' hmem t ht
    obtain rfl := List.mem_singleton.1 hmem
    exact hl.covers t ((hbelow t).1 ht)
  · -- the value depends on what the end of the path is bound to
    let read : Option Binding × Held → Multiset Prop × Held := fun w =>
      ({∃ c, w.1 = some c ∧ predicate.Holds ctx.model st.dialect c}, w.2)
    have hread : ∀ env' ∈ q.ways st l env,
        (q.values ctx.model st [predicate] env', done.held env') =
          read (env' last, joined.held env') := by
      intro env' hmem
      have hsome : (env' last).isSome := by
        rw [isSome_of_mem_ways hmem, henv last]
        exact hl.covers last (self_mem_lineage q last)
      obtain ⟨c, hc⟩ := Option.isSome_iff_exists.1 hsome
      have hheld : done.held env' = joined.held env' := by
        rw [Progress.held, Progress.held, hreuse]
      have hvalue : q.value ctx.model st predicate env' = .yes ↔
          ∃ c, env' last = some c ∧ predicate.Holds ctx.model st.dialect c := by
        rw [Query.value, hlocal.value_eq hc, hc]
        simp
      rw [hheld]
      simp [values, read, hvalue]
    calc (q.ways st l env).map (fun env' =>
          (q.values ctx.model st [predicate] env', done.held env'))
        = ((q.ways st l env).map fun env' => (env' last, joined.held env')).map read := by
          rw [Multiset.map_map]
          exact Multiset.map_congr rfl hread
      _ = (b.follow st joins (p.held env)).map fun w =>
          ({predicate.Holds ctx.model st.dialect w.1}, w.2) := by
          rw [hways st env b henv hb, Multiset.map_map]
          simp [read]

/-- A negation through a relation comes to whether nothing is found, and binds nothing. -/
theorem unfolds_noneRelated {last : SourceId} {d : Demand} (hp : p.Ready ctx.model) (hk : p.Keyed)
    (he : p.query.entity = ctx.schema.entity)
    (hch : ctx.model.Chained (some p.query.entity) joins) (hD : p.Based D)
    (hj : Progress.joinAll root joins p = (last, joined))
    (hlower : clause.lower ctx.settings ctx.replace
      (Reading.ofSource clause.selector.shape clause.terminal last) = .noneRelated d)
    (hfinish : ctx.finish clause joins last joined = (predicate, done))
    (hq : q.Sound) (hg : done.query.Grows q) :
    ctx.Unfolds st q b D p [predicate] done [] fun held =>
      {({¬ clause.Finds ctx.model st ctx.settings ctx.schema.entity joins d b}, held)} := by
  have h : (joined.note clause.operator).excludeRelated ctx.settings clause joins d =
      (predicate, done) := by
    simpa [finish, hlower] using hfinish
  obtain ⟨src, hsrc, hent, hact⟩ := Progress.root_active hp.sound
  have hjoined : Progress.Joined ctx.model p root joins .outer last joined :=
    Progress.joinAll_joined hp.sound hsrc hact (hent ▸ hch) hp.shared hj
  have hex := Progress.excludeRelated_excludes (p := joined.note clause.operator) hjoined.sound
    (hjoined.grows.entity ▸ hch) (hjoined.shared hp.shared) h
  have hentity : (joined.note clause.operator).query.entity = ctx.schema.entity :=
    hjoined.grows.entity.trans he
  have hreads : predicate.reads = [] := by simp [hex.predicate, Predicate.reads]
  refine ⟨.nil, by simp, fun predicate' hmem t ht => ?_, fun env henv hb => ?_⟩
  · obtain rfl := List.mem_singleton.1 hmem
    obtain ⟨s, hs, -⟩ := ht
    simp [hreads] at hs
  · obtain ⟨hdone, -⟩ := Progress.held_finish hp hk hch hj hfinish (hD.grounds henv)
    have hvalue : q.value ctx.model st predicate env = .yes ↔ ¬ clause.Finds ctx.model st
        ctx.settings (joined.note clause.operator).query.entity joins d b :=
      value_excludes hex hq hg hb
    rw [hentity] at hvalue
    simp [values, hdone, hvalue]

/-- **A comparison comes to what it asks**, as often as its path leads there. -/
theorem unfolds_comparison {c : Comparison} {last : SourceId} (hp : p.Ready ctx.model)
    (hk : p.Keyed) (he : p.query.entity = ctx.schema.entity) (hD : p.Based D)
    (hplan : (ctx.schema.plan ctx.model c).2 = .ok clause)
    (hj : Progress.joinAll root (ctx.schema.plan ctx.model c).1 p = (last, joined))
    (h : ctx.finish clause (ctx.schema.plan ctx.model c).1 last joined = (predicate, done))
    (hq : q.Sound) (hg : done.query.Grows q) :
    ∃ l, ctx.Unfolds st q b D p [predicate] done l (ctx.compared st b c) := by
  have hch : ctx.model.Chained (some p.query.entity) (ctx.schema.plan ctx.model c).1 :=
    he ▸ ctx.schema.chained_plan ctx.model c
  have hfinish := h
  unfold finish at h
  dsimp only at h
  split at h
  · rename_i test hlower
    obtain ⟨rfl, rfl⟩ := Prod.mk.inj h
    have hlocal := Clause.local_of_inPlace (Reading.ofSource_at _ _ last) hlower
    have hjoined : joined.query.Grows q :=
      (Grows.markAll joined.query test.sources).trans hg
    have hreuse : ({ joined.note clause.operator with
        query := joined.query.markAll test.sources } : Progress).reuse = joined.reuse := rfl
    obtain ⟨l, hl⟩ := unfolds_inPlace hp hch hD hj hlower hreuse hq hjoined
    refine ⟨l, ?_⟩
    simp only [compared, hplan, Clause.lower_at root hlower, Lowered.moveTo,
      hlocal.holds_moveTo root]
    exact hl
  · rename_i d hlower
    refine ⟨[], ?_⟩
    simp only [compared, hplan, Clause.lower_at root hlower, Lowered.moveTo]
    exact unfolds_noneRelated hp hk he hch hD hj hlower hfinish hq hg

/-- What is bound after a run is marked. -/
theorem Unfolds.based (h : ctx.Unfolds st q b D p ps p' l F) (hran : ctx.Ran p ps p')
    (hD : p.Based D) (hg : p'.query.Grows q) : p'.Based (D ∪ {t | t ∈ l}) where
  root_mem := Or.inl hD.root_mem
  marked := by
    rintro t (ht | ht)
    · exact (hD.marked t ht).imp id hran.follows.grows.marked
    · obtain ⟨predicate, hmem, ht⟩ := h.below t ht
      have hsafe := hran.safe predicate hmem
      obtain ⟨s, hs, hlin⟩ := (hsafe.below_iff hran.ready.sound hg).1 ht
      exact Or.inr (hsafe.reads s hs t hlin)

/-- Where nothing is shared at first, a run binds none of the sources of before. -/
theorem Unfolds.new {shared : Shared}
    (h : ctx.Unfolds st q b D { p with reuse := shared } ps p' l F)
    (hran : ctx.Ran { p with reuse := shared } ps p')
    (hparted : Parted { p with reuse := shared } ps p') (hshared : shared.getD [] = [])
    (hroot : root ∈ D) (hg : p'.query.Grows q) : ∀ t ∈ l, p.query.nextSource ≤ t := by
  intro t ht
  obtain ⟨predicate, hmem, hbelow⟩ := h.below t ht
  have hin := ((hran.safe predicate hmem).below_iff hran.ready.sound hg).1 hbelow
  have hwithin := hparted.within p.query.nextSource (Nat.le_refl _)
    (by simp [Progress.entries, hshared]) predicate hmem
  refine (hwithin t hin).resolve_left ?_
  rintro rfl
  exact h.hangs.not_mem _ ht hroot

/-! ## Filters -/

/-- A connective comes to what it says of its parts, which begin with nothing held. -/
theorem Connective.unfolds {f : Filter} {children : List Filter} {shared : Shared}
    {connect : List Predicate → Predicate} (h : Connective f children shared connect)
    (hl : ctx.Unfolds st q b D { p with reuse := shared } ps p₁ l (ctx.outcomesOf st b children))
    (hnew : ∀ e ∈ p.entries, e.2 ∉ l) :
    ctx.Unfolds st q b D p [connect ps] { p₁ with reuse := p.reuse } l (ctx.outcomes st b f) := by
  cases h with
  | and =>
    exact hl.connect (fun _ => Progress.held_of_none rfl) (Predicate.connects_all ps)
      (fun _ => conjoins_values) hnew
  | or =>
    exact hl.connect (fun _ => rfl) (Predicate.connects_any ps) (fun _ => disjoins_values) hnew

/-- **A run comes to what its filters come to**, one after the other. -/
theorem Proceeds.unfolds (h : ctx.Proceeds fs p ps p') (hk : p.Keyed) (hD : p.Based D)
    (hq : q.Sound) (hg : p'.query.Grows q) :
    p'.Keyed ∧ ∃ l, ctx.Unfolds st q b D p ps p' l (ctx.outcomesOf st b fs) := by
  induction h generalizing D with
  | nil => exact ⟨hk, [], .nil⟩
  | @connective _ _ _ shared _ p p₁ _ ps _ hf hp hparts hfirst hrest h _ ih ihr =>
    have hlater : p₁.query.Grows q := hrest.follows.grows.trans hg
    have hkeyed : Progress.Keyed { p with reuse := shared } := by
      simp [Progress.Keyed, Progress.entries, hf.entries]
    obtain ⟨-, l, hl⟩ := ih hkeyed ⟨hD.root_mem, hD.marked⟩ hlater
    -- the parts bind new joins only, so what was held is held still
    have hnew := hl.new hparts h.parted hf.entries hD.root_mem hlater
    have hconn := hf.unfolds hl fun e he hmem =>
      absurd (lt_of_mem_activeIn (hp.shared e he).2) (Nat.not_lt.2 (hnew _ hmem))
    obtain ⟨hk', l', hl'⟩ := ihr hk (hconn.based hfirst hD hlater) hg
    exact ⟨hk', l ++ l', hconn.append hq hD.root_mem hl'⟩
  | comparison hplan hp he hch hj hf hcompared hrest _ ihr =>
    have hlater := hrest.follows.grows.trans hg
    obtain ⟨l, hl⟩ := unfolds_comparison hp hk he hD hplan hj hf hq hlater
    have hkeyed := (Progress.held_finish hp hk hch hj hf (Progress.grounds_empty _)).2
    obtain ⟨hk', l', hl'⟩ := ihr hkeyed (hl.based hcompared.ran hD hlater) hg
    exact ⟨hk', l ++ l', hl.append hq hD.root_mem hl'⟩
  | unrecognized _ ih =>
    obtain ⟨hk', l, hl⟩ := ih hk hD hg
    refine ⟨hk', l, ?_⟩
    rw [outcomesOf, outcomes, Course.done_seq]
    exact hl

/-- The joins that stay are those of before and those that a run has gone through. -/
theorem Compiles.lasting_perm (h : ctx.Compiles fs ⟨start, none, false⟩ ps p) (hstart : start.Sound)
    (he : start.entity = ctx.schema.entity)
    (hl : ctx.Unfolds st p.query.discardUnused b ({root} ∪ {t | t ∈ start.lasting})
      ⟨start, none, false⟩ ps p l F) : p.query.lasting.Perm (start.lasting ++ l) := by
  have hran := h.run (ready_start ctx.model hstart) he
  have hsound := hran.ready.sound
  have hgrows : start.Grows p.query.discardUnused :=
    hran.follows.grows.trans (.discardUnused p.query)
  have hhangs := (hangs_lasting hstart hsound.discardUnused hgrows).append hl.hangs
  have below : ∀ part ∈ ps, ∀ t, p.query.discardUnused.Below part t ↔ p.query.Below part t :=
    fun part hpart t => (hran.safe part hpart).below_iff hsound (.discardUnused p.query)
  refine (List.perm_ext_iff_of_nodup (p.query.lasting_ascending.imp Nat.ne_of_lt)
    hhangs.nodup).2 fun t => ?_
  rw [h.mem_lasting hstart he, List.mem_append]
  refine or_congr_right' fun hnot => ⟨?_, fun ht => ⟨?_, ?_⟩⟩
  · rintro ⟨hne, part, hpart, ht⟩
    refine (hl.bound part hpart t ((below part hpart t).2 ht)).resolve_left ?_
    rintro (hroot | hlasting)
    · exact hne hroot
    · exact hnot hlasting
  · rintro rfl
    exact hl.hangs.not_mem _ ht (Or.inl rfl)
  · obtain ⟨part, hpart, ht⟩ := hl.below t ht
    exact ⟨part, hpart, (below part hpart t).1 ht⟩

open Classical in
/-- **How often a filter lists a record**: as often as all that the filter comes to is true. -/
noncomputable def frequency (ctx : Context) (st : Store) (f : Filter) (b : Binding) : Nat :=
  ((ctx.outcomes st b f none).map fun w => Conjoins w.1).count True

/-- **A compiled filter is true as often as what it comes to is**, for every way to bind the joins
that stay from before. -/
theorem times_compile {f : Filter} (hstart : start.Sound)
    (h : start.compile ctx f = (.ok predicate, q)) :
    q.times ctx.model st predicate b = start.copies st b * ctx.frequency st f b := by
  obtain ⟨he, o, p, hrun, rfl, rfl⟩ := compiles_of_compile h
  have hready := ready_start ctx.model hstart
  have hran := hrun.run hready he
  have hq : p.query.discardUnused.Sound := hran.ready.sound.discardUnused
  have hgrows : start.Grows p.query.discardUnused :=
    hran.follows.grows.trans (.discardUnused p.query)
  have hbased : Progress.Based ⟨start, none, false⟩ ({root} ∪ {t | t ∈ start.lasting}) := by
    refine ⟨Or.inl rfl, ?_⟩
    rintro t (ht | ht)
    · exact Or.inl ht
    · exact Or.inr ((mem_lasting hstart).1 ht).2
  obtain ⟨-, l, hl⟩ : p.Keyed ∧ ∃ l, ctx.Unfolds st p.query.discardUnused b
      ({root} ∪ {t | t ∈ start.lasting}) ⟨start, none, false⟩ o.toList p l
      (ctx.outcomesOf st b [f]) :=
    (hrun.proceeds hready he).unfolds List.nodup_nil hbased hq (.discardUnused _)
  have hvalues : ∀ env, (p.query.discardUnused.value ctx.model st (o.getD .always) env = .yes) =
      Conjoins (p.query.discardUnused.values ctx.model st o.toList env) := by
    intro env
    cases o with
    | none => simp [conjoins_values, Query.value, Predicate.value_all_eq_yes, Predicate.value]
    | some part => simp [conjoins_values, Query.value, Predicate.value_all_eq_yes]
  have hhangs := hangs_lasting hstart hq hgrows
  -- whatever the joins of before are bound to, the filter comes to the same
  have hcount : ∀ env ∈ p.query.discardUnused.ways st start.lasting (Env.empty.set root b),
      (((p.query.discardUnused.ways st l env).map fun env' =>
        p.query.discardUnused.value ctx.model st (o.getD .always) env' = .yes).count True) =
      ctx.frequency st f b := by
    intro env henv
    have hroot : env root = some b := by
      rw [eq_of_mem_ways henv fun hmem => hhangs.not_mem _ hmem rfl, Env.set_self]
    have hways := hl.ways env (binds_of_mem_ways (Env.binds_root b) henv) hroot
    rw [outcomesOf, outcomesOf, Course.seq_done, Progress.held_of_none rfl] at hways
    rw [frequency, ← hways, Multiset.map_map]
    simp only [hvalues, Function.comp_def]
  have htail : (p.query.discardUnused.activeIn .outer).tail = p.query.lasting :=
    (rootJoins_eq_tail hq.toArena).symm
  have hold : ∀ s ∈ start.lasting, s < start.nextSource := fun s => lt_of_mem_lasting hstart
  rw [Query.times, htail, ways_perm (hangs_lasting hran.ready.sound hq (.discardUnused _))
    (hhangs.append hl.hangs) (hrun.lasting_perm hstart he hl), ways_append, Multiset.map_bind,
    Multiset.count_bind, Multiset.map_congr rfl hcount, Multiset.map_const', Multiset.sum_replicate,
    hgrows.ways hold]
  rfl

/-- **A selection lists every record of the root as often as the filter does**, for every way to
bind the joins that stay from before. -/
theorem select_onto {f : Filter} (hstart : start.Sound) (ht : start.Typed ctx.model)
    (hst : st.WellFormed ctx.model) (h : start.compile ctx f = (.ok predicate, q)) :
    Store.select ctx.model st q predicate = .ok
      ((st.table start.entity).entries.flatMap fun e =>
        List.replicate (start.copies st (.row start.entity e.1 e.2) *
          ctx.frequency st f (.row start.entity e.1 e.2)) e.1) := by
  obtain ⟨hq, hgrows, hsafe⟩ := compile_sound hstart ctx f
  have ht := compile_typed hstart ht f
  rw [h] at hq hgrows hsafe ht
  have hwithin := (hsafe predicate rfl).readsWithin hq
  rw [Store.select_times hst hq.toArena hq.parentActive ht hwithin, hgrows.entity]
  simp only [times_compile hstart h]

/-- A selection from a query of its own lists every record of the root as often as the filter
does. -/
theorem select_compile {f : Filter} (hst : st.WellFormed ctx.model)
    (h : (recordsOf ctx.schema.entity).compile ctx f = (.ok predicate, q)) :
    Store.select ctx.model st q predicate = .ok
      ((st.table ctx.schema.entity).entries.flatMap fun e =>
        List.replicate (ctx.frequency st f (.row ctx.schema.entity e.1 e.2)) e.1) := by
  rw [select_onto (sound_recordsOf _) (typed_recordsOf ctx.model _) hst h]
  simp only [copies_recordsOf, Nat.one_mul]
  rfl

end Context

end EntityFilter
