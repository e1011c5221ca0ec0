import EntityFilter.Proofs.Compile.Meaning
import Mathlib.Tactic.Choose

/-!
# The answers of filters

A filter is answered by the records that its predicate selects, on a query of its own. On
well-formed stores an answer is what the comparisons of the filter ask for, put together as the
filter says.

* `Context.Answers`: a filter selects some records on a query of its own.
* `Store.selectDistinct_safe`: what is selected are the records for which the predicate is true.
* `Context.answers_of_ok`: the answer of a filter that compiles.
* `Context.answers_combine`: it is the boolean combination of the answers of its comparisons, each
  compiled alone.
-/

namespace EntityFilter

open Query

/-! ## Selections that cannot fail -/

section Selections

variable {m : Model} {st : Store} {q : Query} {p : Predicate}

/-- **A selection on a well-formed store lists the records for which the predicate is true** for
some way to bind the joins. -/
theorem Store.selectDistinct_safe (hst : st.WellFormed m) (hq : q.Sound) (ht : q.Typed m)
    (hp : q.Safe p) : ∃ ids, selectDistinct m st q p = .ok ids ∧ Ascending id ids ∧
      ∀ id, id ∈ ids ↔ ∃ record, st.record? q.entity id = some record ∧
        q.Sat m st p (.row q.entity id record) := by
  have hselect := (select_yields (m := m) hq.toArena hq.parentActive (steady_of_wellFormed hst ht)
    (hp.readsWithin hq)).eq_ok
  refine ⟨_, congrArg (Except.map distinct) hselect, distinct_ascending _, fun id => ?_⟩
  have hroot := isRoot_outer hq.toArena
  rw [mem_distinct, List.mem_flatMap]
  constructor
  · rintro ⟨env, henv, hid⟩
    have hfits := ((mem_envs hq.toArena (q.activeIn_ascending .outer)).1 henv).2
    obtain ⟨b, hb, hchoice⟩ := hfits root hroot.active
    rw [hroot.choices] at hchoice
    obtain ⟨id', record, rfl, hrecord⟩ := Store.record?_of_mem_rows hchoice
    rw [chosen_of_root hb] at hid
    split at hid
    · rename_i hyes
      obtain rfl := List.mem_singleton.1 hid
      exact ⟨record, hrecord, env, henv, hb, hyes⟩
    · exact absurd hid List.not_mem_nil
  · rintro ⟨record, -, env, henv, hb, hyes⟩
    refine ⟨env, henv, ?_⟩
    rw [chosen_of_root hb, if_pos hyes]
    exact List.mem_singleton_self id

end Selections

/-! ## Compilations onto a query of their own -/

theorem Query.typed_recordsOf (m : Model) (entity : String) : (recordsOf entity).Typed m := by
  intro s src parent relation kind hsrc _ hk
  obtain ⟨-, rfl⟩ := source?_recordsOf hsrc
  cases hk

mutual

/-- The comparisons of a filter. -/
def Filter.comparisons : Filter → List Comparison
  | .and children => comparisonsOfAll children
  | .or children => comparisonsOfAll children
  | .comparison c => [c]
  | .unrecognized _ => []

/-- The comparisons of the filters of a list. -/
def Filter.comparisonsOfAll : List Filter → List Comparison
  | [] => []
  | f :: fs => f.comparisons ++ comparisonsOfAll fs

end

mutual

/-- What comparisons hold decides what a filter says. -/
theorem Filter.reading_congr {holds holds' : Comparison → Prop} (f : Filter)
    (h : ∀ c ∈ f.comparisons, holds c ↔ holds' c) : f.Reading holds ↔ f.Reading holds' := by
  match f with
  | .and children => exact (readings_congr children h).1
  | .or children => exact forall_congr' fun _ => (readings_congr children h).2
  | .comparison c => exact h c List.mem_cons_self
  | .unrecognized _ => exact Iff.rfl

theorem Filter.readings_congr {holds holds' : Comparison → Prop} (fs : List Filter)
    (h : ∀ c ∈ comparisonsOfAll fs, holds c ↔ holds' c) :
    (ReadingAll holds fs ↔ ReadingAll holds' fs) ∧
      (ReadingAny holds fs ↔ ReadingAny holds' fs) := by
  match fs with
  | [] => exact ⟨Iff.rfl, Iff.rfl⟩
  | f :: fs =>
    have hf := reading_congr f fun c hc => h c (List.mem_append_left _ hc)
    obtain ⟨hall, hany⟩ := readings_congr fs fun c hc => h c (List.mem_append_right _ hc)
    exact ⟨and_congr hf hall, or_congr (and_congr Iff.rfl hf) hany⟩

end

namespace Context

variable {ctx : Context} {st : Store} {f : Filter} {c : Comparison} {predicate : Predicate}
  {q later : Query}

/-- **A filter selects some records**, on a query of its own. -/
def Answers (ctx : Context) (st : Store) (f : Filter) (ids : List Int) : Prop :=
  ∃ predicate q, (recordsOf ctx.schema.entity).compile ctx f = (.ok predicate, q) ∧
    Store.selectDistinct ctx.model st q predicate = .ok ids

/-- The comparisons of a connective are those of its parts. -/
theorem Connective.comparisons {children : List Filter} {shared : Shared}
    {connect : List Predicate → Predicate} (h : Connective f children shared connect) :
    f.comparisons = Filter.comparisonsOfAll children := by
  cases h <;> rfl

/-- All comparisons of a run are checked. -/
theorem Compiles.planned {fs : List Filter} {p p' : Progress} {ps : List Predicate}
    (h : ctx.Compiles fs p ps p') :
    ∀ c ∈ Filter.comparisonsOfAll fs, ∃ clause, (ctx.schema.plan ctx.model c).2 = .ok clause := by
  induction h with
  | nil => exact fun c hc => absurd hc List.not_mem_nil
  | and _ _ ih ihr =>
    exact fun c hc => (List.mem_append.1 hc).elim (ih c) (ihr c)
  | or _ _ ih ihr =>
    exact fun c hc => (List.mem_append.1 hc).elim (ih c) (ihr c)
  | comparison hplan _ _ _ ihr =>
    intro c hc
    rcases List.mem_append.1 hc with hc | hc
    · exact ⟨_, List.mem_singleton.1 hc ▸ hplan⟩
    · exact ihr c hc
  | unrecognized _ ihr => exact ihr

/-- **A compiled filter means what it says**, on the query that it is compiled onto and on every
query that compilations may still reach. -/
theorem compile_means (hq : q.Sound) (h : (q.compile ctx f).1 = .ok predicate)
    (hlater : later.Sound) (hg : (q.compile ctx f).2.Grows later) {b : Binding}
    (hb : b ∈ st.rows ctx.schema.entity) :
    later.Sat ctx.model st predicate b ↔ f.Reading (ctx.Meets st · b) := by
  obtain ⟨he, o, p, hrun, hcompile, rfl⟩ := compile_ok h
  rw [hcompile] at hg
  have hstart := ready_start ctx.model hq
  have hgrows : p.query.Grows later := (Grows.discardUnused p.query).trans hg
  have hentity : later.entity = ctx.schema.entity :=
    hgrows.entity.trans ((hrun.run hstart he).entity he)
  have hmeans : ctx.Means st later [f] o.toList := hrun.means hstart he hlater hgrows
  have hall := hmeans.all b hb
  simp only [Filter.ReadingAll, and_true] at hall
  rw [← hall]
  -- without a predicate of its own the filter restricts nothing
  cases o with
  | none =>
    obtain ⟨env, henv, hroot⟩ := exists_env hlater (hentity ▸ hb)
    simpa using ⟨env, henv, hroot, rfl⟩
  | some predicate => simp

mutual

/-- A run succeeds where all comparisons pass their checks. -/
theorem run_planned (f : Filter)
    (h : ∀ c ∈ f.comparisons, ∃ clause, (ctx.schema.plan ctx.model c).2 = .ok clause)
    (p : Progress) : ∃ o p', (ctx.compileFilter f).run p = .ok o p' := by
  match f with
  | .and children =>
    obtain ⟨ps, p', hrun⟩ := runAll_planned children h { p with reuse := none }
    exact ⟨some (.all ps), _, by rw [compileFilter, EStateM.run_bind, run_sharing, hrun]; rfl⟩
  | .or children =>
    obtain ⟨ps, p', hrun⟩ := runAll_planned children h { p with reuse := some [] }
    exact ⟨some (.any ps), _, by rw [compileFilter, EStateM.run_bind, run_sharing, hrun]; rfl⟩
  | .comparison c =>
    obtain ⟨clause, hplan⟩ := h c List.mem_cons_self
    rw [compileFilter, EStateM.run_bind, run_compileComparison]
    simp only [hplan]
    exact ⟨_, _, rfl⟩
  | .unrecognized _ => exact ⟨none, p, rfl⟩

theorem runAll_planned (fs : List Filter)
    (h : ∀ c ∈ Filter.comparisonsOfAll fs,
      ∃ clause, (ctx.schema.plan ctx.model c).2 = .ok clause)
    (p : Progress) : ∃ ps p', (ctx.compileChildren fs).run p = .ok ps p' := by
  match fs with
  | [] => exact ⟨[], p, rfl⟩
  | f :: rest =>
    obtain ⟨o, p₁, hf⟩ := run_planned f (fun c hc => h c (List.mem_append_left _ hc)) p
    obtain ⟨qs, p₂, hr⟩ := runAll_planned rest (fun c hc => h c (List.mem_append_right _ hc)) p₁
    refine ⟨o.toList ++ qs, p₂, ?_⟩
    rw [compileChildren, EStateM.run_bind, hf]
    simp only [EStateM.run_bind, hr, EStateM.run_pure]

end

/-- **A filter compiles if all its comparisons pass their checks.** -/
theorem compile_planned (he : q.entity = ctx.schema.entity)
    (h : ∀ c ∈ f.comparisons, ∃ clause, (ctx.schema.plan ctx.model c).2 = .ok clause) :
    ∃ predicate, (q.compile ctx f).1 = .ok predicate := by
  obtain ⟨o, p, hrun⟩ := run_planned f h ⟨q, none, false⟩
  unfold compile
  rw [if_neg fun hne => hne he, hrun]
  exact ⟨_, rfl⟩

/-- A comparison that passes its check compiles. -/
theorem compile_comparison {clause : Clause} (h : (ctx.schema.plan ctx.model c).2 = .ok clause) :
    ∃ predicate,
      ((recordsOf ctx.schema.entity).compile ctx (.comparison c)).1 = .ok predicate :=
  compile_planned rfl fun _ hc => ⟨clause, List.mem_singleton.1 hc ▸ h⟩

/-- **The answer of a filter that compiles** are the records that meet it. -/
theorem answers_of_ok (hst : st.WellFormed ctx.model)
    (h : ((recordsOf ctx.schema.entity).compile ctx f).1 = .ok predicate) :
    ∃ ids, ctx.Answers st f ids ∧ Ascending id ids ∧
      ∀ id, id ∈ ids ↔ ∃ record, st.record? ctx.schema.entity id = some record ∧
        f.Reading (ctx.Meets st · (.row ctx.schema.entity id record)) := by
  have hstart := sound_recordsOf ctx.schema.entity
  obtain ⟨hsound, hgrows, hsafe⟩ := compile_sound hstart ctx f
  have hentity : ((recordsOf ctx.schema.entity).compile ctx f).2.entity = ctx.schema.entity :=
    hgrows.entity
  obtain ⟨ids, hselect, hasc, hmem⟩ := Store.selectDistinct_safe hst hsound
    (compile_typed hstart (typed_recordsOf _ _) f) (hsafe predicate h)
  refine ⟨ids, ⟨predicate, _, Prod.ext h rfl, hselect⟩, hasc, fun id => ?_⟩
  rw [hmem, hentity]
  exact exists_congr fun record => and_congr_right fun hrecord =>
    compile_means hstart h hsound (.refl _) (Store.mem_rows.2 hrecord)

/-- **The answer of a filter is the boolean combination of the answers of its comparisons.** On a
well-formed store the selection of a filter that compiles succeeds, and so does that of each of its
comparisons, compiled alone. The answer has the records whose identifiers are in the answers as the
filter says: in all of them under a conjunction and in one of them under a disjunction, where text
that is no expression does not count. So how joins are shared and dropped and how the parts are
ordered makes no difference. -/
theorem answers_combine (hst : st.WellFormed ctx.model)
    (h : ((recordsOf ctx.schema.entity).compile ctx f).1 = .ok predicate) :
    ∃ (ids : List Int) (leaf : Comparison → List Int), ctx.Answers st f ids ∧
      Ascending id ids ∧
      (∀ c ∈ f.comparisons, ctx.Answers st (.comparison c) (leaf c)) ∧
      ∀ id, id ∈ ids ↔ (st.record? ctx.schema.entity id).isSome ∧
        f.Reading fun c => id ∈ leaf c := by
  classical
  obtain ⟨ids, hids, hasc, hmem⟩ := answers_of_ok hst h
  obtain ⟨-, o, p, hrun, -⟩ := compile_ok h
  have leaf : ∀ c ∈ f.comparisons, ∃ ids, ctx.Answers st (.comparison c) ids ∧
      ∀ id, id ∈ ids ↔ ∃ record, st.record? ctx.schema.entity id = some record ∧
        ctx.Meets st c (.row ctx.schema.entity id record) := by
    intro c hc
    obtain ⟨clause, hplan⟩ := hrun.planned c (by simpa [Filter.comparisonsOfAll] using hc)
    obtain ⟨predicate, hok⟩ := compile_comparison hplan
    obtain ⟨ids, hids, -, hmem⟩ := answers_of_ok hst hok
    exact ⟨ids, hids, hmem⟩
  choose! answer hanswer hleaf using leaf
  refine ⟨ids, answer, hids, hasc, hanswer, fun id => ?_⟩
  rw [hmem]
  constructor
  · rintro ⟨record, hrecord, hreading⟩
    refine ⟨by simp [hrecord], (f.reading_congr fun c hc => ?_).1 hreading⟩
    rw [hleaf c hc, hrecord]
    simp
  · rintro ⟨hsome, hreading⟩
    obtain ⟨record, hrecord⟩ := Option.isSome_iff_exists.1 hsome
    refine ⟨record, hrecord, (f.reading_congr fun c hc => ?_).2 hreading⟩
    rw [hleaf c hc, hrecord]
    simp

end Context

namespace Shop

/-- What the disjunction compiles to on a query of its own. -/
def ownTests : Predicate := .or [.equal (.column 1 "qty") (.text "2"), .not (.hasRow 0)]

theorem twoOrNotThree_answers :
    ((recordsOf "Order").compile context twoOrNotThree).1 = .ok ownTests ∧
      ∃ (ids : List Int) (leaf : Comparison → List Int), context.Answers store twoOrNotThree ids ∧
        Ascending id ids ∧
        (∀ c ∈ twoOrNotThree.comparisons, context.Answers store (.comparison c) (leaf c)) ∧
        ∀ id, id ∈ ids ↔ (store.record? "Order" id).isSome ∧
          twoOrNotThree.Reading fun c => id ∈ leaf c := by
  have h : ((recordsOf "Order").compile context twoOrNotThree).1 = .ok ownTests := by rfl
  exact ⟨h, Context.answers_combine store_wellFormed h⟩

end Shop

end EntityFilter
