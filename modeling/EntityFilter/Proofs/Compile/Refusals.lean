import EntityFilter.Proofs.Compile.Answers
import EntityFilter.Proofs.Compile.Navigation

/-!
# The first comparison that is refused

A compilation goes through the comparisons of a filter in the order in which they are written, and
stops at the first one that is refused. When it comes to a comparison it has joined other paths,
shares some of these joins, and may have opened sub-queries and dropped what nothing reads.

* `Context.alone`: what becomes of a comparison on a query of its own.
* `Context.Begins.firstRefusal`: where a run stops, all comparisons written before have passed.
* `Context.compile_error_iff_first`: the error of a filter is that of its first comparison that is
  refused alone.
* `Context.navigate_alone`: a path ends as it does on a query of its own, wherever it is walked.
* `Context.refused_as_alone`: nothing that stands around a comparison has a say in its error.
-/

namespace EntityFilter

open Query

namespace Context

variable {ctx : Context} {q : Query} {f : Filter} {fs : List Filter} {c : Comparison}
  {p p' : Progress} {aside aside' : List Shared} {e : FilterError}

/-- What becomes of a comparison that is the whole filter, on a query of its own. -/
def alone (ctx : Context) (c : Comparison) : Except FilterError Predicate :=
  ((recordsOf ctx.schema.entity).compile ctx (.comparison c)).1

/-- The error of a comparison alone. -/
def refusal? (ctx : Context) (c : Comparison) : Option FilterError :=
  match ctx.alone c with
  | .ok _ => none
  | .error e => some e

theorem refusal?_eq_some : ctx.refusal? c = some e ↔ ctx.alone c = .error e := by
  unfold refusal?
  cases ctx.alone c <;> simp

theorem refusal?_eq_none : ctx.refusal? c = none ↔ ∃ predicate, ctx.alone c = .ok predicate := by
  unfold refusal?
  cases ctx.alone c <;> simp

/-- A comparison is refused alone if its check fails. -/
theorem alone_eq_error : ctx.alone c = .error e ↔ (ctx.schema.plan ctx.model c).2 = .error e :=
  compile_comparison_error rfl

/-! ## Runs that stop -/

/-- Comparisons that pass their checks are not refused. -/
theorem findSome?_planned {cs : List Comparison}
    (h : ∀ c ∈ cs, ∃ clause, (ctx.schema.plan ctx.model c).2 = .ok clause) :
    cs.findSome? ctx.refusal? = none := by
  refine List.findSome?_eq_none_iff.2 fun c hc => ?_
  obtain ⟨clause, hplan⟩ := h c hc
  exact refusal?_eq_none.2 (compile_comparison hplan)

/-- **A run stops at the first comparison that is refused alone.** -/
theorem Begins.firstRefusal (h : ctx.Begins fs p aside c p' aside')
    (he : (ctx.schema.plan ctx.model c).2 = .error e) :
    (Filter.comparisonsOfAll fs).findSome? ctx.refusal? = some e := by
  have hc : ctx.refusal? c = some e := refusal?_eq_some.2 (alone_eq_error.2 he)
  induction h with
  | here => simp [Filter.comparisonsOfAll, Filter.comparisons, hc]
  | and _ ih => simp [Filter.comparisonsOfAll, Filter.comparisons, ih he hc]
  | or _ ih => simp [Filter.comparisonsOfAll, Filter.comparisons, ih he hc]
  | later hf _ ih =>
    -- what is compiled before has passed
    have hbefore := findSome?_planned hf.planned
    simp only [Filter.comparisonsOfAll, List.append_nil] at hbefore
    simp [Filter.comparisonsOfAll, hbefore, ih he hc]

/-- **The error of a compilation is the error of the first comparison that is refused alone.** -/
theorem compile_error_iff_first (he : q.entity = ctx.schema.entity) :
    (q.compile ctx f).1 = .error e ↔ f.comparisons.findSome? ctx.refusal? = some e := by
  have hstops : ∀ {e}, (q.compile ctx f).1 = .error e →
      f.comparisons.findSome? ctx.refusal? = some e := by
    intro e h
    unfold Query.compile at h
    rw [if_neg fun hne => hne he] at h
    split at h
    · cases h
    · rename_i e' p hrun
      obtain rfl := Except.error.inj h
      obtain ⟨c, p₁, aside, hbegins, hplan, -⟩ := begins_of_error f hrun [] []
      simpa [Filter.comparisonsOfAll] using hbegins.firstRefusal hplan
  refine ⟨hstops, fun h => ?_⟩
  cases hcompile : (q.compile ctx f).1 with
  | error e' => exact congrArg _ (Option.some.inj ((hstops hcompile).symm.trans h))
  | ok predicate =>
    obtain ⟨-, o, p, hrun, -⟩ := compile_ok hcompile
    have hnone := findSome?_planned hrun.planned
    simp only [Filter.comparisonsOfAll, List.append_nil] at hnone
    cases hnone.symm.trans h

/-! ## Walks that stop -/

/-- The end of a walk over sources is that of the walk over the model, from what the first source
ranges over. -/
theorem navigate_ending {m : Model} (hp : p.Anchored m) (start : SourceId) (path : List String) :
    (Progress.navigate m start path p).1.map Prod.snd =
      (m.route ((p.query.source? start).bind Source.entity?) path).ending := by
  have hwalk := congrArg Prod.fst (Progress.navigate_eq hp start path)
  dsimp only at hwalk
  rw [hwalk]
  cases (m.route ((p.query.source? start).bind Source.entity?) path).ending <;> rfl

/-- **A path ends as it does on a query of its own**, at the same attribute or with the same error,
whenever a compilation walks it from the root of the query or from that of a sub-query. -/
theorem navigate_alone (hq : q.Reached) (he : q.entity = ctx.schema.entity) (hp : ctx.Walks q p)
    {start : SourceId} (hstart : start = root ∨ ∃ src, p.query.source? start = some src ∧
      src.kind = .root ctx.schema.entity) (path : List String) :
    (Progress.navigate ctx.model start path p).1.map Prod.snd =
      (Progress.navigate ctx.model root path
        ⟨recordsOf ctx.schema.entity, none, false⟩).1.map Prod.snd := by
  obtain ⟨hanchored, hentity⟩ := hp.anchored hq.anchored he
  have hown := (Reached.start ctx.schema.entity).anchored.start ctx.model
  have hsource : (p.query.source? start).bind Source.entity? = some ctx.schema.entity := by
    rcases hstart with rfl | ⟨src, hsrc, hkind⟩
    · rw [hanchored.entity_root, hentity]
    · rw [hsrc, Option.bind_some, Source.entity?, hkind]
  rw [navigate_ending hanchored, navigate_ending hown, hsource, hown.entity_root]
  rfl

/-! ## Refusals in their surroundings -/

/-- **Nothing that stands around a comparison has a say in its error.** A filter compiles, onto any
query on the entity of the schema, unless one of its comparisons, at whatever depth, is refused when
it is compiled alone onto a query of its own. Then the error of the filter is the one that the first
such comparison gives alone, in the order in which they are written: all comparisons before it
compile alone, and what follows it is not looked at. In whatever state a comparison is met, with
whatever joins to share, it is refused exactly if it is refused alone, with the same error. The
paths that a compilation walks, those of negations in their sub-queries among them, end as they do
on a query of its own. -/
theorem first_refusal (he : q.entity = ctx.schema.entity) (f : Filter) :
    (∀ e, (q.compile ctx f).1 = .error e ↔
      ∃ before c after, f.comparisons = before ++ c :: after ∧
        (∀ b ∈ before, ∃ predicate, ctx.alone b = .ok predicate) ∧ ctx.alone c = .error e) ∧
    ((∃ e, (q.compile ctx f).1 = .error e) ↔
      ∃ c ∈ f.comparisons, ∃ e, ctx.alone c = .error e) ∧
    (∀ c e p, (∃ p', (ctx.compileComparison c).run p = .error e p') ↔ ctx.alone c = .error e) ∧
    (q.Reached → ∀ p, ctx.Walks q p → ∀ start, start = root ∨ (∃ src,
        p.query.source? start = some src ∧ src.kind = .root ctx.schema.entity) → ∀ path,
      (Progress.navigate ctx.model start path p).1.map Prod.snd =
        (Progress.navigate ctx.model root path
          ⟨recordsOf ctx.schema.entity, none, false⟩).1.map Prod.snd) := by
  refine ⟨fun e => ?_, ?_, fun c e p => (run_comparison_error p).trans alone_eq_error.symm,
    fun hq p hp start hstart path => navigate_alone hq he hp hstart path⟩
  · rw [compile_error_iff_first he, List.findSome?_eq_some_iff]
    simp only [refusal?_eq_some, refusal?_eq_none]
    exact ⟨fun ⟨before, c, after, hcs, hc, hbefore⟩ => ⟨before, c, after, hcs, hbefore, hc⟩,
      fun ⟨before, c, after, hcs, hbefore, hc⟩ => ⟨before, c, after, hcs, hc, hbefore⟩⟩
  · simp only [compile_error_iff_first he, ← Option.isSome_iff_exists, List.findSome?_isSome_iff,
      refusal?_eq_some.symm]

end Context

namespace Shop

/-- A negation through a relation, and after it an unknown operator and an unknown field. -/
def failingBetween : Filter :=
  .or [.compareOne .notEqual "item.qty" "3", .and [.unrecognized "?", failing],
    .compareOne .equal "number" "1"]

theorem failingBetween_refused : reached.entity = "Order" ∧
    (reached.compile context failingBetween).1 = .error (.unknownOperator "=~") ∧
    (∃ e, context.alone ⟨"number", "==", ["1"]⟩ = .error e) ∧
    ∀ p, context.Walks reached p → ∀ path,
      (Progress.navigate context.model root path p).1.map Prod.snd =
        (Progress.navigate context.model root path ⟨recordsOf "Order", none, false⟩).1.map
          Prod.snd := by
  have hreached : reached.Reached := .compile context _ (.compile context _ (.start "Order"))
  have hentity : reached.entity = context.schema.entity := by decide +kernel
  obtain ⟨hfirst, -, -, hwalks⟩ := Context.first_refusal hentity failingBetween
  refine ⟨hentity, (hfirst _).2 ⟨[⟨"item.qty", "!=", ["3"]⟩], ⟨"item.qty", "=~", ["2"]⟩,
    [⟨"number", "==", ["1"]⟩], rfl, fun b hb => ?_, by rfl⟩, ⟨_, rfl⟩,
    fun p hp => hwalks hreached p hp root (.inl rfl)⟩
  obtain rfl := List.mem_singleton.1 hb
  exact ⟨_, rfl⟩

end Shop

end EntityFilter
