import EntityFilter.Compile
import EntityFilter.Proofs.Query.Growth

/-!
# Compilations step by step

A compilation goes through the parts of a filter from left to right. Here its runs are said as a
relation, without the monad.

* `Context.finish`: what a comparison does after its path is joined.
* `Context.Compiles`: the runs that succeed.
* `Context.Begins`: the states in which comparisons are begun, with the shared joins that the
  connectives around them have put aside.
* `Context.compiles_of_ok`, `Context.compile_ok`, `Context.begins_of_error`: what is known of a run.
-/

namespace EntityFilter

/-- The joins of the root that comparisons share, by attribute name. -/
abbrev Shared := Option (List (String × SourceId))

/-- Notes that a comparison has been met. -/
def Progress.note (p : Progress) (op : Operator) : Progress :=
  { p with joinsNeeded := p.joinsNeeded || !op.isNegation }

namespace Context

variable {ctx : Context}

/-- What a comparison does after its path is joined. -/
def finish (ctx : Context) (clause : Clause) (joins : List Attribute) (last : SourceId)
    (p : Progress) : Predicate × Progress :=
  let p := p.note clause.operator
  match clause.lower ctx.settings ctx.replace
      (Reading.ofSource clause.selector.shape clause.terminal last) with
  | .inPlace predicate => (predicate, { p with query := p.query.markAll predicate.sources })
  | .noneRelated d => p.excludeRelated ctx.settings clause joins d

/-- **A run that succeeds**: the parts of a filter, compiled one after the other, give predicates
and a new state. -/
inductive Compiles (ctx : Context) :
    List Filter → Progress → List Predicate → Progress → Prop
  | nil {p : Progress} : Compiles ctx [] p [] p
  | and {children rest : List Filter} {p p' p'' : Progress} {ps qs : List Predicate}
      (h : Compiles ctx children { p with reuse := none } ps p')
      (hr : Compiles ctx rest { p' with reuse := p.reuse } qs p'') :
      Compiles ctx (.and children :: rest) p (.all ps :: qs) p''
  | or {children rest : List Filter} {p p' p'' : Progress} {ps qs : List Predicate}
      (h : Compiles ctx children { p with reuse := some [] } ps p')
      (hr : Compiles ctx rest { p' with reuse := p.reuse } qs p'') :
      Compiles ctx (.or children :: rest) p (.any ps :: qs) p''
  | comparison {c : Comparison} {rest : List Filter} {p p' : Progress} {qs : List Predicate}
      {clause : Clause} (h : (ctx.schema.plan ctx.model c).2 = .ok clause)
      {last : SourceId} {joined : Progress}
      (hj : Progress.joinAll Query.root (ctx.schema.plan ctx.model c).1 p = (last, joined))
      {predicate : Predicate} {done : Progress}
      (hf : ctx.finish clause (ctx.schema.plan ctx.model c).1 last joined = (predicate, done))
      (hr : Compiles ctx rest done qs p') :
      Compiles ctx (.comparison c :: rest) p (predicate :: qs) p'
  | unrecognized {text : String} {rest : List Filter} {p p' : Progress} {qs : List Predicate}
      (hr : Compiles ctx rest p qs p') : Compiles ctx (.unrecognized text :: rest) p qs p'

/-- **A connective** with its parts: what they share at first, and how their predicates are put
together. -/
inductive Connective : Filter → List Filter → Shared → (List Predicate → Predicate) → Prop
  | and (children : List Filter) : Connective (.and children) children none .all
  | or (children : List Filter) : Connective (.or children) children (some []) .any

/-- **A comparison is begun** in a state, with the shared joins that are put aside. -/
inductive Begins (ctx : Context) :
    List Filter → Progress → List Shared → Comparison → Progress → List Shared → Prop
  | here {c : Comparison} {rest : List Filter} {p : Progress} {aside : List Shared} :
      Begins ctx (.comparison c :: rest) p aside c p aside
  | and {children rest : List Filter} {p p' : Progress} {aside aside' : List Shared}
      {c : Comparison}
      (h : Begins ctx children { p with reuse := none } (p.reuse :: aside) c p' aside') :
      Begins ctx (.and children :: rest) p aside c p' aside'
  | or {children rest : List Filter} {p p' : Progress} {aside aside' : List Shared}
      {c : Comparison}
      (h : Begins ctx children { p with reuse := some [] } (p.reuse :: aside) c p' aside') :
      Begins ctx (.or children :: rest) p aside c p' aside'
  | later {f : Filter} {rest : List Filter} {p p' p'' : Progress} {ps : List Predicate}
      {aside aside' : List Shared} {c : Comparison} (hf : Compiles ctx [f] p ps p')
      (h : Begins ctx rest p' aside c p'' aside') : Begins ctx (f :: rest) p aside c p'' aside'

/-! ## Runs -/

/-- The run of a comparison: its path is joined first, whatever the check of the rest comes to. -/
theorem run_compileComparison (c : Comparison) (p : Progress) :
    (ctx.compileComparison c).run p =
      let plan := ctx.schema.plan ctx.model c
      let joined := Progress.joinAll Query.root plan.1 p
      match plan.2 with
      | .error e => .error e joined.2
      | .ok clause =>
        let done := ctx.finish clause plan.1 joined.1 joined.2
        .ok done.1 done.2 := by
  simp only [compileComparison, EStateM.run_bind, EStateM.run_get, EStateM.run_set]
  cases (ctx.schema.plan ctx.model c).2 with
  | error e => rfl
  | ok clause =>
    simp only [EStateM.run_bind, EStateM.run_modify, finish]
    generalize clause.lower ctx.settings ctx.replace _ = lowered
    cases lowered <;> rfl

section Runs

variable {α β : Type} {shared : Shared} {step : Compiling α} {p p' : Progress} {e : FilterError}

theorem bind_ok {next : α → Compiling β} {b : β} (h : (step >>= next).run p = .ok b p') :
    ∃ a p₁, step.run p = .ok a p₁ ∧ (next a).run p₁ = .ok b p' := by
  rw [EStateM.run_bind] at h
  split at h
  · exact ⟨_, _, ‹_›, h⟩
  · cases h

theorem bind_error {next : α → Compiling β} (h : (step >>= next).run p = .error e p') :
    step.run p = .error e p' ∨
      ∃ a p₁, step.run p = .ok a p₁ ∧ (next a).run p₁ = .error e p' := by
  rw [EStateM.run_bind] at h
  split at h
  · exact Or.inr ⟨_, _, ‹_›, h⟩
  · obtain ⟨rfl, rfl⟩ := EStateM.Result.error.inj h
    exact Or.inl ‹_›

theorem run_sharing : (sharing shared step).run p =
    match step.run { p with reuse := shared } with
    | .ok a p' => .ok a { p' with reuse := p.reuse }
    | .error e p' => .error e p' := by
  simp only [sharing, EStateM.run_bind, EStateM.run_get, EStateM.run_modify, EStateM.run_pure]
  cases step.run { p with reuse := shared } <;> rfl

theorem sharing_ok {a : α} (h : (sharing shared step).run p = .ok a p') :
    ∃ p₁, step.run { p with reuse := shared } = .ok a p₁ ∧ p' = { p₁ with reuse := p.reuse } := by
  rw [run_sharing] at h
  split at h
  · obtain ⟨rfl, rfl⟩ := EStateM.Result.ok.inj h
    exact ⟨_, ‹_›, rfl⟩
  · cases h

theorem sharing_error (h : (sharing shared step).run p = .error e p') :
    step.run { p with reuse := shared } = .error e p' := by
  rw [run_sharing] at h
  split at h
  · cases h
  · obtain ⟨rfl, rfl⟩ := EStateM.Result.error.inj h
    assumption

end Runs

/-- Runs one after the other are one run. -/
theorem Compiles.append {fs rest : List Filter} {p p' p'' : Progress} {ps qs : List Predicate}
    (h : Compiles ctx fs p ps p') (hr : Compiles ctx rest p' qs p'') :
    Compiles ctx (fs ++ rest) p (ps ++ qs) p'' := by
  induction h with
  | nil => exact hr
  | and h _ _ ih => exact .and h (ih hr)
  | or h _ _ ih => exact .or h (ih hr)
  | comparison h hj hf _ ih => exact .comparison h hj hf (ih hr)
  | unrecognized _ ih => exact .unrecognized (ih hr)

mutual

theorem compiles_of_ok (f : Filter) {p p' : Progress} {o : Option Predicate}
    (h : (ctx.compileFilter f).run p = .ok o p') : Compiles ctx [f] p o.toList p' := by
  match f with
  | .and children =>
    obtain ⟨ps, p₁, hs, hp⟩ := bind_ok h
    obtain ⟨rfl, rfl⟩ := EStateM.Result.ok.inj hp
    obtain ⟨p₂, hc, rfl⟩ := sharing_ok hs
    exact .and (allCompile_of_ok children hc) .nil
  | .or children =>
    obtain ⟨ps, p₁, hs, hp⟩ := bind_ok h
    obtain ⟨rfl, rfl⟩ := EStateM.Result.ok.inj hp
    obtain ⟨p₂, hc, rfl⟩ := sharing_ok hs
    exact .or (allCompile_of_ok children hc) .nil
  | .comparison c =>
    obtain ⟨predicate, p₁, hc, hp⟩ := bind_ok h
    obtain ⟨rfl, rfl⟩ := EStateM.Result.ok.inj hp
    simp only [run_compileComparison] at hc
    split at hc
    · cases hc
    · obtain ⟨rfl, rfl⟩ := EStateM.Result.ok.inj hc
      exact .comparison ‹_› rfl rfl .nil
  | .unrecognized text =>
    obtain ⟨rfl, rfl⟩ := EStateM.Result.ok.inj h
    exact .unrecognized .nil

theorem allCompile_of_ok (fs : List Filter) {p p' : Progress} {ps : List Predicate}
    (h : (ctx.compileChildren fs).run p = .ok ps p') : Compiles ctx fs p ps p' := by
  match fs with
  | [] =>
    obtain ⟨rfl, rfl⟩ := EStateM.Result.ok.inj h
    exact .nil
  | f :: rest =>
    obtain ⟨o, p₁, hf, h⟩ := bind_ok h
    obtain ⟨qs, p₂, hr, h⟩ := bind_ok h
    obtain ⟨rfl, rfl⟩ := EStateM.Result.ok.inj h
    exact (compiles_of_ok f hf).append (allCompile_of_ok rest hr)

end

/-- A compilation that succeeds is a run, which ends with dropping the joins that nothing reads. -/
theorem compile_ok {q : Query} {f : Filter} {predicate : Predicate}
    (h : (q.compile ctx f).1 = .ok predicate) :
    q.entity = ctx.schema.entity ∧ ∃ (o : Option Predicate) (p : Progress),
      ctx.Compiles [f] ⟨q, none, false⟩ o.toList p ∧
      q.compile ctx f = (.ok predicate, p.query.discardUnused) ∧ predicate = o.getD .always := by
  unfold Query.compile at h ⊢
  split at h
  · cases h
  · rename_i he
    rw [if_neg he]
    split at h
    · rename_i o p hrun
      obtain rfl := Except.ok.inj h
      exact ⟨Classical.not_not.1 he, o, p, compiles_of_ok f hrun, rfl, rfl⟩
    · cases h

/-- The same where the query is given that the compilation reaches. -/
theorem compiles_of_compile {q q' : Query} {f : Filter} {predicate : Predicate}
    (h : q.compile ctx f = (.ok predicate, q')) :
    q.entity = ctx.schema.entity ∧ ∃ (o : Option Predicate) (p : Progress),
      ctx.Compiles [f] ⟨q, none, false⟩ o.toList p ∧ predicate = o.getD .always ∧
      q' = p.query.discardUnused := by
  obtain ⟨he, o, p, hrun, hcompile, hpredicate⟩ := compile_ok (congrArg Prod.fst h)
  exact ⟨he, o, p, hrun, hpredicate, congrArg Prod.snd (h.symm.trans hcompile)⟩

mutual

/-- **A run fails in the state that a comparison leaves when its check fails.** -/
theorem begins_of_error (f : Filter) {p p' : Progress} {e : FilterError}
    (h : (ctx.compileFilter f).run p = .error e p') (rest : List Filter) (aside : List Shared) :
    ∃ c p₁ aside', Begins ctx (f :: rest) p aside c p₁ aside' ∧
      (ctx.schema.plan ctx.model c).2 = .error e ∧
      p' = (Progress.joinAll Query.root (ctx.schema.plan ctx.model c).1 p₁).2 := by
  match f with
  | .and children =>
    rcases bind_error h with hs | ⟨_, _, _, hp⟩
    · obtain ⟨c, p₁, aside', hb, hp⟩ :=
        anyBegins_of_error children (sharing_error hs) (p.reuse :: aside)
      exact ⟨c, p₁, aside', .and hb, hp⟩
    · cases hp
  | .or children =>
    rcases bind_error h with hs | ⟨_, _, _, hp⟩
    · obtain ⟨c, p₁, aside', hb, hp⟩ :=
        anyBegins_of_error children (sharing_error hs) (p.reuse :: aside)
      exact ⟨c, p₁, aside', .or hb, hp⟩
    · cases hp
  | .comparison c =>
    rcases bind_error h with hc | ⟨_, _, _, hp⟩
    · simp only [run_compileComparison] at hc
      split at hc
      · obtain ⟨rfl, rfl⟩ := EStateM.Result.error.inj hc
        exact ⟨c, p, aside, .here, ‹_›, rfl⟩
      · cases hc
    · cases hp
  | .unrecognized text => cases h

theorem anyBegins_of_error (fs : List Filter) {p p' : Progress} {e : FilterError}
    (h : (ctx.compileChildren fs).run p = .error e p') (aside : List Shared) :
    ∃ c p₁ aside', Begins ctx fs p aside c p₁ aside' ∧
      (ctx.schema.plan ctx.model c).2 = .error e ∧
      p' = (Progress.joinAll Query.root (ctx.schema.plan ctx.model c).1 p₁).2 := by
  match fs with
  | [] => cases h
  | f :: rest =>
    rcases bind_error h with hf | ⟨o, p₁, hf, h⟩
    · exact begins_of_error f hf rest aside
    · rcases bind_error h with hr | ⟨_, _, _, hp⟩
      · obtain ⟨c, p₂, aside', hb, hp⟩ := anyBegins_of_error rest hr aside
        exact ⟨c, p₂, aside', .later (compiles_of_ok f hf) hb, hp⟩
      · cases hp

end

end Context

end EntityFilter
