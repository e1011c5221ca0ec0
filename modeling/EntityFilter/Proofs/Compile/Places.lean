import EntityFilter.Proofs.Compile.Meaning

/-!
# Places in filters

A filter may hold the same comparison several times, so a comparison is told by its place: the
numbers of the parts to go to, level by level. What is compiled has the same shape, but for text
that is no expression, which has no predicate.

* `Filter.part?`: what stands at a place of a filter.
* `Filter.counterpart?`: the predicate that was compiled for it.
* `Context.Locates`, `Context.Proceeds.locates`: every comparison of a run has been compiled on its
  own, from some state of the run, and its predicate stands where its counterpart is looked for.
-/

namespace EntityFilter

/-- The parts of a connective. -/
def Filter.parts : Filter → List Filter
  | .and children => children
  | .or children => children
  | _ => []

/-- The parts of a connective. -/
def Predicate.parts : Predicate → List Predicate
  | .and children => children
  | .or children => children
  | _ => []

/-- A conjunction has its parts, also if it has none. -/
@[simp] theorem Predicate.parts_all (ps : List Predicate) : (Predicate.all ps).parts = ps := by
  cases ps <;> rfl

/-- A disjunction has its parts, also if it has none. -/
@[simp] theorem Predicate.parts_any (ps : List Predicate) : (Predicate.any ps).parts = ps := by
  cases ps <;> rfl

namespace Filter

/-- **What stands at a place of a filter.** -/
def part? : Filter → List Nat → Option Filter
  | f, [] => some f
  | f, i :: place => f.parts[i]?.bind fun part => part.part? place

/-- How many of the first parts of a list have predicates. -/
def rank (fs : List Filter) (i : Nat) : Nat :=
  (fs.take i).countP isRecognized

/-- **The predicate that stands for what is at a place**, in the predicate of the filter. -/
def counterpart? : Filter → Predicate → List Nat → Option Predicate
  | _, predicate, [] => some predicate
  | f, predicate, i :: place =>
    f.parts[i]?.bind fun part =>
      predicate.parts[rank f.parts i]?.bind fun predicate => part.counterpart? predicate place

/-- What stands at a place of the filters of a list, a number first for the filter. -/
def partIn? (fs : List Filter) (i : Nat) (place : List Nat) : Option Filter :=
  fs[i]?.bind fun f => f.part? place

/-- The predicate that stands for what is at a place of the filters of a list. -/
def counterpartIn? (fs : List Filter) (ps : List Predicate) (i : Nat) (place : List Nat) :
    Option Predicate :=
  fs[i]?.bind fun f => ps[rank fs i]?.bind fun predicate => f.counterpart? predicate place

variable {f : Filter} {fs : List Filter} {predicate : Predicate} {ps : List Predicate} {i j : Nat}
  {place : List Nat}

@[simp] theorem part?_nil : f.part? [] = some f := by
  cases f <;> rfl

theorem part?_cons : f.part? (i :: place) = partIn? f.parts i place := by
  cases f <;> rfl

@[simp] theorem counterpart?_nil : f.counterpart? predicate [] = some predicate := by
  cases f <;> rfl

theorem counterpart?_cons :
    f.counterpart? predicate (i :: place) = counterpartIn? f.parts predicate.parts i place := by
  cases f <;> rfl

@[simp] theorem partIn?_zero : partIn? (f :: fs) 0 place = f.part? place := rfl

@[simp] theorem partIn?_succ : partIn? (f :: fs) (i + 1) place = partIn? fs i place := rfl

@[simp] theorem counterpartIn?_zero :
    counterpartIn? (f :: fs) (predicate :: ps) 0 place = f.counterpart? predicate place := rfl

/-- Behind an expression the predicates are one further, too. -/
theorem counterpartIn?_succ (hf : f.isRecognized = true) :
    counterpartIn? (f :: fs) (predicate :: ps) (i + 1) place = counterpartIn? fs ps i place := by
  have hrank : rank (f :: fs) (i + 1) = rank fs i + 1 := by simp [rank, hf]
  unfold counterpartIn?
  rw [hrank]
  rfl

/-- Text that is no expression makes no difference to where predicates stand. -/
theorem counterpartIn?_skip (hf : f.isRecognized = false) :
    counterpartIn? (f :: fs) ps (i + 1) place = counterpartIn? fs ps i place := by
  have hrank : rank (f :: fs) (i + 1) = rank fs i := by simp [rank, hf]
  unfold counterpartIn?
  rw [hrank]
  rfl

end Filter

namespace Context

open Query

variable {ctx : Context} {fs : List Filter} {ps : List Predicate} {p p' : Progress} {c : Comparison}
  {i : Nat} {place : List Nat}

/-- **A comparison is compiled in the course of a run**, to a predicate that stays. -/
def ComparedIn (ctx : Context) (p' : Progress) (c : Comparison) (predicate : Predicate) : Prop :=
  ∃ clause before done, (ctx.schema.plan ctx.model c).2 = .ok clause ∧
    before.query.entity = ctx.schema.entity ∧
    ctx.Compared before clause (ctx.schema.plan ctx.model c).1 predicate done ∧
    done.query.Grows p'.query

theorem ComparedIn.of_grows {predicate : Predicate} {p'' : Progress}
    (h : ctx.ComparedIn p' c predicate) (hg : p'.query.Grows p''.query) :
    ctx.ComparedIn p'' c predicate := by
  obtain ⟨clause, before, done, hplan, he, hcompared, hgrows⟩ := h
  exact ⟨clause, before, done, hplan, he, hcompared, hgrows.trans hg⟩

/-- **Every comparison of a filter has been compiled on its own**, and its predicate stands where
its counterpart is looked for. -/
def Locates (ctx : Context) (p' : Progress) (f : Filter) (predicate : Predicate) : Prop :=
  ∀ place c, f.part? place = some (.comparison c) →
    ∃ found, f.counterpart? predicate place = some found ∧ ctx.ComparedIn p' c found

/-- The same of the filters of a list. -/
def LocatesAll (ctx : Context) (p' : Progress) (fs : List Filter) (ps : List Predicate) : Prop :=
  ∀ i place c, Filter.partIn? fs i place = some (.comparison c) →
    ∃ found, Filter.counterpartIn? fs ps i place = some found ∧ ctx.ComparedIn p' c found

/-- What has been located stays where it is while the query grows. -/
theorem Locates.of_grows {f : Filter} {predicate : Predicate} {p'' : Progress}
    (h : ctx.Locates p' f predicate) (hg : p'.query.Grows p''.query) :
    ctx.Locates p'' f predicate := by
  intro place c hc
  obtain ⟨found, hfound, hcompared⟩ := h place c hc
  exact ⟨found, hfound, hcompared.of_grows hg⟩

/-- One more filter comes before. -/
theorem LocatesAll.cons {f : Filter} {predicate : Predicate} (h : ctx.LocatesAll p' fs ps)
    (hf : f.isRecognized = true) (hfirst : ctx.Locates p' f predicate) :
    ctx.LocatesAll p' (f :: fs) (predicate :: ps) := by
  intro i place c hc
  cases i with
  | zero => exact hfirst place c hc
  | succ i =>
    rw [Filter.counterpartIn?_succ hf]
    exact h i place c hc

/-- A connective is located by its parts. -/
theorem LocatesAll.connect {f : Filter} {predicate : Predicate}
    (h : ctx.LocatesAll p' f.parts predicate.parts) (hf : ∀ c, f ≠ .comparison c) :
    ctx.Locates p' f predicate := by
  intro place c hc
  cases place with
  | nil =>
    rw [Filter.part?_nil] at hc
    exact absurd (Option.some.inj hc) (hf c)
  | cons i place =>
    rw [Filter.part?_cons] at hc
    rw [Filter.counterpart?_cons]
    exact h i place c hc

namespace Connective

variable {f : Filter} {children : List Filter} {shared : Shared}
  {connect : List Predicate → Predicate}

theorem parts (h : Connective f children shared connect) : f.parts = children := by
  cases h <;> rfl

theorem parts_predicate (h : Connective f children shared connect) (ps : List Predicate) :
    (connect ps).parts = ps := by
  cases h with
  | and => exact Predicate.parts_all ps
  | or => exact Predicate.parts_any ps

theorem isRecognized (h : Connective f children shared connect) : f.isRecognized = true := by
  cases h <;> rfl

theorem ne_comparison (h : Connective f children shared connect) (c : Comparison) :
    f ≠ .comparison c := by
  cases h <;> nofun

end Connective

/-- A comparison is located at its own place, below which there is nothing. -/
theorem ComparedIn.locates {predicate : Predicate} (h : ctx.ComparedIn p' c predicate) :
    ctx.Locates p' (.comparison c) predicate := by
  intro place c' hc
  cases place with
  | nil =>
    obtain rfl : c = c' := by simpa using hc
    exact ⟨predicate, Filter.counterpart?_nil, h⟩
  | cons i place =>
    rw [Filter.part?_cons] at hc
    cases hc

/-- **A run locates its comparisons.** -/
theorem Proceeds.locates (h : ctx.Proceeds fs p ps p') : ctx.LocatesAll p' fs ps := by
  induction h with
  | nil =>
    intro i place c hc
    cases hc
  | @connective f _ _ _ connect _ p₁ p' ps _ hconn _ _ _ hrest _ _ ih ihr =>
    have hparts : ctx.LocatesAll p₁ f.parts (connect ps).parts := by
      rw [hconn.parts, hconn.parts_predicate]
      exact ih
    have hlocates : ctx.Locates p' f (connect ps) :=
      (hparts.connect hconn.ne_comparison).of_grows hrest.follows.grows
    exact ihr.cons hconn.isRecognized hlocates
  | @comparison c _ p p' _ clause hplan _ he _ _ _ _ predicate done _ hcompared hrest _ ihr =>
    have hin : ctx.ComparedIn p' c predicate :=
      ⟨clause, p, done, hplan, he, hcompared, hrest.follows.grows⟩
    exact ihr.cons rfl hin.locates
  | unrecognized _ ihr =>
    intro i place c hc
    cases i with
    | zero => cases place <;> cases hc
    | succ i =>
      rw [Filter.counterpartIn?_skip rfl]
      exact ihr i place c hc

end Context

end EntityFilter
