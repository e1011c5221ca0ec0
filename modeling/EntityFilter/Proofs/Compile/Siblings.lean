import EntityFilter.Proofs.Compile.RootJoins
import EntityFilter.Proofs.Compile.Trails

/-!
# Comparisons that share a join

Two comparisons whose paths begin with the same relation go through one join of the root if they
stand directly under one disjunction, and through two joins otherwise, whatever stands between them
in the filter and whatever is dropped there.

* `Filter.Siblings`: places directly under one disjunction.
* `Context.SharesAt`, `Context.SharesIn`: how the comparisons of a filter, and of the filters of a
  list, come to joins of the root.
* `Context.Proceeds.sharesIn`: the comparisons of a run do so.
* `Context.joins_shared_iff`: two comparisons of a filter go through the same join exactly if they
  are siblings.
-/

namespace EntityFilter

/-- **Places directly under one disjunction.** -/
def Filter.Siblings (f : Filter) (place place' : List Nat) : Prop :=
  ∃ parent children i j, f.part? parent = some (.or children) ∧ place = parent ++ [i] ∧
    place' = parent ++ [j]

namespace Filter

variable {f : Filter} {i j : Nat} {place place' : List Nat}

/-- Places are siblings directly below the root of a disjunction, or in one of the parts. -/
theorem siblings_cons : f.Siblings (i :: place) (j :: place') ↔
    (∃ children, f = .or children) ∧ place = [] ∧ place' = [] ∨
      i = j ∧ ∃ part, f.parts[i]? = some part ∧ part.Siblings place place' := by
  constructor
  · rintro ⟨parent, children, k, l, hparent, hi, hj⟩
    cases parent with
    | nil =>
      obtain ⟨rfl, rfl⟩ := List.cons.inj hi
      obtain ⟨rfl, rfl⟩ := List.cons.inj hj
      rw [part?_nil] at hparent
      exact Or.inl ⟨⟨children, Option.some.inj hparent⟩, rfl, rfl⟩
    | cons first parent =>
      obtain ⟨rfl, rfl⟩ := List.cons.inj hi
      obtain ⟨rfl, rfl⟩ := List.cons.inj hj
      rw [part?_cons] at hparent
      obtain ⟨part, hpart, hparent⟩ := Option.bind_eq_some_iff.1 hparent
      exact Or.inr ⟨rfl, part, hpart, parent, children, k, l, hparent, rfl, rfl⟩
  · rintro (⟨⟨children, rfl⟩, rfl, rfl⟩ |
      ⟨rfl, part, hpart, parent, children, k, l, hparent, rfl, rfl⟩)
    · exact ⟨[], children, i, j, part?_nil, rfl, rfl⟩
    · refine ⟨i :: parent, children, k, l, ?_, rfl, rfl⟩
      rw [part?_cons, partIn?, hpart]
      exact hparent

end Filter

namespace Context

open Query

variable {ctx : Context} {p p' first joined : Progress} {q : Query} {name : String}
  {s t last : SourceId} {c : Comparison} {clause : Clause} {f : Filter} {fs : List Filter}
  {predicate test : Predicate} {ps : List Predicate} {i j : Nat} {place place' : List Nat}

/-! ## Runs -/

/-- The comparison at a place of a filter goes through a join of the root, by a relation of a
name. -/
def JoinsAt (ctx : Context) (q : Query) (f : Filter) (predicate : Predicate) (name : String)
    (place : List Nat) (s : SourceId) : Prop :=
  ∃ c r test, f.part? place = some (.comparison c) ∧ ctx.schema.resolve c.selector = .ok r ∧
    r.navigation.head? = some name ∧ f.counterpart? predicate place = some test ∧
    q.GoesThrough test s

/-- The same of the filters of a list. -/
def JoinsIn (ctx : Context) (q : Query) (fs : List Filter) (ps : List Predicate) (name : String)
    (i : Nat) (place : List Nat) (s : SourceId) : Prop :=
  ∃ c r test, Filter.partIn? fs i place = some (.comparison c) ∧
    ctx.schema.resolve c.selector = .ok r ∧ r.navigation.head? = some name ∧
    Filter.counterpartIn? fs ps i place = some test ∧ q.GoesThrough test s

theorem joinsAt_cons : ctx.JoinsAt q f predicate name (i :: place) s ↔
    ctx.JoinsIn q f.parts predicate.parts name i place s := by
  simp only [JoinsAt, JoinsIn, Filter.part?_cons, Filter.counterpart?_cons]

theorem joinsIn_succ (hf : f.isRecognized = true) :
    ctx.JoinsIn q (f :: fs) (predicate :: ps) name (i + 1) place s ↔
      ctx.JoinsIn q fs ps name i place s := by
  simp only [JoinsIn, Filter.partIn?_succ, Filter.counterpartIn?_succ hf]

theorem joinsIn_skip (hf : f.isRecognized = false) :
    ctx.JoinsIn q (f :: fs) ps name (i + 1) place s ↔ ctx.JoinsIn q fs ps name i place s := by
  simp only [JoinsIn, Filter.partIn?_succ, Filter.counterpartIn?_skip hf]

/-- **How the comparisons of a filter come to joins of the root.** Two of them come to the same join
exactly if they stand directly under one disjunction. -/
structure SharesAt (ctx : Context) (q : Query) (f : Filter) (predicate : Predicate)
    (p p' : Progress) : Prop where
  enters : ∀ {name place s}, ctx.JoinsAt q f predicate name place s →
    Enters p p' name (place = []) s
  eq_iff : ∀ {name place place' s t}, place ≠ place' → ctx.JoinsAt q f predicate name place s →
    ctx.JoinsAt q f predicate name place' t → (s = t ↔ f.Siblings place place')

/-- The same of the filters of a list, which may share joins themselves. -/
structure SharesIn (ctx : Context) (q : Query) (fs : List Filter) (ps : List Predicate)
    (p p' : Progress) : Prop where
  enters : ∀ {name i place s}, ctx.JoinsIn q fs ps name i place s →
    Enters p p' name (place = []) s
  eq_iff : ∀ {name i j place place' s t}, i :: place ≠ j :: place' →
    ctx.JoinsIn q fs ps name i place s → ctx.JoinsIn q fs ps name j place' t →
    (s = t ↔ (p.reuse ≠ none ∧ place = [] ∧ place' = []) ∨
      i = j ∧ ∃ part, fs[i]? = some part ∧ part.Siblings place place')

/-- **One more filter comes before.** -/
theorem SharesIn.cons (h : ctx.SharesIn q fs ps first p') (hf : f.isRecognized = true)
    (hfirst : ctx.SharesAt q f predicate p first) (hr : p.Retains first)
    (hr' : first.Retains p') : ctx.SharesIn q (f :: fs) (predicate :: ps) p p' where
  enters := by
    intro name i place s hs
    cases i with
    | zero => exact (hfirst.enters hs).later hr'
    | succ i => exact (h.enters ((joinsIn_succ hf).1 hs)).earlier hr
  eq_iff := by
    intro name i j place place' s t hne hs ht
    cases i with
    | zero =>
      cases j with
      | zero =>
        have hplaces : place ≠ place' := fun heq => hne (congrArg _ heq)
        rw [hfirst.eq_iff hplaces hs ht]
        constructor
        · exact fun hsib => Or.inr ⟨rfl, f, rfl, hsib⟩
        · rintro (⟨-, rfl, rfl⟩ | ⟨-, part, hpart, hsib⟩)
          · exact absurd rfl hplaces
          · obtain rfl := Option.some.inj hpart
            exact hsib
      | succ j =>
        -- the first comparison is in the filter that comes before the others
        have heq := (hfirst.enters hs).eq_iff (h.enters ((joinsIn_succ hf).1 ht)) hr
        simpa using heq
    | succ i =>
      cases j with
      | zero =>
        have heq := (hfirst.enters ht).eq_iff (h.enters ((joinsIn_succ hf).1 hs)) hr
        rw [eq_comm, heq]
        simp [and_comm]
      | succ j =>
        have hplaces : i :: place ≠ j :: place' := by simpa using hne
        have heq := h.eq_iff hplaces ((joinsIn_succ hf).1 hs) ((joinsIn_succ hf).1 ht)
        have hreuse : first.reuse ≠ none ↔ p.reuse ≠ none := not_congr hr.reuse_eq_none
        rw [heq, hreuse]
        simp

/-- A connective comes to joins by its parts. -/
theorem SharesIn.connect {shared : Shared}
    (h : ctx.SharesIn q f.parts predicate.parts { p with reuse := shared } p')
    (hshared : shared.getD [] = []) (hp : p.Ready ctx.model)
    (hor : shared ≠ none ↔ ∃ children, f = .or children) (hf : ∀ c, f ≠ .comparison c) :
    ctx.SharesAt q f predicate p { p' with reuse := p.reuse } := by
  have hplace : ∀ {name place s}, ctx.JoinsAt q f predicate name place s →
      ∃ i below, place = i :: below := by
    rintro name place s ⟨c, -, -, hc, -⟩
    cases place with
    | nil =>
      rw [Filter.part?_nil] at hc
      exact absurd (Option.some.inj hc) (hf c)
    | cons i below => exact ⟨i, below, rfl⟩
  constructor
  · intro name place s hs
    obtain ⟨i, below, rfl⟩ := hplace hs
    have hinside := (h.enters (joinsAt_cons.1 hs)).inside hshared hp
    simpa using hinside
  · intro name place place' s t hne hs ht
    obtain ⟨i, below, rfl⟩ := hplace hs
    obtain ⟨j, below', rfl⟩ := hplace ht
    rw [h.eq_iff hne (joinsAt_cons.1 hs) (joinsAt_cons.1 ht), Filter.siblings_cons, hor]

/-- Only a disjunction shares joins among its parts. -/
theorem Connective.shares_iff {children : List Filter} {shared : Shared}
    {connect : List Predicate → Predicate} (h : Connective f children shared connect) :
    shared ≠ none ↔ ∃ children, f = .or children := by
  cases h <;> simp

/-- A comparison stands at its own place only. -/
theorem eq_nil_of_joinsAt (h : ctx.JoinsAt q (.comparison c) predicate name place s) :
    place = [] := by
  obtain ⟨c', -, -, hc, -⟩ := h
  cases place with
  | nil => rfl
  | cons i below =>
    rw [Filter.part?_cons] at hc
    cases hc

/-- A comparison comes to the join that its path begins with. -/
theorem sharesAt_comparison (hp : p.Ready ctx.model)
    (hplan : (ctx.schema.plan ctx.model c).2 = .ok clause)
    (hch : ctx.model.Chained (some p.query.entity) (ctx.schema.plan ctx.model c).1)
    (hj : Progress.joinAll root (ctx.schema.plan ctx.model c).1 p = (last, joined))
    (hf : ctx.finish clause (ctx.schema.plan ctx.model c).1 last joined = (predicate, first))
    (hq : q.Sound) (hg : first.query.Grows q) :
    ctx.SharesAt q (.comparison c) predicate p first := by
  constructor
  · intro name place s hs
    obtain rfl := eq_nil_of_joinsAt hs
    obtain ⟨c', r, test, hc, hresolve, hhead, htest, hgoes⟩ := hs
    obtain rfl : c = c' := by simpa using hc
    obtain rfl : predicate = test := by simpa using htest
    obtain ⟨hresolve', hroute, hjoins⟩ := Schema.plan_ok hplan
    obtain rfl : r = clause.selector := Except.ok.inj (hresolve.symm.trans hresolve')
    have hname : ∀ relation rest, (ctx.schema.plan ctx.model c).1 = relation :: rest →
        relation.name = name := by
      intro relation rest hcons
      have hnavigation := Model.navigation_route hroute
      rw [← hjoins, hcons] at hnavigation
      rw [hnavigation] at hhead
      exact Option.some.inj hhead
    simpa using enters_comparison hp hch hj hf hq hg hname hgoes
  · intro name place place' s t hne hs ht
    exact absurd ((eq_nil_of_joinsAt hs).trans (eq_nil_of_joinsAt ht).symm) hne

/-- Text that is no expression comes to no join. -/
theorem exists_of_joinsIn_unrecognized {text : String}
    (h : ctx.JoinsIn q (.unrecognized text :: fs) ps name i place s) :
    ∃ j, i = j + 1 ∧ ctx.JoinsIn q fs ps name j place s := by
  cases i with
  | zero =>
    obtain ⟨c, -, -, hc, -⟩ := h
    cases place <;> cases hc
  | succ i => exact ⟨i, rfl, (joinsIn_skip rfl).1 h⟩

/-- Text that is no expression comes before, which has no predicate. -/
theorem SharesIn.skip (h : ctx.SharesIn q fs ps p p') (text : String) :
    ctx.SharesIn q (.unrecognized text :: fs) ps p p' where
  enters := by
    intro name i place s hs
    obtain ⟨j, rfl, hs⟩ := exists_of_joinsIn_unrecognized hs
    exact h.enters hs
  eq_iff := by
    intro name i j place place' s t hne hs ht
    obtain ⟨i, rfl, hs⟩ := exists_of_joinsIn_unrecognized hs
    obtain ⟨j, rfl, ht⟩ := exists_of_joinsIn_unrecognized ht
    have hplaces : i :: place ≠ j :: place' := by simpa using hne
    rw [h.eq_iff hplaces hs ht]
    simp

/-- **A run comes to joins of the root** by its comparisons, and two of them come to the same join
exactly if they are siblings. -/
theorem Proceeds.sharesIn (h : ctx.Proceeds fs p ps p') (hk : p.Keyed) (hq : q.Sound)
    (hg : p'.query.Grows q) : ctx.SharesIn q fs ps p p' := by
  induction h with
  | nil =>
    constructor
    · rintro name i place s ⟨c, -, -, hc, -⟩
      cases hc
    · rintro name i j place place' s t - ⟨c, -, -, hc, -⟩
      cases hc
  | @connective f _ _ shared connect p p₁ p' ps _ hconn hp _ hfirst hrest _ hr ih ihr =>
    have hinside : p.Retains { p₁ with reuse := p.reuse } := .inside hfirst.follows.grows
    have hshared : Progress.Keyed { p with reuse := shared } := by
      simp [Progress.Keyed, Progress.entries, hconn.entries]
    have hparts : ctx.SharesIn q f.parts (connect ps).parts { p with reuse := shared } p₁ := by
      rw [hconn.parts, hconn.parts_predicate]
      exact ih hshared (hrest.follows.grows.trans hg)
    have hshares : ctx.SharesAt q f (connect ps) p { p₁ with reuse := p.reuse } :=
      hparts.connect hconn.entries hp hconn.shares_iff hconn.ne_comparison
    exact (ihr hk hg).cons hconn.isRecognized hshares hinside (hr.retains hk).1
  | comparison hplan hp _ hch hj hf _ hrest hr ihr =>
    obtain ⟨hretains, hkeyed⟩ := retains_finish hp hk hch hj hf
    have hshares := sharesAt_comparison hp hplan hch hj hf hq (hrest.follows.grows.trans hg)
    exact (ihr hkeyed hg).cons rfl hshares hretains (hr.retains hkeyed).1
  | unrecognized _ ih => exact (ih hk hg).skip _

/-! ## Filters -/

/-- The counterpart of a comparison is its test. -/
theorem LocatesAll.comparedIn (h : ctx.LocatesAll p' [f] [predicate])
    (hc : f.part? place = some (.comparison c))
    (ht : f.counterpart? predicate place = some test) : ctx.ComparedIn p' c test := by
  obtain ⟨found, hfound, hin⟩ := h 0 place c hc
  obtain rfl : found = test := Option.some.inj (hfound.symm.trans ht)
  exact hin

/-- A test that reads a join goes through one join of the root. -/
theorem ComparedIn.goesThrough (h : ctx.ComparedIn p' c test) (hq : q.Sound)
    (hg : p'.query.Grows q) (hjoin : ∃ s ∈ q.rootJoins, s ∈ test.reads) :
    ∃ s, ∀ t, q.GoesThrough test t ↔ t = s := by
  obtain ⟨clause, before, done, -, -, hcompared, hgrows⟩ := h
  obtain ⟨u, hin, hu⟩ := hjoin
  rcases hcompared.lowered with ⟨last, hlower, hpath, -⟩ | ⟨_, _, _, -, -, hex⟩
  · have hlocal := Clause.local_of_inPlace (Reading.ofSource_at _ _ last) hlower
    obtain rfl := (hlocal.reads u).1 hu
    have hpath := (hgrows.trans hg).path hpath
    generalize (ctx.schema.plan ctx.model c).1 = joins at hpath
    cases hpath with
    | nil =>
      -- the root is no join
      obtain ⟨r, hr⟩ := hq.root
      have hparent := (List.mem_filter.1 hin).2
      rw [hr] at hparent
      cases hparent
    | @cons _ s _ _ _ _ hs hk hrest => exact ⟨s, goesThrough_path hq.toArena hs hk hrest hlocal⟩
  · rw [hex.predicate] at hu
    cases hu

/-- The path of a comparison that has been compiled has a first name. -/
theorem ComparedIn.exists_head (h : ctx.ComparedIn p' c test) {r : ResolvedSelector}
    (hr : ctx.schema.resolve c.selector = .ok r) : ∃ name, r.navigation.head? = some name := by
  obtain ⟨clause, before, done, hplan, -⟩ := h
  obtain ⟨hresolve, hroute, -⟩ := Schema.plan_ok hplan
  obtain rfl : r = clause.selector := Except.ok.inj (hr.symm.trans hresolve)
  cases hnavigation : clause.selector.navigation with
  | nil =>
    rw [hnavigation] at hroute
    cases hroute
  | cons name rest => exact ⟨name, rfl⟩

/-- **Which comparisons share a join.** Take two comparisons of a filter that compiles, at different
places, that read outer joins, and whose paths begin with the same relation. Each of them goes
through one join of the root. It is the same join for both exactly if both stand directly under one
and the same disjunction. -/
theorem joins_shared_iff {place₁ place₂ : List Nat} {c₁ c₂ : Comparison} {r₁ r₂ : ResolvedSelector}
    {test₁ test₂ : Predicate}
    (h : (recordsOf ctx.schema.entity).compile ctx f = (.ok predicate, q))
    (hne : place₁ ≠ place₂) (hc₁ : f.part? place₁ = some (.comparison c₁))
    (hc₂ : f.part? place₂ = some (.comparison c₂))
    (ht₁ : f.counterpart? predicate place₁ = some test₁)
    (ht₂ : f.counterpart? predicate place₂ = some test₂)
    (hr₁ : ctx.schema.resolve c₁.selector = .ok r₁)
    (hr₂ : ctx.schema.resolve c₂.selector = .ok r₂)
    (hhead : r₁.navigation.head? = r₂.navigation.head?)
    (hjoin₁ : ∃ s ∈ q.rootJoins, s ∈ test₁.reads) (hjoin₂ : ∃ s ∈ q.rootJoins, s ∈ test₂.reads) :
    ∃ s₁ s₂, (∀ s, q.GoesThrough test₁ s ↔ s = s₁) ∧ (∀ s, q.GoesThrough test₂ s ↔ s = s₂) ∧
      (s₁ = s₂ ↔ f.Siblings place₁ place₂) := by
  have hq : q.Sound := by
    have hsound := (compile_sound (sound_recordsOf ctx.schema.entity) ctx f).1
    rwa [h] at hsound
  obtain ⟨he, o, p', hcompiles, rfl, rfl⟩ := compiles_of_compile h
  have hgrows : p'.query.Grows p'.query.discardUnused := .discardUnused p'.query
  have hrun := hcompiles.proceeds (ready_start ctx.model (sound_recordsOf ctx.schema.entity)) he
  have hshares := hrun.sharesIn List.nodup_nil hq hgrows
  obtain ⟨predicate, rfl⟩ : ∃ predicate, o = some predicate := by
    obtain ⟨found, hfound, -⟩ := hrun.locates 0 place₁ c₁ hc₁
    cases o with
    | none => cases hfound
    | some predicate => exact ⟨predicate, rfl⟩
  -- each comparison has been compiled to its test, which goes through one join
  have hin₁ := hrun.locates.comparedIn hc₁ ht₁
  have hin₂ := hrun.locates.comparedIn hc₂ ht₂
  obtain ⟨s₁, hs₁⟩ := hin₁.goesThrough hq hgrows hjoin₁
  obtain ⟨s₂, hs₂⟩ := hin₂.goesThrough hq hgrows hjoin₂
  obtain ⟨name, hname⟩ := hin₁.exists_head hr₁
  have hat₁ : ctx.JoinsIn p'.query.discardUnused [f] [predicate] name 0 place₁ s₁ :=
    ⟨c₁, r₁, test₁, hc₁, hr₁, hname, ht₁, (hs₁ s₁).2 rfl⟩
  have hat₂ : ctx.JoinsIn p'.query.discardUnused [f] [predicate] name 0 place₂ s₂ :=
    ⟨c₂, r₂, test₂, hc₂, hr₂, hhead ▸ hname, ht₂, (hs₂ s₂).2 rfl⟩
  have hplaces : 0 :: place₁ ≠ 0 :: place₂ := fun heq => hne (List.cons.inj heq).2
  refine ⟨s₁, s₂, hs₁, hs₂, ?_⟩
  rw [hshares.eq_iff hplaces hat₁ hat₂]
  -- the filter itself stands under no disjunction
  simp

end Context

namespace Shop

open Query

/-- Two comparisons stand directly under the disjunction, with a conjunction and a negation between
them. -/
def twoOrBothOrThree : Filter :=
  .or [.compareOne .equal "item.qty" "2", .unrecognized "quantity",
    .and [.compareOne .notEqual "item.qty" "4", .compareOne .equal "item.qty" "5"],
    .compareOne .equal "item.qty" "3"]

/-- The first test and the last one read the same join. -/
def quantityTests : Predicate :=
  .or [.equal (.column 1 "qty") (.text "2"),
    .and [.not (.hasRow 0), .equal (.column 5 "qty") (.text "5")],
    .equal (.column 1 "qty") (.text "3")]

/-- What its compilation reaches. -/
def quantities : Query := ((recordsOf "Order").compile context twoOrBothOrThree).2

theorem twoOrBothOrThree_shares :
    (recordsOf "Order").compile context twoOrBothOrThree = (.ok quantityTests, quantities) ∧
      (∃ s₁ s₂, (∀ s, quantities.GoesThrough (.equal (.column 1 "qty") (.text "2")) s ↔ s = s₁) ∧
        (∀ s, quantities.GoesThrough (.equal (.column 1 "qty") (.text "3")) s ↔ s = s₂) ∧
        (s₁ = s₂ ↔ twoOrBothOrThree.Siblings [0] [3])) ∧
      ∃ s₁ s₂, (∀ s, quantities.GoesThrough (.equal (.column 1 "qty") (.text "2")) s ↔ s = s₁) ∧
        (∀ s, quantities.GoesThrough (.equal (.column 5 "qty") (.text "5")) s ↔ s = s₂) ∧
        (s₁ = s₂ ↔ twoOrBothOrThree.Siblings [0] [2, 1]) := by
  have h : (recordsOf context.schema.entity).compile context twoOrBothOrThree =
      (.ok quantityTests, quantities) := by decide +kernel
  have hjoins : quantities.rootJoins = [1, 5] := by decide +kernel
  have hjoin : ∀ {s v}, s ∈ [1, 5] →
      ∃ t ∈ quantities.rootJoins, t ∈ (Predicate.equal (.column s "qty") v).reads := fun hs =>
    ⟨_, hjoins ▸ hs, List.mem_singleton_self _⟩
  refine ⟨h, ?_, ?_⟩
  · exact Context.joins_shared_iff h (by decide) rfl rfl rfl rfl rfl rfl rfl (hjoin (by decide))
      (hjoin (by decide))
  · exact Context.joins_shared_iff h (by decide) rfl rfl rfl rfl rfl rfl rfl (hjoin (by decide))
      (hjoin (by decide))

end Shop

end EntityFilter
