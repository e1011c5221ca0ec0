import EntityFilter.Proofs.Compile.Meaning
import EntityFilter.Proofs.Compile.Sharing

/-!
# Coming to a join of the root

A comparison whose path begins with a relation goes through one join of the root. It takes the join
that is shared under the name of the relation, if there is one, and a new join otherwise. What comes
before and after in the run changes nothing of that.

* `Query.GoesThrough`, `Query.goesThrough_path`: the join of the root that a test goes through.
* `Progress.Retains`, `Context.Proceeds.retains`: what a run leaves of the joins that are shared.
* `Context.Enters`: how a comparison comes to its join of the root, in the course of a run.
* `Context.Enters.eq_iff`: of two comparisons one of which comes after the other, both come to one
  join exactly if they share joins.
* `Context.enters_comparison`: a comparison that is compiled comes to its join so.
-/

namespace EntityFilter

namespace Query

variable {q : Query} {s t last : SourceId} {src : Source} {relation : Attribute} {kind : JoinKind}
  {joins : List Attribute} {test : Predicate}

/-- **A test goes through a join of the root**: it reads the join, or a source below. -/
def GoesThrough (q : Query) (test : Predicate) (s : SourceId) : Prop :=
  (q.source? s).bind Source.parent? = some root ∧ q.Below test s

/-- Below a join a path goes through no join of the root. -/
theorem mem_lineage_path (hq : q.Arena) (hp : q.Path s joins last) (hs : s ≠ root)
    (ht : (q.source? t).bind Source.parent? = some root) :
    t ∈ q.lineage last ↔ t ∈ q.lineage s := by
  induction hp with
  | nil => exact Iff.rfl
  | @cons start s last relation rest src hsrc hk _ ih =>
    have hparent := Source.parent?_of_join hk
    have hlt : start < s := (hq.parent hsrc hparent).1
    have hne : s ≠ root := by
      rintro rfl
      exact absurd hlt (Nat.not_lt_zero _)
    rw [ih hne, mem_lineage_iff hq hsrc hparent]
    refine ⟨fun h => h.resolve_left ?_, Or.inr⟩
    -- the parent of this join is not the root
    rintro rfl
    rw [hsrc, Option.bind_some, hparent] at ht
    exact hs (Option.some.inj ht)

/-- The sources of a path are a path. -/
theorem Chain.path {l : List SourceId} (h : q.Chain s joins l last) : q.Path s joins last := by
  induction h with
  | nil => exact .nil
  | cons hs hk _ ih => exact .cons hs hk ih

/-- **A test of the end of a path goes through the first join of the path**, and through no other
join of the root. -/
theorem goesThrough_path (hq : q.Arena) (hsrc : q.source? s = some src)
    (hk : src.kind = .join root relation kind) (hp : q.Path s joins last) (hlocal : test.Local last)
    (t : SourceId) : q.GoesThrough test t ↔ t = s := by
  have hparent := Source.parent?_of_join hk
  have hne : s ≠ root := by
    rintro rfl
    exact absurd (hq.parent hsrc hparent).1 (Nat.lt_irrefl _)
  have hbelow : q.Below test t ↔ t ∈ q.lineage last := by
    constructor
    · rintro ⟨u, hu, ht⟩
      exact (hlocal.reads u).1 hu ▸ ht
    · exact fun ht => ⟨last, (hlocal.reads last).2 rfl, ht⟩
  unfold GoesThrough
  rw [hbelow]
  constructor
  · rintro ⟨ht, hmem⟩
    rw [mem_lineage_path hq hp hne ht, mem_lineage_iff hq hsrc hparent, lineage_root hq,
      List.mem_singleton] at hmem
    refine hmem.resolve_right ?_
    -- the root is no join
    rintro rfl
    obtain ⟨r, hr⟩ := hq.root
    rw [hr] at ht
    cases ht
  · rintro rfl
    have ht : (q.source? t).bind Source.parent? = some root := by
      rw [hsrc, Option.bind_some, hparent]
    exact ⟨ht, (mem_lineage_path hq hp hne ht).2 (self_mem_lineage q t)⟩

end Query

namespace Progress

open Query

variable {p p' p'' : Progress} {name : String} {s : SourceId} {b : Binding} {env : Env}

/-- A join of the root is shared under the name of its relation. -/
def Shares (p : Progress) (name : String) (s : SourceId) : Prop :=
  ∃ shared, p.reuse = some shared ∧ shared.lookup name = some s

/-- What is shared is what is held where nothing else is bound. -/
theorem shares_iff_held : p.Shares name s ↔
    ∃ held, p.held (Env.empty.set s .missing) = some held ∧ held name = some .missing := by
  constructor
  · rintro ⟨shared, hr, hlookup⟩
    refine ⟨_, held_of_some hr, ?_⟩
    rw [hlookup, Option.bind_some, Env.set_self]
  · rintro ⟨held, hheld, hname⟩
    cases hr : p.reuse with
    | none =>
      rw [held_of_none hr] at hheld
      cases hheld
    | some shared =>
      rw [held_of_some hr] at hheld
      obtain rfl := Option.some.inj hheld
      obtain ⟨t, hlookup, ht⟩ := Option.bind_eq_some_iff.1 hname
      -- nothing but the one source is bound
      by_cases hts : t = s
      · exact ⟨shared, hr, hts ▸ hlookup⟩
      · rw [Env.set_of_ne hts] at ht
        cases ht

/-- **What a step leaves of the joins that are shared**: those that are marked stay, and others that
come in addition are new. -/
structure Retains (p p' : Progress) : Prop where
  grows : p.query.Grows p'.query
  entries : ∀ e ∈ p'.entries, e ∈ p.entries ∨ p.query.nextSource ≤ e.2
  held : ∀ {env}, p.Grounds env → p'.held env = p.held env

theorem Retains.refl (p : Progress) : Retains p p := ⟨.refl _, fun _ he => Or.inl he, fun _ => rfl⟩

theorem Retains.trans (h : Retains p p') (h' : Retains p' p'') : Retains p p'' where
  grows := h.grows.trans h'.grows
  entries := by
    intro e he
    rcases h'.entries e he with he | hle
    · exact h.entries e he
    · exact Or.inr (Nat.le_trans h.grows.nextSource_le hle)
  held := fun henv => (h'.held (henv.of_grows h.grows)).trans (h.held henv)

/-- A join that is shared and marked stays shared. -/
theorem Retains.shares (h : Retains p p') (hs : p.Shares name s) (hm : p.query.Marked s) :
    p'.Shares name s := by
  have hgrounds : p.Grounds (Env.empty.set s .missing) := by
    intro t ht
    by_cases hts : t = s
    · exact Or.inr (hts ▸ hm)
    · rw [Env.set_of_ne hts] at ht
      cases ht
  rw [shares_iff_held] at hs ⊢
  rw [h.held hgrounds]
  exact hs

/-- Whether joins are shared at all does not change. -/
theorem Retains.reuse_eq_none (h : Retains p p') : p'.reuse = none ↔ p.reuse = none := by
  have hnone : ∀ {p : Progress}, p.held Env.empty = none ↔ p.reuse = none :=
    Option.map_eq_none_iff
  rw [← hnone, h.held p.grounds_empty, hnone]

/-- What a connective shares among its parts is forgotten behind it. -/
theorem Retains.inside (hg : p.query.Grows p'.query) :
    Retains p { p' with reuse := p.reuse } where
  grows := hg
  entries := fun _ he => Or.inl he
  held := fun _ => rfl

end Progress

namespace Context

open Query

variable {ctx : Context} {p p' first joined done : Progress} {q : Query} {name : String}
  {s t last : SourceId} {direct : Prop} {clause : Clause} {joins : List Attribute}
  {fs : List Filter} {predicate : Predicate} {ps : List Predicate}

/-- A comparison keeps the joins that are shared. -/
theorem retains_finish (hp : p.Ready ctx.model) (hk : p.Keyed)
    (hch : ctx.model.Chained (some p.query.entity) joins)
    (hj : Progress.joinAll root joins p = (last, joined))
    (hf : ctx.finish clause joins last joined = (predicate, done)) :
    p.Retains done ∧ done.Keyed := by
  have hcompared := finish_compared hp hch hj hf
  have hfinish : ∀ {env}, p.Grounds env → done.held env = p.held env ∧ done.Keyed :=
    Progress.held_finish hp hk hch hj hf
  exact ⟨⟨hcompared.follows.grows, hcompared.entries, fun henv => (hfinish henv).1⟩,
    (hfinish p.grounds_empty).2⟩

/-- **A run keeps the joins that are shared**, and shares no name twice. -/
theorem Proceeds.retains (h : ctx.Proceeds fs p ps p') (hk : p.Keyed) :
    p.Retains p' ∧ p'.Keyed := by
  induction h with
  | nil => exact ⟨.refl _, hk⟩
  | connective _ _ _ hfirst _ _ _ _ ihr =>
    obtain ⟨hrest, hk'⟩ := ihr hk
    exact ⟨(Progress.Retains.inside hfirst.follows.grows).trans hrest, hk'⟩
  | comparison _ hp _ hch hj hf _ _ _ ihr =>
    obtain ⟨hfirst, hkeyed⟩ := retains_finish hp hk hch hj hf
    obtain ⟨hrest, hk'⟩ := ihr hkeyed
    exact ⟨hfirst.trans hrest, hk'⟩
  | unrecognized _ ihr => exact ihr hk

/-! ## Coming to a join of the root -/

/-- **How a comparison comes to its join of the root** in the course of a run, by a relation of a
name. If it stands directly among the filters of the run, it takes the join that is shared under the
name, and leaves its join to be shared. Otherwise it takes a new join, which is not shared. -/
structure Enters (p p' : Progress) (name : String) (direct : Prop) (s : SourceId) : Prop where
  origin : p.query.nextSource ≤ s ∨ direct ∧ (name, s) ∈ p.entries
  taken : direct → ∀ t, p.Shares name t → p.query.Marked t → s = t
  marked : p'.query.Marked s
  left : direct → p.reuse ≠ none → p'.Shares name s
  aside : ¬ direct → ∀ e ∈ p'.entries, e.2 ≠ s

theorem Enters.lt (h : Enters p p' name direct s) : s < p'.query.nextSource := by
  obtain ⟨src, hsrc, -⟩ := h.marked
  exact source?_lt hsrc

/-- What comes later changes nothing of it. -/
theorem Enters.later (h : Enters p first name direct s) (hr : first.Retains p') :
    Enters p p' name direct s where
  origin := h.origin
  taken := h.taken
  marked := hr.grows.marked h.marked
  left := fun hdirect hshared => hr.shares (h.left hdirect hshared) h.marked
  aside := by
    intro hdirect e he
    rcases hr.entries e he with he | hle
    · exact h.aside hdirect e he
    · exact Nat.ne_of_gt (Nat.lt_of_lt_of_le h.lt hle)

/-- Nor does what has come before. -/
theorem Enters.earlier (h : Enters first p' name direct s) (hr : p.Retains first) :
    Enters p p' name direct s where
  origin := by
    rcases h.origin with hle | ⟨hdirect, he⟩
    · exact Or.inl (Nat.le_trans hr.grows.nextSource_le hle)
    · rcases hr.entries _ he with he | hle
      · exact Or.inr ⟨hdirect, he⟩
      · exact Or.inl hle
  taken := fun hdirect t hs hm => h.taken hdirect t (hr.shares hs hm) (hr.grows.marked hm)
  marked := h.marked
  left := fun hdirect hshared => h.left hdirect (hshared ∘ hr.reuse_eq_none.1)
  aside := h.aside

/-- Inside of a connective nothing is shared at first, and nothing of it is shared behind. -/
theorem Enters.inside {shared : Shared} (h : Enters { p with reuse := shared } p' name direct s)
    (hshared : shared.getD [] = []) (hp : p.Ready ctx.model) :
    Enters p { p' with reuse := p.reuse } name False s := by
  have hle : p.query.nextSource ≤ s := by
    rcases h.origin with hle | ⟨-, he⟩
    · exact hle
    · rw [Progress.entries, hshared] at he
      cases he
  exact {
    origin := Or.inl hle
    taken := False.elim
    marked := h.marked
    left := False.elim
    aside := by
      intro _ e he
      have hlt : e.2 < p.query.nextSource := lt_of_mem_activeIn (hp.shared e he).2
      exact Nat.ne_of_lt (Nat.lt_of_lt_of_le hlt hle) }

/-- **Of two comparisons one of which comes after the other**, both go through one join exactly if
both stand directly among the filters of the run, and these share joins. -/
theorem Enters.eq_iff {direct' : Prop} (h : Enters p first name direct s)
    (h' : Enters first p' name direct' t) (hr : p.Retains first) :
    s = t ↔ p.reuse ≠ none ∧ direct ∧ direct' := by
  constructor
  · rintro rfl
    -- the join is no new one for the second comparison, so it has found it shared
    obtain ⟨hdirect', he⟩ := h'.origin.resolve_left (Nat.not_le_of_lt h.lt)
    refine ⟨fun hnone => ?_, ?_, hdirect'⟩
    · rw [Progress.entries, hr.reuse_eq_none.2 hnone] at he
      cases he
    · by_cases hdirect : direct
      · exact hdirect
      · exact absurd rfl (h.aside hdirect _ he)
  · rintro ⟨hshared, hdirect, hdirect'⟩
    exact (h'.taken hdirect' s (h.left hdirect hshared) h.marked).symm

/-- A comparison that goes through a join of the root takes the one that is shared under the name of
the relation, or a new one. -/
theorem enters_join {relation : Attribute} (h : p.join root relation = (s, first))
    (hreuse : done.reuse = first.reuse) (hm : done.query.Marked s) :
    Enters p done relation.name True s where
  origin := by
    rcases Progress.join_root h with ⟨-, rfl, -⟩ | ⟨-, -, -, rfl, -⟩ | ⟨shared, hr, hlookup, -⟩
    · exact Or.inl (Nat.le_refl _)
    · exact Or.inl (Nat.le_refl _)
    · exact Or.inr ⟨trivial, Progress.mem_entries_of_lookup hr hlookup⟩
  taken := by
    rintro - t ⟨shared, hr, hlookup⟩ -
    rcases Progress.join_root h with
      ⟨hnone, -⟩ | ⟨shared', hr', hnone, -⟩ | ⟨shared', hr', hlookup', -⟩
    · rw [hr] at hnone
      cases hnone
    · obtain rfl := Option.some.inj (hr.symm.trans hr')
      rw [hlookup] at hnone
      cases hnone
    · obtain rfl := Option.some.inj (hr.symm.trans hr')
      exact Option.some.inj (hlookup'.symm.trans hlookup)
  marked := hm
  left := by
    intro _ hshared
    have hfirst : first.Shares relation.name s := by
      rcases Progress.join_root h with
        ⟨hnone, -⟩ | ⟨shared, -, -, -, rfl⟩ | ⟨shared, hr, hlookup, rfl⟩
      · exact absurd hnone hshared
      · exact ⟨_, rfl, List.lookup_cons_self⟩
      · exact ⟨shared, hr, hlookup⟩
    obtain ⟨shared, hr, hlookup⟩ := hfirst
    exact ⟨shared, hreuse.trans hr, hlookup⟩
  aside := fun h => absurd trivial h

/-- **A comparison of the run** comes so to every join of the root that its test goes through. -/
theorem enters_comparison (hp : p.Ready ctx.model)
    (hch : ctx.model.Chained (some p.query.entity) joins)
    (hj : Progress.joinAll root joins p = (last, joined))
    (hf : ctx.finish clause joins last joined = (predicate, done)) (hq : q.Sound)
    (hg : done.query.Grows q) (hname : ∀ relation rest, joins = relation :: rest →
      relation.name = name) (hs : q.GoesThrough predicate s) : Enters p done name True s := by
  have hcompared := finish_compared hp hch hj hf
  have hmarked : done.query.Marked s := by
    obtain ⟨u, hu, hlin⟩ := (hcompared.safe.below_iff hcompared.ready.sound hg).1 hs.2
    exact hcompared.safe.reads u hu s hlin
  obtain ⟨hparent, u, hu, hlineage⟩ := hs
  unfold finish at hf
  dsimp only at hf
  split at hf
  · rename_i test hlower
    obtain ⟨rfl, rfl⟩ := Prod.mk.inj hf
    have hlocal := Clause.local_of_inPlace (Reading.ofSource_at _ _ last) hlower
    obtain rfl := (hlocal.reads u).1 hu
    cases joins with
    | nil =>
      -- what reads the root goes through no join
      obtain ⟨rfl, -⟩ := Prod.mk.inj hj
      rw [lineage_root hq.toArena, List.mem_singleton] at hlineage
      obtain ⟨r, hr⟩ := hq.root
      rw [hlineage, hr] at hparent
      cases hparent
    | cons relation rest =>
      obtain rfl := hname relation rest rfl
      have hlater : joined.query.Grows q := (Grows.markAll joined.query test.sources).trans hg
      obtain ⟨s', p₁, l, src, hjoin, -, hsrc, hk, hreuse, hchain, -⟩ :=
        Progress.joinAll_root hp hch hj hq hlater
      have hgoes := goesThrough_path hq.toArena hsrc hk hchain.path hlocal s
      obtain rfl : s = s' := hgoes.1 ⟨hparent, u, hu, hlineage⟩
      exact enters_join hjoin hreuse hmarked
  · -- the sub-query of a negation is asked for, and nothing is read
    have hpredicate : predicate = .not (.hasRow _) := (congrArg Prod.fst hf).symm
    rw [hpredicate] at hu
    cases hu

end Context

end EntityFilter
