import EntityFilter.Proofs.Compile.Dropping

/-!
# Joins that stay

Filters may be compiled onto a query that other filters have been compiled onto. What their
predicates read stays there. So a selection goes through these joins too, whatever it asks for, and
lists a record once for each way to bind them.

* `Query.lasting`: the joins that stay.
* `Query.hangs_lasting`: they can be bound one after the other when the root is bound.
* `Query.copies`: how many ways there are to bind them.
* `Context.Compiles.mem_lasting`: what a run adds to them.
-/

namespace EntityFilter

namespace Query

variable {st : Store} {q q' : Query} {s above : SourceId} {src : Source} {b : Binding}

/-- **The joins that stay**, whatever is compiled later: a predicate is known to read them. -/
def lasting (q : Query) : List SourceId := q.discardUnused.rootJoins

theorem mem_lasting (hq : q.Sound) : s ∈ q.lasting ↔ s ≠ root ∧ q.Marked s := by
  constructor
  · intro hs
    refine ⟨?_, marked_discardUnused (marked_of_mem_rootJoins hs)⟩
    rintro rfl
    obtain ⟨r, hr⟩ := hq.discardUnused.root
    have hjoin := (List.mem_filter.1 hs).2
    rw [hr] at hjoin
    cases hjoin
  · rintro ⟨hne, hs⟩
    have hact := ((Grows.discardUnused q).marked hs).active hq.discardUnused
    obtain ⟨rest, hrest, -⟩ := activeIn_outer hq.discardUnused.toArena
    rw [lasting, rootJoins_eq_tail hq.discardUnused.toArena, hrest, List.tail_cons]
    rw [hrest] at hact
    exact (List.mem_cons.1 hact).resolve_left hne

theorem lasting_ascending (q : Query) : q.lasting.Pairwise (· < ·) :=
  (q.discardUnused.activeIn_ascending .outer).filter _

theorem lasting_recordsOf (entity : String) : (recordsOf entity).lasting = [] := rfl

/-- Marks go up to the root. -/
theorem Marked.parent (hs : q.Marked s) (hq : q.Sound) (hsrc : q.source? s = some src)
    (hp : src.parent? = some above) : q.Marked above := by
  obtain ⟨src', hsrc', hsc, hr⟩ := hs
  obtain rfl := Option.some.inj (hsrc'.symm.trans hsrc)
  obtain ⟨-, psrc, hps, hpsc⟩ := hq.parent hsrc hp
  exact ⟨psrc, hps, hpsc.trans hsc, hq.parentReferenced hsrc hr hp hps⟩

/-- The joins that stay hang below the root and each other, also on a query that has grown. -/
theorem hangs_lasting (hq : q.Sound) (hq' : q'.Sound) (hg : q.Grows q') :
    q'.Hangs {root} q.lasting := by
  refine hangs_of_ascending hq'.toArena q.lasting_ascending
    (fun s hs => ((mem_lasting hq).1 hs).1) fun s hs src' parent hsrc' hp => ?_
  have hmarked := ((mem_lasting hq).1 hs).2
  obtain ⟨src, hsrc, -⟩ := id hmarked
  obtain ⟨src'', hsrc'', hk, -⟩ := hg.kept hsrc
  obtain rfl := Option.some.inj (hsrc''.symm.trans hsrc')
  rw [Source.parent?_congr hk] at hp
  by_cases hroot : parent = root
  · exact Or.inl hroot
  · exact Or.inr ((mem_lasting hq).2 ⟨hroot, hmarked.parent hq hsrc hp⟩)

theorem lt_of_mem_lasting (hq : q.Sound) (hs : s ∈ q.lasting) : s < q.nextSource := by
  obtain ⟨-, src, hsrc, -⟩ := (mem_lasting hq).1 hs
  exact source?_lt hsrc

/-- **How many ways there are to bind the joins that stay**, for a record of the root. -/
def copies (st : Store) (q : Query) (b : Binding) : Nat :=
  (q.ways st q.lasting (Env.empty.set root b)).card

theorem copies_recordsOf (entity : String) : (recordsOf entity).copies st b = 1 := by
  rw [copies, lasting_recordsOf, ways_nil, Multiset.card_singleton]

end Query

namespace Context

open Query

variable {ctx : Context} {q : Query} {p : Progress} {fs : List Filter} {ps : List Predicate}

/-- **A run makes those joins stay that its predicates read**, and what is above these. -/
theorem Compiles.mem_lasting {s : SourceId} (h : ctx.Compiles fs ⟨q, none, false⟩ ps p)
    (hq : q.Sound) (he : q.entity = ctx.schema.entity) :
    s ∈ p.query.lasting ↔ s ∈ q.lasting ∨
      s ≠ root ∧ ∃ predicate ∈ ps, p.query.Below predicate s := by
  have hstart := ready_start ctx.model hq
  obtain ⟨hready, hfollows, hsafe⟩ := h.run hstart he
  rw [Query.mem_lasting hready.sound, Query.mem_lasting hq]
  constructor
  · rintro ⟨hne, hs⟩
    rcases h.accounted hstart he s hs with hs | hread
    · exact Or.inl ⟨hne, hs⟩
    · exact Or.inr ⟨hne, hread⟩
  · rintro (⟨hne, hs⟩ | ⟨hne, predicate, hmem, t, ht, hs⟩)
    · exact ⟨hne, hfollows.grows.marked hs⟩
    · exact ⟨hne, (hsafe predicate hmem).reads t ht s hs⟩

end Context

end EntityFilter
