import EntityFilter.Proofs.Compile.Joins
import EntityFilter.Proofs.Compile.Steps

/-!
# What compiled predicates read

A compilation drops joins while comparisons are still to come, and drops them only from what is
shared at that moment. That no join which was put aside is dropped rests on one invariant: every
shared join, put aside or not, is marked as read, or nothing is dropped any more.

* `Progress.Ready`: the invariant, between two comparisons.
* `Context.finish_compared`, `Context.Compiles.run`: a comparison keeps it, and so does a run.
* `Query.Session`: the queries that any compilations reach, with the predicates returned.
* `Query.Session.reads_active`: those predicates read what is not dropped, whatever comes later.
-/

namespace EntityFilter

namespace Query

variable {q q' : Query} {p : Predicate} {s t : SourceId}

/-- What a predicate reads is marked, and the sub-queries that it asks for are there. -/
structure Safe (q : Query) (p : Predicate) : Prop where
  reads : ∀ s ∈ p.reads, ∀ t ∈ q.lineage s, q.Marked t
  subqueries : ∀ t ∈ p.subqueries, t < q.nextSubquery

/-- A predicate that is safe stays so. -/
theorem Safe.of_grows (h : q.Safe p) (hq : q.Sound) (hg : q.Grows q') : q'.Safe p where
  reads := by
    intro s hs t ht
    obtain ⟨src, hsrc, -⟩ := h.reads s hs s (self_mem_lineage q s)
    rw [hg.lineage hq.toArena (source?_lt hsrc)] at ht
    exact hg.marked (h.reads s hs t ht)
  subqueries := fun t ht => Nat.lt_of_lt_of_le (h.subqueries t ht) hg.subqueries

/-- What connects predicates that are safe is safe. -/
theorem Safe.connect {ps : List Predicate} (hc : p.Connects ps) (h : ∀ part ∈ ps, q.Safe part) :
    q.Safe p where
  reads := by
    intro s hs
    obtain ⟨part, hpart, hs⟩ := (hc.reads s).1 hs
    exact (h part hpart).reads s hs
  subqueries := by
    intro t ht
    obtain ⟨part, hpart, ht⟩ := (hc.subqueries t).1 ht
    exact (h part hpart).subqueries t ht

/-- Without a predicate nothing is restricted, and that is safe. -/
theorem safe_getD {o : Option Predicate} (h : ∀ part ∈ o.toList, q.Safe part) :
    q.Safe (o.getD .always) := by
  cases o with
  | none => exact ⟨by simp [Predicate.reads], by simp [Predicate.subqueries]⟩
  | some part => exact h part (List.mem_singleton_self part)

theorem mem_activeIn_markAll {ss : List SourceId} {scope : Scope} :
    s ∈ (q.markAll ss).activeIn scope ↔ s ∈ q.activeIn scope := by
  induction ss generalizing q with
  | nil => rfl
  | cons t ss ih => exact ih.trans (activeIn_markReferenced q t scope)

end Query

namespace Progress

open Query

variable {m : Model} {p p' p'' : Progress}

/-- **The invariant between two comparisons.** -/
structure Ready (m : Model) (p : Progress) : Prop where
  sound : p.query.Sound
  entries : ∀ e ∈ p.entries, p.query.SharedAs m e ∧ p.Keeps e.2

/-- What a step leaves as it is. -/
structure Follows (m : Model) (p p' : Progress) : Prop where
  grows : p.query.Grows p'.query
  keeps : ∀ {s}, p.Keeps s → p'.Keeps s
  typed : p.query.Typed m → p'.query.Typed m

theorem Follows.refl (m : Model) (p : Progress) : Follows m p p := ⟨.refl _, id, id⟩

theorem Follows.trans (h : Follows m p p') (h' : Follows m p' p'') : Follows m p p'' :=
  ⟨h.grows.trans h'.grows, h'.keeps ∘ h.keeps, h'.typed ∘ h.typed⟩

/-- What is shared does not matter for what a step leaves. -/
theorem Follows.reshared {shared : Shared} (h : Follows m { p with reuse := shared } p') :
    Follows m p p' := ⟨h.grows, h.keeps, h.typed⟩

/-- Nothing need be shared. -/
theorem Ready.sharing {shared : Shared} (h : Ready m p) (hs : shared.getD [] = []) :
    Ready m { p with reuse := shared } :=
  ⟨h.sound, fun e he => absurd (hs ▸ show e ∈ shared.getD [] from he) List.not_mem_nil⟩

/-- The shared joins of before are ready again. -/
theorem Ready.restore (h : Ready m p) (hq : p'.query.Sound) (hf : Follows m p p') :
    Ready m { p' with reuse := p.reuse } where
  sound := hq
  entries := fun e he => ⟨hf.grows.sharedAs (h.entries e he).1, hf.keeps (h.entries e he).2⟩

theorem Ready.shared (h : Ready m p) :
    ∀ e ∈ p.entries, p.query.SharedAs m e ∧ e.2 ∈ p.query.activeIn .outer :=
  fun e he => ⟨(h.entries e he).1, (h.entries e he).2.1⟩

/-- Marks leave what is kept as it is. -/
theorem Follows.markAll (p : Progress) (ss : List SourceId) :
    Follows m p { p with query := p.query.markAll ss } where
  grows := .markAll p.query ss
  keeps := fun ⟨hact, hmark⟩ =>
    ⟨mem_activeIn_markAll.2 hact, hmark.imp (Grows.markAll p.query ss).marked id⟩
  typed := fun ht => ht.markAll ss

/-- A path that is joined and noted leaves what is kept as it is. -/
theorem Joined.follows_note {start last : SourceId} {joins : List Attribute} {scope : Scope}
    (h : Joined m p start joins scope last p') (op : Operator) : Follows m p (p'.note op) where
  grows := h.grows
  keeps := by
    rintro s ⟨hact, hmark⟩
    refine ⟨h.active hact, hmark.imp h.grows.marked fun hneeded => ?_⟩
    simp [note, h.needed.trans hneeded]
  typed := h.typed

/-- Every query has a root of the outer selection, which is not dropped. -/
theorem root_active (hq : p.query.Sound) : ∃ src, p.query.source? root = some src ∧
    src.entity? = some p.query.entity ∧ root ∈ p.query.activeIn .outer := by
  obtain ⟨r, hr⟩ := hq.root
  exact ⟨_, hr, rfl, mem_activeIn.2 ⟨_, hr, rfl, rfl⟩⟩

end Progress

namespace Context

open Query

variable {ctx : Context} {p p' p'' joined done : Progress} {clause : Clause}
  {joins : List Attribute} {last : SourceId} {predicate : Predicate}

/-- **A comparison is compiled.** -/
structure Compared (ctx : Context) (p : Progress) (clause : Clause) (joins : List Attribute)
    (predicate : Predicate) (done : Progress) : Prop where
  ready : done.Ready ctx.model
  follows : Progress.Follows ctx.model p done
  safe : done.query.Safe predicate
  unshared : p.reuse = none → done.reuse = none
  /-- What is shared in addition is new. -/
  entries : ∀ e ∈ done.entries, e ∈ p.entries ∨ p.query.nextSource ≤ e.2
  /-- The predicate tests the end of the path, which goes through shared joins and new ones, or it
  asks for a sub-query. -/
  lowered : (∃ last, clause.lower ctx.settings ctx.replace
        (Reading.ofSource clause.selector.shape clause.terminal last) = .inPlace predicate ∧
      done.query.Path root joins last ∧
      ∀ t ∈ done.query.lineage last, t = root ∨ (∃ name, (name, t) ∈ p.entries) ∨
        p.query.nextSource ≤ t) ∨
    (∃ last d before, clause.lower ctx.settings ctx.replace
        (Reading.ofSource clause.selector.shape clause.terminal last) = .noneRelated d ∧
      p.query.Grows before.query ∧
      Progress.Excludes ctx.model before ctx.settings clause joins d predicate done)

/-- A test of the end of the path is marked to read it. -/
theorem compared_inPlace (hp : p.Ready ctx.model)
    (hj : Progress.Joined ctx.model p root joins .outer last joined)
    (hlower : clause.lower ctx.settings ctx.replace
      (Reading.ofSource clause.selector.shape clause.terminal last) = .inPlace predicate) :
    ctx.Compared p clause joins predicate { joined.note clause.operator with
      query := joined.query.markAll predicate.sources } := by
  have hlocal := Clause.local_of_inPlace (Reading.ofSource_at _ _ last) hlower
  have hreads : ∀ s ∈ predicate.sources, s = last := fun s hs =>
    (hlocal.reads s).1 (Predicate.mem_sources.1 hs)
  have hlast : last ∈ predicate.sources := Predicate.mem_sources.2 ((hlocal.reads last).2 rfl)
  obtain ⟨hsound, hmarked⟩ := hj.sound.markAll fun s hs => hreads s hs ▸ hj.reached
  have hgrows : joined.query.Grows (joined.query.markAll predicate.sources) := .markAll _ _
  have hfollows := (hj.follows_note clause.operator).trans (.markAll _ predicate.sources)
  have hlineage : (joined.query.markAll predicate.sources).lineage last =
      joined.query.lineage last := by
    rw [hgrows.lineage hj.sound.toArena (lt_of_mem_activeIn hj.reached)]
  exact {
    ready := {
      sound := hsound
      entries := by
        intro e he
        refine ⟨hgrows.sharedAs (hj.shared hp.shared e he).1, ?_⟩
        -- what was shared before is kept, and what is shared in addition is on the path
        rcases hj.entries e he with hold | ⟨-, -, hlin, -⟩
        · exact hfollows.keeps (hp.entries e hold).2
        · have hmark := hmarked last hlast e.2 hlin
          exact ⟨hmark.active hsound, Or.inl hmark⟩ }
    follows := hfollows
    safe := {
      reads := by
        intro s hs t ht
        obtain rfl := (hlocal.reads s).1 hs
        exact hmarked s hlast t (hlineage ▸ ht)
      subqueries := by simp [hlocal.flat] }
    unshared := hj.unshared
    entries := fun e he => (hj.entries e he).imp id fun h => h.2.1
    lowered := by
      refine Or.inl ⟨last, hlower, hgrows.path hj.path, fun t ht => ?_⟩
      have := hj.lineage t (hlineage ▸ ht)
      rwa [lineage_root hp.sound.toArena, List.mem_singleton] at this }

/-- A negation through a relation leaves what is kept as it is. -/
theorem compared_noneRelated {d : Demand} (hp : p.Ready ctx.model)
    (hch : ctx.model.Chained (some p.query.entity) joins)
    (hj : Progress.Joined ctx.model p root joins .outer last joined)
    (hlower : clause.lower ctx.settings ctx.replace
      (Reading.ofSource clause.selector.shape clause.terminal last) = .noneRelated d)
    (h : (joined.note clause.operator).excludeRelated ctx.settings clause joins d =
      (predicate, done)) : ctx.Compared p clause joins predicate done := by
  have hfollows := hj.follows_note clause.operator
  have hex := Progress.excludeRelated_excludes (p := joined.note clause.operator) hj.sound
    (hfollows.grows.entity ▸ hch) (hj.shared hp.shared) h
  exact {
    ready := {
      sound := hex.sound
      entries := by
        intro e he
        obtain ⟨hmem, hkeep⟩ := hex.entries e he
        exact ⟨hex.grows.sharedAs (hj.shared hp.shared e hmem).1, hkeep⟩ }
    follows := hfollows.trans ⟨hex.grows, hex.keeps, hex.typed⟩
    safe := {
      reads := by simp [hex.predicate, Predicate.reads]
      subqueries := by
        intro t ht
        obtain rfl : t = (joined.note clause.operator).query.nextSubquery := by
          simpa [hex.predicate, Predicate.subqueries] using ht
        exact hex.opened }
    unshared := hex.unshared ∘ hj.unshared
    entries := fun e he => (hj.entries e (hex.entries e he).1).imp id fun h => h.2.1
    lowered := Or.inr ⟨last, d, joined.note clause.operator, hlower, hfollows.grows, hex⟩ }

/-- **What a comparison does after its path is joined** keeps the invariant. -/
theorem finish_compared (hp : p.Ready ctx.model)
    (hch : ctx.model.Chained (some p.query.entity) joins)
    (hj : Progress.joinAll root joins p = (last, joined))
    (h : ctx.finish clause joins last joined = (predicate, done)) :
    ctx.Compared p clause joins predicate done := by
  obtain ⟨src, hsrc, hent, hact⟩ := Progress.root_active hp.sound
  have hjoined : Progress.Joined ctx.model p root joins .outer last joined :=
    Progress.joinAll_joined hp.sound hsrc hact (hent ▸ hch) hp.shared hj
  unfold finish at h
  dsimp only at h
  split at h
  · rename_i test hlower
    obtain ⟨rfl, rfl⟩ := Prod.mk.inj h
    exact compared_inPlace hp hjoined hlower
  · rename_i d hlower
    exact compared_noneRelated hp hch hjoined hlower h

/-- **A run keeps the invariant**, and its predicates are safe at its end. -/
structure Ran (ctx : Context) (p : Progress) (ps : List Predicate) (p' : Progress) : Prop where
  ready : p'.Ready ctx.model
  follows : Progress.Follows ctx.model p p'
  safe : ∀ predicate ∈ ps, p'.query.Safe predicate

variable {ps qs : List Predicate}

theorem Ran.entity (h : ctx.Ran p ps p') (he : p.query.entity = ctx.schema.entity) :
    p'.query.entity = ctx.schema.entity :=
  h.follows.grows.entity.trans he

/-- One run goes on where another has ended. -/
theorem Ran.append (h : ctx.Ran p ps p') (h' : ctx.Ran p' qs p'') : ctx.Ran p (ps ++ qs) p'' where
  ready := h'.ready
  follows := h.follows.trans h'.follows
  safe := by
    intro predicate hmem
    rcases List.mem_append.1 hmem with hmem | hmem
    · exact (h.safe predicate hmem).of_grows h.ready.sound h'.follows.grows
    · exact h'.safe predicate hmem

/-- After the parts of a connective the shared joins of before are ready again. -/
theorem Ran.connect {shared : Shared} (h : ctx.Ran { p with reuse := shared } ps p')
    (hp : p.Ready ctx.model) (hc : predicate.Connects ps) :
    ctx.Ran p [predicate] { p' with reuse := p.reuse } where
  ready := hp.restore h.ready.sound h.follows.reshared
  follows := ⟨h.follows.grows, h.follows.keeps, h.follows.typed⟩
  safe := List.forall_mem_singleton.2 (Safe.connect hc h.safe)

theorem Compared.ran (h : ctx.Compared p clause joins predicate done) :
    ctx.Ran p [predicate] done where
  ready := h.ready
  follows := h.follows
  safe := List.forall_mem_singleton.2 h.safe

theorem Compiles.run {fs : List Filter} (h : ctx.Compiles fs p ps p') (hp : p.Ready ctx.model)
    (he : p.query.entity = ctx.schema.entity) : ctx.Ran p ps p' := by
  induction h with
  | nil => exact ⟨hp, .refl _ _, by simp⟩
  | and _ _ ih ihr =>
    have hfirst := (ih (hp.sharing rfl) he).connect hp (Predicate.connects_all _)
    exact hfirst.append (ihr hfirst.ready (hfirst.entity he))
  | or _ _ ih ihr =>
    have hfirst := (ih (hp.sharing rfl) he).connect hp (Predicate.connects_any _)
    exact hfirst.append (ihr hfirst.ready (hfirst.entity he))
  | comparison hplan hj hf _ ihr =>
    have hfirst :=
      (finish_compared hp (he ▸ ctx.schema.chained_plan ctx.model _) hj hf).ran
    exact hfirst.append (ihr hfirst.ready (hfirst.entity he))
  | unrecognized _ ihr => exact ihr hp he

namespace Connective

variable {f : Filter} {children : List Filter} {shared : Shared}
  {connect : List Predicate → Predicate}

/-- No join is shared at first. -/
theorem entries (h : Connective f children shared connect) : shared.getD [] = [] := by
  cases h <;> rfl

theorem connects (h : Connective f children shared connect) (ps : List Predicate) :
    (connect ps).Connects ps := by
  cases h with
  | and => exact Predicate.connects_all ps
  | or => exact Predicate.connects_any ps

end Connective

/-- **A run step by step**, with what is known of each step. -/
inductive Proceeds (ctx : Context) : List Filter → Progress → List Predicate → Progress → Prop
  | nil {p : Progress} (hp : p.Ready ctx.model) : Proceeds ctx [] p [] p
  | connective {f : Filter} {children rest : List Filter} {shared : Shared}
      {connect : List Predicate → Predicate} {p p₁ p' : Progress} {ps qs : List Predicate}
      (hf : Connective f children shared connect) (hp : p.Ready ctx.model)
      (hparts : ctx.Ran { p with reuse := shared } ps p₁)
      (hfirst : ctx.Ran p [connect ps] { p₁ with reuse := p.reuse })
      (hrest : ctx.Ran { p₁ with reuse := p.reuse } qs p')
      (h : Proceeds ctx children { p with reuse := shared } ps p₁)
      (hr : Proceeds ctx rest { p₁ with reuse := p.reuse } qs p') :
      Proceeds ctx (f :: rest) p (connect ps :: qs) p'
  | comparison {c : Comparison} {rest : List Filter} {p p' : Progress} {qs : List Predicate}
      {clause : Clause} (hplan : (ctx.schema.plan ctx.model c).2 = .ok clause)
      (hp : p.Ready ctx.model) (he : p.query.entity = ctx.schema.entity)
      (hch : ctx.model.Chained (some p.query.entity) (ctx.schema.plan ctx.model c).1)
      {last : SourceId} {joined : Progress}
      (hj : Progress.joinAll root (ctx.schema.plan ctx.model c).1 p = (last, joined))
      {predicate : Predicate} {done : Progress}
      (hf : ctx.finish clause (ctx.schema.plan ctx.model c).1 last joined = (predicate, done))
      (hcompared : ctx.Compared p clause (ctx.schema.plan ctx.model c).1 predicate done)
      (hrest : ctx.Ran done qs p') (hr : Proceeds ctx rest done qs p') :
      Proceeds ctx (.comparison c :: rest) p (predicate :: qs) p'
  | unrecognized {text : String} {rest : List Filter} {p p' : Progress} {qs : List Predicate}
      (hr : Proceeds ctx rest p qs p') : Proceeds ctx (.unrecognized text :: rest) p qs p'

/-- **A run from a state that keeps the invariant** proceeds in such states. -/
theorem Compiles.proceeds {fs : List Filter} (h : ctx.Compiles fs p ps p') (hp : p.Ready ctx.model)
    (he : p.query.entity = ctx.schema.entity) : ctx.Proceeds fs p ps p' := by
  induction h with
  | nil => exact .nil hp
  | @and children _ p _ _ ps _ hc hr ih ihr =>
    have hparts := hc.run (hp.sharing rfl) he
    have hfirst := hparts.connect hp (Predicate.connects_all ps)
    have hrest := hfirst.entity he
    exact .connective (.and children) hp hparts hfirst (hr.run hfirst.ready hrest)
      (ih (hp.sharing rfl) he) (ihr hfirst.ready hrest)
  | @or children _ p _ _ ps _ hc hr ih ihr =>
    have hparts := hc.run (hp.sharing rfl) he
    have hfirst := hparts.connect hp (Predicate.connects_any ps)
    have hrest := hfirst.entity he
    exact .connective (.or children) hp hparts hfirst (hr.run hfirst.ready hrest)
      (ih (hp.sharing rfl) he) (ihr hfirst.ready hrest)
  | @comparison c _ p _ _ _ hplan _ _ hj _ _ hf hr ihr =>
    have hch : ctx.model.Chained (some p.query.entity) (ctx.schema.plan ctx.model c).1 :=
      he ▸ ctx.schema.chained_plan ctx.model c
    have hcompared := finish_compared hp hch hj hf
    have hrest := hcompared.ran.entity he
    exact .comparison hplan hp he hch hj hf hcompared (hr.run hcompared.ready hrest)
      (ihr hcompared.ready hrest)
  | unrecognized _ ihr => exact .unrecognized (ihr hp he)

/-- Every shared join that is put aside stays whatever comes. -/
def KeepsAside (p : Progress) (aside : List Shared) : Prop :=
  ∀ shared ∈ aside, ∀ e ∈ shared.getD [], p.Keeps e.2

theorem keepsAside_nil (p : Progress) : KeepsAside p [] :=
  fun _ hs => absurd hs List.not_mem_nil

/-- **When a comparison is begun, all that is shared is there**, and so is all that was put
aside. -/
theorem Begins.ready {fs : List Filter} {c : Comparison} {aside aside' : List Shared}
    (h : ctx.Begins fs p aside c p' aside') (hp : p.Ready ctx.model)
    (he : p.query.entity = ctx.schema.entity) (ha : KeepsAside p aside) :
    p'.Ready ctx.model ∧ p.query.Grows p'.query ∧ KeepsAside p' aside' := by
  induction h with
  | here => exact ⟨hp, .refl _, ha⟩
  | and _ ih =>
    -- what was shared is put aside, and is kept like all the rest
    exact ih (hp.sharing rfl) he (List.forall_mem_cons.2 ⟨fun e he => (hp.entries e he).2, ha⟩)
  | or _ ih =>
    exact ih (hp.sharing rfl) he (List.forall_mem_cons.2 ⟨fun e he => (hp.entries e he).2, ha⟩)
  | later hf _ ih =>
    obtain ⟨hready, hfol, -⟩ := hf.run hp he
    obtain ⟨hready', hgrows', ha'⟩ := ih hready (hfol.grows.entity.trans he)
      fun shared hs e hmem => hfol.keeps (ha shared hs e hmem)
    exact ⟨hready', hfol.grows.trans hgrows', ha'⟩

/-- When a comparison is begun, the joins that there are go through declared relations. -/
theorem Begins.typed {fs : List Filter} {c : Comparison} {aside aside' : List Shared}
    (h : ctx.Begins fs p aside c p' aside') (hp : p.Ready ctx.model)
    (he : p.query.entity = ctx.schema.entity) (ht : p.query.Typed ctx.model) :
    p'.query.Typed ctx.model := by
  induction h with
  | here => exact ht
  | and _ ih => exact ih (hp.sharing rfl) he ht
  | or _ ih => exact ih (hp.sharing rfl) he ht
  | later hf _ ih =>
    obtain ⟨hready, hfol, -⟩ := hf.run hp he
    exact ih hready (hfol.grows.entity.trans he) (hfol.typed ht)

end Context

namespace Query

variable {q : Query} {ps : List Predicate} {predicate : Predicate} {ctx : Context}

/-! ## Compilations one after the other -/

/-- A compilation begins with nothing shared. -/
theorem ready_start (m : Model) (hq : q.Sound) : Progress.Ready m ⟨q, none, false⟩ :=
  ⟨hq, by simp [Progress.entries]⟩

/-- A run that fails has joined the path of one more comparison, and stopped there. -/
theorem failed_joined (hq : q.Sound) (he : q.entity = ctx.schema.entity) {f : Filter}
    {e : FilterError} {p' : Progress}
    (h : (ctx.compileFilter f).run ⟨q, none, false⟩ = .error e p') :
    ∃ p joins last, q.Grows p.query ∧ (q.Typed ctx.model → p.query.Typed ctx.model) ∧
      Progress.Joined ctx.model p root joins .outer last p' := by
  obtain ⟨c, p, aside, hbegins, -, rfl⟩ := Context.begins_of_error f h [] []
  obtain ⟨hready, hgrows, -⟩ := hbegins.ready (ready_start _ hq) he (Context.keepsAside_nil _)
  obtain ⟨src, hsrc, hent, hact⟩ := Progress.root_active hready.sound
  have hchained := ctx.schema.chained_plan ctx.model c
  rw [← he, ← hgrows.entity, ← hent] at hchained
  exact ⟨p, _, _, hgrows, hbegins.typed (ready_start _ hq) he,
    Progress.joinAll_joined hready.sound hsrc hact hchained hready.shared rfl⟩

/-- **A compilation, failed or not, keeps a query sound**, and the predicate that it returns is
safe. -/
theorem compile_sound (hq : q.Sound) (ctx : Context) (f : Filter) :
    (q.compile ctx f).2.Sound ∧ q.Grows (q.compile ctx f).2 ∧
      ∀ predicate, (q.compile ctx f).1 = .ok predicate → (q.compile ctx f).2.Safe predicate := by
  unfold compile
  split
  · exact ⟨hq, .refl q, by simp⟩
  · rename_i he
    have he : q.entity = ctx.schema.entity := Classical.not_not.1 he
    split
    · rename_i o p' hrun
      obtain ⟨hready, hfol, hsafe⟩ := (Context.compiles_of_ok f hrun).run (ready_start _ hq) he
      have hgrows := Grows.discardUnused p'.query
      refine ⟨hready.sound.discardUnused, hfol.grows.trans hgrows, ?_⟩
      rintro predicate ⟨⟩
      exact (safe_getD hsafe).of_grows hready.sound hgrows
    · rename_i e p' hrun
      obtain ⟨p, joins, last, hgrows, -, hj⟩ := failed_joined hq he hrun
      exact ⟨hj.sound, hgrows.trans hj.grows, by simp⟩

/-- A compilation, failed or not, joins declared relations only. -/
theorem compile_typed (hq : q.Sound) (ht : q.Typed ctx.model) (f : Filter) :
    (q.compile ctx f).2.Typed ctx.model := by
  unfold compile
  split
  · exact ht
  · rename_i he
    have he : q.entity = ctx.schema.entity := Classical.not_not.1 he
    split
    · rename_i o p' hrun
      have hfol := ((Context.compiles_of_ok f hrun).run (ready_start _ hq) he).follows
      exact (hfol.typed ht).discardUnused
    · rename_i e p' hrun
      obtain ⟨p, joins, last, -, htyped, hj⟩ := failed_joined hq he hrun
      exact hj.typed (htyped ht)

/-- **The queries that compilations reach from the query of all records**, with the predicates that
they have returned on the way. Every compilation may go by another schema and other settings. -/
inductive Session : Query → List Predicate → Prop
  | start (entity : String) : Session (recordsOf entity) []
  | compile {q : Query} {ps : List Predicate} (ctx : Context) (f : Filter) (h : Session q ps) :
      Session (q.compile ctx f).2 ((q.compile ctx f).1.toOption.toList ++ ps)

theorem Session.sound (h : Session q ps) : q.Sound ∧ ∀ predicate ∈ ps, q.Safe predicate := by
  induction h with
  | start entity => exact ⟨sound_recordsOf entity, by simp⟩
  | compile ctx f _ ih =>
    obtain ⟨hq, hps⟩ := ih
    obtain ⟨hsound, hgrows, hsafe⟩ := compile_sound hq ctx f
    refine ⟨hsound, fun predicate hmem => ?_⟩
    rcases List.mem_append.1 hmem with hmem | hmem
    · refine hsafe predicate ?_
      generalize (Query.compile _ ctx f).1 = outcome at hmem
      cases outcome <;> simp_all [Except.toOption]
    · exact (hps predicate hmem).of_grows hq hgrows

/-- A predicate that asks for no sub-query stays within what is bound. -/
theorem readsWithin_of_flat {bound : SourceId → Prop} {depth : Nat}
    (h : ∀ s ∈ predicate.reads, bound s) (hflat : predicate.subqueries = []) :
    q.ReadsWithin depth bound predicate := by
  cases depth with
  | zero => exact ⟨h, hflat⟩
  | succ depth => exact ⟨h, by simp [hflat]⟩

/-- What is safe on a sound query reads what is bound. -/
theorem Safe.readsWithin (hq : q.Sound) (h : q.Safe predicate) :
    q.ReadsWithin q.subqueries.length (· ∈ q.activeIn .outer) predicate := by
  have hreads : ∀ s ∈ predicate.reads, s ∈ q.activeIn .outer := fun s hs =>
    (h.reads s hs s (self_mem_lineage q s)).active hq
  have hsub : ∀ t ∈ predicate.subqueries, t < q.subqueries.length := h.subqueries
  cases hn : q.subqueries.length with
  | zero =>
    refine ⟨hreads, List.eq_nil_iff_forall_not_mem.2 fun t ht => ?_⟩
    exact Nat.not_lt_zero t (hn ▸ hsub t ht)
  | succ depth =>
    refine ⟨hreads, fun t _ => readsWithin_of_flat (fun s hs => ?_) (hq.flat t)⟩
    rcases hq.inside t s hs with rfl | hs
    · exact Or.inl (Progress.root_active (p := ⟨q, none, false⟩) hq).choose_spec.2.2
    · exact Or.inr hs

/-- **Compiled predicates read what is not dropped**, after any compilations, failed or not, and
with any that came later. What a predicate reads itself are active sources of the outer selection,
and what it reads in its sub-queries is the root or an active source of the sub-query; all that is
above these is active; so on no store a selection meets a source that is not bound. When a
comparison is begun, the joins that are shared and those that are put aside are all active. -/
theorem Session.reads_active (h : Session q ps) :
    (∀ predicate ∈ ps,
      (∀ s ∈ predicate.reads, s ∈ q.activeIn .outer ∧
        ∀ t ∈ q.lineage s, t ∈ q.activeIn .outer) ∧
      (∀ sub ∈ predicate.subqueries, (q.restriction sub).subqueries = [] ∧
        ∀ s ∈ (q.restriction sub).reads, (s = root ∨ s ∈ q.activeIn (.subquery sub)) ∧
          ∀ t ∈ q.lineage s, t ∈ q.activeIn .outer ∨ t ∈ q.activeIn (.subquery sub)) ∧
      ∀ m st s, Store.select m st q predicate ≠ .error (.unboundSource s)) ∧
    ∀ (ctx : Context) (f : Filter) (c : Comparison) (p : Progress) (aside : List Shared),
      q.entity = ctx.schema.entity → ctx.Begins [f] ⟨q, none, false⟩ [] c p aside →
      ∀ shared ∈ p.reuse :: aside, ∀ joins, shared = some joins →
        ∀ e ∈ joins, e.2 ∈ p.query.activeIn .outer := by
  obtain ⟨hq, hps⟩ := h.sound
  obtain ⟨src, hsrc, -, hroot⟩ := Progress.root_active (p := ⟨q, none, false⟩) hq
  refine ⟨fun predicate hmem => ⟨fun s hs => ?_, fun sub _ => ⟨hq.flat sub, fun s hs => ?_⟩,
    fun m st s => ?_⟩, ?_⟩
  · have hact := ((hps predicate hmem).reads s hs s (self_mem_lineage q s)).active hq
    exact ⟨hact, hq.lineage_active hact⟩
  · refine ⟨hq.inside sub s hs, fun t ht => ?_⟩
    rcases hq.inside sub s hs with rfl | hact
    · exact Or.inl (hq.lineage_active hroot t ht)
    · exact Or.inr (hq.lineage_active hact t ht)
  · have hwithin := (hps predicate hmem).readsWithin hq
    rcases Store.select_yields (m := m) hq.toArena hq.parentActive (steady_of_any st q) hwithin with
      hok | ⟨e, herr, he⟩
    · simp [hok]
    · rw [herr]
      exact fun heq => he s (Except.error.inj heq)
  · intro ctx f c p aside he hbegins shared hmem joins hjoins e hej
    obtain ⟨hready, -, haside⟩ :=
      hbegins.ready (ready_start _ hq) he (Context.keepsAside_nil _)
    rcases List.mem_cons.1 hmem with rfl | hmem
    · exact (hready.entries e (by simp [Progress.entries, hjoins, hej])).2.1
    · exact (haside shared hmem e (by simp [hjoins, hej])).1

end Query

namespace Shop

open Query

/-- Orders may be filtered by the quantity of their items. -/
def context : Context :=
  ⟨model, ⟨"Order", [⟨⟨"item", "items", ["qty"], false, none, "id", none⟩, ["items"], none⟩]⟩,
    .standard, id⟩

/-- A comparison that fails after its path is joined. -/
def failing : Filter := .comparison ⟨"item.qty", "=~", ["2"]⟩

/-- A disjunction with a negation through a relation. -/
def twoOrNotThree : Filter :=
  .or [.compareOne .equal "item.qty" "2", .compareOne .notEqual "item.qty" "3"]

/-- What the compilation of one after the other reaches. -/
def reached : Query :=
  (((recordsOf "Order").compile context failing).2.compile context twoOrNotThree).2

/-- The predicate of the disjunction. -/
def itemTests : Predicate := .or [.equal (.column 2 "qty") (.text "2"), .not (.hasRow 0)]

theorem reached_reads_active :
    Session reached [itemTests] ∧ (∀ s ∈ itemTests.reads, s ∈ reached.activeIn .outer) ∧
      ∀ m st s, Store.select m st reached itemTests ≠ .error (.unboundSource s) := by
  have hs : Session reached [itemTests] := by
    have h := Session.compile context twoOrNotThree (.compile context failing (.start "Order"))
    have hp : ((((recordsOf "Order").compile context failing).2.compile context
        twoOrNotThree).1.toOption.toList ++
        (((recordsOf "Order").compile context failing).1.toOption.toList ++ [])) =
        [itemTests] := by decide
    rwa [hp] at h
  obtain ⟨hreads, -, hselect⟩ := hs.reads_active.1 itemTests List.mem_cons_self
  exact ⟨hs, fun s hs => (hreads s hs).1, hselect⟩

end Shop

end EntityFilter
