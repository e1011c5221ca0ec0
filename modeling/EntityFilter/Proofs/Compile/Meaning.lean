import EntityFilter.Proofs.Compile.Moving
import EntityFilter.Proofs.Compile.Scoping
import EntityFilter.Proofs.Store.Reach

/-!
# The meaning of compiled filters

A comparison asks something of a record of the root, whatever query it is compiled onto. The
predicate of a filter is true for some way to bind the joins exactly if the filter, read as a
boolean combination of its comparisons, holds of the record.

* `Context.Asks`, `Context.Meets`: what a clause, and a comparison, asks of a record.
* `Query.Sat`: a predicate is true for some way to bind the joins.
* `Context.Compared.sat_iff`: the predicate of a comparison is true for what the clause asks.
* `Query.sat_all`, `Query.sat_any`: conjunctions part at the root, disjunctions need not.
* `Filter.Reading`: a filter as a boolean combination.
* `Context.Proceeds.parted`, `Context.Compiles.means`: a run gives predicates that part at the root
  where no joins are shared, and that mean what the parts of the filter say.
-/

namespace EntityFilter

open Query

/-- **What the sub-query of a negation looks for** from a record of the root: a record with the same
identifier, with something at the end of its path that satisfies the demand. -/
def Clause.Finds (m : Model) (st : Store) (settings : Settings) (entity : String)
    (clause : Clause) (joins : List Attribute) (d : Demand) (b : Binding) : Prop :=
  let identifier := Expr.column root clause.selector.field.identifier
  ∃ b' ∈ st.rows entity, (identifier.valueIn m b).equals (identifier.valueIn m b') = .yes ∧
    ∃ c, Ends st b' joins c ∧
      ∀ test ∈ clause.relatedTests settings d root, test.Holds m st.dialect c

namespace Context

variable (ctx : Context) (st : Store)

/-- **What a clause asks of a record of the root**: something at the end of its path that passes a
test, or nothing at all that satisfies a demand. -/
def Asks (clause : Clause) (joins : List Attribute) (b : Binding) : Prop :=
  match clause.lower ctx.settings ctx.replace
      (Reading.ofSource clause.selector.shape clause.terminal root) with
  | .inPlace test => ∃ c, Ends st b joins c ∧ test.Holds ctx.model st.dialect c
  | .noneRelated d =>
    ¬ clause.Finds ctx.model st ctx.settings ctx.schema.entity joins d b

/-- What a comparison asks of a record of the root. -/
def Meets (c : Comparison) (b : Binding) : Prop :=
  ∃ clause, (ctx.schema.plan ctx.model c).2 = .ok clause ∧
    ctx.Asks st clause (ctx.schema.plan ctx.model c).1 b

end Context

namespace Query

variable {m : Model} {st : Store} {q : Query} {env : Env} {b : Binding}

/-- **A predicate is true for a record of the root**, for some way to bind the joins. -/
def Sat (m : Model) (st : Store) (q : Query) (p : Predicate) (b : Binding) : Prop :=
  ∃ env ∈ q.envs st (q.activeIn .outer) Env.empty, env root = some b ∧ q.value m st p env = .yes

/-- **A test of the end of a path** asks for something there that passes it. -/
theorem sat_iff_of_local (hq : q.Sound) (hb : b ∈ st.rows q.entity) {joins : List Attribute}
    {last : SourceId} (hp : q.Path root joins last) (hlast : last ∈ q.activeIn .outer)
    {test : Predicate} (hlocal : test.Local last) :
    q.Sat m st test b ↔ ∃ c, Ends st b joins c ∧ test.Holds m st.dialect c := by
  have hroot := isRoot_outer hq.toArena
  constructor
  · rintro ⟨env, hmem, hrootEnv, hyes⟩
    have hfits := ((mem_envs hq.toArena (q.activeIn_ascending .outer)).1 hmem).2
    obtain ⟨c, hc, hends⟩ := hp.ends hq hlast hfits hrootEnv
    exact ⟨c, hends, (hlocal.value_eq hc).1 hyes⟩
  · rintro ⟨c, hends, hholds⟩
    obtain ⟨env, hmem, hrootEnv, hc⟩ := (hroot.reach_iff hq hp hlast).2 ⟨hb, hends⟩
    exact ⟨env, hmem, hrootEnv, (hlocal.value_eq hc).2 hholds⟩

/-- **The sub-query of a negation has a row** if what it looks for can be found. -/
theorem rowExists_exclusion (hq : q.Sound) {sub : SubqueryId} {entity : String} {depth : Nat}
    {clause : Clause} {settings : Settings} {d : Demand} {joins : List Attribute}
    {start last : SourceId} (hstart : q.IsRoot (.subquery sub) start entity)
    (hp : q.Path start joins last) (hlast : last ∈ q.activeIn (.subquery sub))
    (hrestr : q.restriction sub = clause.exclusion settings d start last)
    (hb : env root = some b) :
    q.rowExists m st (depth + 1) sub env = true ↔
      clause.Finds m st settings entity joins d b := by
  have hasc := q.activeIn_ascending (.subquery sub)
  have hroot : root ∉ q.activeIn (.subquery sub) := by
    intro h
    obtain ⟨r, hr⟩ := hq.root
    obtain ⟨hsc, -⟩ := (mem_activeIn_iff hr).1 h
    cases hsc
  have identifier : ∀ {env' : Env} {s b}, env' s = some b →
      (Expr.column s clause.selector.field.identifier).value m env' =
        (Expr.column root clause.selector.field.identifier).valueIn m b := fun {_ _ b} h => by
    rw [Expr.value_eq h]
    cases b <;> rfl
  -- what the restriction says, once the roots and the end of the path are bound
  have restriction : ∀ {env' : Env} {b' c}, env' root = some b → env' start = some b' →
      env' last = some c →
      ((q.restriction sub).value m st.dialect (q.rowExists m st depth) env' = .yes ↔
        ((Expr.column root clause.selector.field.identifier).valueIn m b).equals
          ((Expr.column root clause.selector.field.identifier).valueIn m b') = .yes ∧
        ∀ test ∈ clause.relatedTests settings d root, test.Holds m st.dialect c) := by
    intro env' b' c hb hb' hc
    rw [hrestr, Clause.exclusion, Predicate.value, Predicate.valueOfAll_eq_yes,
      List.forall_mem_cons, Predicate.value, identifier hb, identifier hb',
      Clause.holds_relatedTests root last]
    exact and_congr Iff.rfl (forall₂_congr fun test htest =>
      (Clause.local_relatedTests htest).value_eq hc)
  rw [rowExists, List.any_eq_true]
  constructor
  · rintro ⟨env', hmem, hv⟩
    obtain ⟨hout, hfits⟩ := (mem_envs hq.toArena hasc).1 hmem
    obtain ⟨b', hb', hchoice⟩ := hfits start hstart.active
    obtain ⟨c, hc, hends⟩ := hp.ends hq hlast hfits hb'
    obtain ⟨hid, htests⟩ := (restriction ((hout root hroot).trans hb) hb' hc).1 (eq_of_beq hv)
    exact ⟨b', hstart.choices ▸ hchoice, hid, c, hends, htests⟩
  · rintro ⟨b', hb', hid, c, hends, htests⟩
    obtain ⟨env', hmem, hstartEnv, hc⟩ := (hstart.reach_iff hq hp hlast).2 ⟨hb', hends⟩
    have hrootEnv := ((mem_envs hq.toArena hasc).1 hmem).1 root hroot
    refine ⟨env', hmem, beq_iff_eq.2 ?_⟩
    exact (restriction (hrootEnv.trans hb) hstartEnv hc).2 ⟨hid, htests⟩

/-- A conjunction of predicates that part at the root is true if all of them are. -/
theorem sat_all (hq : q.Sound) (hb : b ∈ st.rows q.entity) {ps : List Predicate}
    (hsafe : ∀ p ∈ ps, q.Safe p)
    (hpart : ps.Pairwise fun p p' => ∀ t, q.Below p t → q.Below p' t → t = root) :
    q.Sat m st (.all ps) b ↔ ∀ p ∈ ps, q.Sat m st p b := by
  constructor
  · rintro ⟨env, hmem, hroot, hyes⟩ p hp
    exact ⟨env, hmem, hroot, Predicate.value_all_eq_yes.1 hyes p hp⟩
  · intro h
    have hact : ∀ p ∈ ps, ∀ s ∈ p.reads, s ∈ q.activeIn .outer := fun p hp s hs =>
      ((hsafe p hp).reads s hs s (self_mem_lineage q s)).active hq
    obtain ⟨env, hmem, hroot, hyes⟩ := exists_env_all hq hb hact hpart h
    exact ⟨env, hmem, hroot, Predicate.value_all_eq_yes.2 hyes⟩

/-- A disjunction is true if one of its parts is, or if it has none. -/
theorem sat_any (hq : q.Sound) (hb : b ∈ st.rows q.entity) {ps : List Predicate} :
    q.Sat m st (.any ps) b ↔ ps = [] ∨ ∃ p ∈ ps, q.Sat m st p b := by
  constructor
  · rintro ⟨env, hmem, hroot, hyes⟩
    refine (Predicate.value_any_eq_yes.1 hyes).imp id ?_
    rintro ⟨p, hp, hyes⟩
    exact ⟨p, hp, env, hmem, hroot, hyes⟩
  · rintro (rfl | ⟨p, hp, env, hmem, hroot, hyes⟩)
    · obtain ⟨env, hmem, hroot⟩ := exists_env hq hb
      exact ⟨env, hmem, hroot, rfl⟩
    · exact ⟨env, hmem, hroot, Predicate.value_any_eq_yes.2 (Or.inr ⟨p, hp, hyes⟩)⟩

end Query

/-! ## Comparisons -/

namespace Context

variable {ctx : Context} {st : Store} {p p' done : Progress} {clause : Clause}
  {joins : List Attribute} {predicate : Predicate} {q : Query} {b : Binding}

/-- **A negation through a relation is true where nothing is found**, on every query that the
compilation may still reach. -/
theorem value_excludes {before : Progress} {d : Demand} {env : Env}
    (hex : Progress.Excludes ctx.model before ctx.settings clause joins d predicate done)
    (hq : q.Sound) (hg : done.query.Grows q) (hroot : env root = some b) :
    q.value ctx.model st predicate env = .yes ↔
      ¬ clause.Finds ctx.model st ctx.settings before.query.entity joins d b := by
  obtain ⟨src, hsrc, hk, hsc⟩ := hex.subRoot
  obtain ⟨src', hsrc', hk', hsc', -⟩ := hg.kept hsrc
  have hstart := isRoot_inner hq.toArena hsrc' (hk'.trans hk) (hsc'.trans hsc)
  obtain ⟨last', hpath, hlast, hrestr⟩ := hex.restriction
  have hrestr := (hg.restriction _ hex.opened).trans hrestr
  -- there is a sub-query, so the evaluation goes into it
  obtain ⟨depth, hdepth⟩ : ∃ depth, q.subqueries.length = depth + 1 :=
    Nat.exists_eq_succ_of_ne_zero
      (Nat.ne_of_gt (Nat.lt_of_lt_of_le (Nat.zero_lt_of_lt hex.opened) hg.subqueries))
  have hrow : q.rowExists ctx.model st (depth + 1) before.query.nextSubquery env = true ↔
      clause.Finds ctx.model st ctx.settings before.query.entity joins d b :=
    rowExists_exclusion hq hstart (hg.path hpath) (hg.mem_inner hq.toArena hlast) hrestr hroot
  rw [← hrow, Query.value, hex.predicate, Predicate.value, Predicate.value, hdepth]
  cases q.rowExists ctx.model st (depth + 1) before.query.nextSubquery env <;>
    simp [Truth.ofBool, Truth.not]

/-- **The predicate of a comparison is true for what the clause asks**, on every query that the
compilation may still reach. -/
theorem Compared.sat_iff (h : ctx.Compared p clause joins predicate done) (hq : q.Sound)
    (hg : done.query.Grows q) (he : p.query.entity = ctx.schema.entity)
    (hb : b ∈ st.rows ctx.schema.entity) :
    q.Sat ctx.model st predicate b ↔ ctx.Asks st clause joins b := by
  have hentity : q.entity = ctx.schema.entity := hg.entity.trans (h.follows.grows.entity.trans he)
  have hrow : b ∈ st.rows q.entity := hentity ▸ hb
  rcases h.lowered with ⟨last, hlower, hpath, -⟩ | ⟨last, d, before, hlower, hbefore, hex⟩
  · have hlocal := Clause.local_of_inPlace (Reading.ofSource_at _ _ last) hlower
    have hlast : last ∈ q.activeIn .outer := by
      have hread := (hlocal.reads last).2 rfl
      exact (hg.marked (h.safe.reads last hread last (self_mem_lineage _ last))).active hq
    simp only [Asks, Clause.lower_at root hlower, Lowered.moveTo]
    rw [sat_iff_of_local hq hrow (hg.path hpath) hlast hlocal]
    exact exists_congr fun c => and_congr Iff.rfl (hlocal.holds_moveTo root).symm
  · have hvalue : ∀ {env}, env root = some b → (q.value ctx.model st predicate env = .yes ↔
        ¬ clause.Finds ctx.model st ctx.settings ctx.schema.entity joins d b) := by
      intro env hroot
      rw [value_excludes hex hq hg hroot, hbefore.entity, he]
    simp only [Asks, Clause.lower_at root hlower, Lowered.moveTo]
    constructor
    · rintro ⟨env, -, hroot, hyes⟩
      exact (hvalue hroot).1 hyes
    · intro hnot
      obtain ⟨env, hmem, hroot⟩ := exists_env hq hrow
      exact ⟨env, hmem, hroot, (hvalue hroot).2 hnot⟩

end Context

/-! ## Filters -/

/-- Whether a filter restricts anything: text that is no expression does not. -/
def Filter.isRecognized : Filter → Bool
  | .unrecognized _ => false
  | _ => true

mutual

/-- **A filter as a boolean combination of its comparisons.** Text that is no expression counts for
nothing, and a connective with nothing else in it holds. -/
def Filter.Reading (holds : Comparison → Prop) : Filter → Prop
  | .and fs => Filter.ReadingAll holds fs
  | .or fs => (fs.any Filter.isRecognized → Filter.ReadingAny holds fs)
  | .comparison c => holds c
  | .unrecognized _ => True

/-- All filters of a list hold. -/
def Filter.ReadingAll (holds : Comparison → Prop) : List Filter → Prop
  | [] => True
  | f :: fs => f.Reading holds ∧ Filter.ReadingAll holds fs

/-- One of the filters of a list holds that are expressions. -/
def Filter.ReadingAny (holds : Comparison → Prop) : List Filter → Prop
  | [] => False
  | f :: fs => (f.isRecognized ∧ f.Reading holds) ∨ Filter.ReadingAny holds fs

end

/-- A conjunction holds if all its parts do. -/
theorem Filter.readingAll_iff {holds : Comparison → Prop} {fs : List Filter} :
    ReadingAll holds fs ↔ ∀ f ∈ fs, f.Reading holds := by
  induction fs with
  | nil => simp [ReadingAll]
  | cons f fs ih => simp [ReadingAll, ih]

/-- Of the parts of a disjunction those count that are expressions. -/
theorem Filter.readingAny_iff {holds : Comparison → Prop} {fs : List Filter} :
    ReadingAny holds fs ↔ ∃ f ∈ fs, f.isRecognized ∧ f.Reading holds := by
  induction fs with
  | nil => simp [ReadingAny]
  | cons f fs ih => simp [ReadingAny, ih]

namespace Query

variable {q q' : Query} {p p' : Predicate} {lo t : SourceId}

/-- What a predicate reads, and what is above it, is the root or comes late. -/
def Within (q : Query) (lo : SourceId) (p : Predicate) : Prop :=
  ∀ t, q.Below p t → t = root ∨ lo ≤ t

/-- Below what connects predicates is what is below one of them. -/
theorem below_connect {ps : List Predicate} (hc : p.Connects ps) :
    q.Below p t ↔ ∃ part ∈ ps, q.Below part t := by
  constructor
  · rintro ⟨s, hs, ht⟩
    obtain ⟨part, hpart, hs⟩ := (hc.reads s).1 hs
    exact ⟨part, hpart, s, hs, ht⟩
  · rintro ⟨part, hpart, s, hs, ht⟩
    exact ⟨s, (hc.reads s).2 ⟨part, hpart, hs⟩, ht⟩

theorem Within.connect {ps : List Predicate} (hc : p.Connects ps)
    (h : ∀ part ∈ ps, q.Within lo part) : q.Within lo p := by
  intro t ht
  obtain ⟨part, hpart, ht⟩ := (below_connect hc).1 ht
  exact h part hpart t ht

/-- Later sources do not come below a predicate that is safe. -/
theorem Safe.below_iff (h : q.Safe p) (hq : q.Sound) (hg : q.Grows q') :
    q'.Below p t ↔ q.Below p t := by
  refine exists_congr fun s => and_congr_right fun hs => ?_
  obtain ⟨src, hsrc, -⟩ := h.reads s hs s (self_mem_lineage q s)
  rw [hg.lineage hq.toArena (source?_lt hsrc)]

/-- **A predicate parts from those that read what came later.** -/
theorem Safe.parts (h : q.Safe p) (hq : q.Sound) (hg : q.Grows q')
    (hw : q'.Within q.nextSource p') (ht : q'.Below p t) (ht' : q'.Below p' t) : t = root := by
  refine (hw t ht').resolve_right fun hle => ?_
  obtain ⟨s, hs, hlin⟩ := (h.below_iff hq hg).1 ht
  obtain ⟨src, hsrc, -⟩ := h.reads s hs t hlin
  exact Nat.lt_irrefl _ (Nat.lt_of_lt_of_le (source?_lt hsrc) hle)

end Query

namespace Context

variable {ctx : Context} {st : Store} {p p' done : Progress} {fs : List Filter}
  {ps : List Predicate} {q : Query} {b : Binding} {lo : SourceId}

/-- The predicate of a comparison reads shared joins or new ones. -/
theorem Compared.within {clause : Clause} {joins : List Attribute} {predicate : Predicate}
    (h : ctx.Compared p clause joins predicate done) (hlo : lo ≤ p.query.nextSource)
    (hent : ∀ e ∈ p.entries, lo ≤ e.2) : done.query.Within lo predicate := by
  rintro t ⟨s, hs, ht⟩
  rcases h.lowered with ⟨last, hlower, -, hlineage⟩ | ⟨_, _, _, -, -, hex⟩
  · have hlocal := Clause.local_of_inPlace (Reading.ofSource_at _ _ last) hlower
    obtain rfl := (hlocal.reads s).1 hs
    rcases hlineage t ht with hroot | ⟨name, he⟩ | hle
    · exact Or.inl hroot
    · exact Or.inr (hent _ he)
    · exact Or.inr (Nat.le_trans hlo hle)
  · simp [hex.predicate, Predicate.reads] at hs

/-- **Predicates read nothing in common but the root** where no joins are shared, and nothing that
came before but what is shared. -/
structure Parted (p : Progress) (ps : List Predicate) (p' : Progress) : Prop where
  within : ∀ lo, lo ≤ p.query.nextSource → (∀ e ∈ p.entries, lo ≤ e.2) →
    ∀ predicate ∈ ps, p'.query.Within lo predicate
  apart : p.reuse = none →
    ps.Pairwise fun p₁ p₂ => ∀ t, p'.query.Below p₁ t → p'.query.Below p₂ t → t = root

/-- One more predicate comes before. -/
theorem Parted.cons {first : Progress} {predicate : Predicate} {qs : List Predicate}
    (h : Parted first qs p') (hf : ctx.Ran p [predicate] first) (hr : ctx.Ran first qs p')
    (hentries : ∀ e ∈ first.entries, e ∈ p.entries ∨ p.query.nextSource ≤ e.2)
    (hunshared : p.reuse = none → first.reuse = none)
    (hw : ∀ lo, lo ≤ p.query.nextSource → (∀ e ∈ p.entries, lo ≤ e.2) →
      first.query.Within lo predicate) : Parted p (predicate :: qs) p' := by
  have hsafe := hf.safe predicate (List.mem_singleton_self predicate)
  have hsound := hf.ready.sound
  have hg := hr.follows.grows
  exact {
    within := by
      intro lo hlo hent
      refine List.forall_mem_cons.2 ⟨fun t ht => ?_, h.within lo ?_ fun e he => ?_⟩
      · exact hw lo hlo hent t ((hsafe.below_iff hsound hg).1 ht)
      · exact Nat.le_trans hlo hf.follows.grows.nextSource_le
      · exact (hentries e he).elim (hent e) (Nat.le_trans hlo)
    apart := by
      intro hnone
      -- nothing is shared, so the others read joins that came later
      have hfirst := hunshared hnone
      refine List.pairwise_cons.2 ⟨fun predicate' hmem t => ?_, h.apart hfirst⟩
      refine hsafe.parts hsound hg (h.within _ (Nat.le_refl _) ?_ predicate' hmem)
      simp [Progress.entries, hfirst] }

/-- **A run parts what shares no joins.** -/
theorem Proceeds.parted (h : ctx.Proceeds fs p ps p') : Parted p ps p' := by
  induction h with
  | nil => exact ⟨by simp, fun _ => .nil⟩
  | connective hconn _ _ hfirst hrest _ _ ih ihr =>
    refine ihr.cons hfirst hrest (fun e he => Or.inl he) id fun lo hlo _ =>
      Within.connect (hconn.connects _) ?_
    exact ih.within lo hlo (by simp [Progress.entries, hconn.entries])
  | comparison _ _ _ _ _ _ hcompared hrest _ ihr =>
    exact ihr.cons hcompared.ran hrest hcompared.entries hcompared.unshared
      fun lo => hcompared.within
  | unrecognized _ ih => exact ih

/-- **Predicates mean what filters say**, on a query that the compilation may still reach. -/
structure Means (ctx : Context) (st : Store) (q : Query) (fs : List Filter)
    (ps : List Predicate) : Prop where
  all : ∀ b ∈ st.rows ctx.schema.entity, (∀ predicate ∈ ps, q.Sat ctx.model st predicate b) ↔
    Filter.ReadingAll (ctx.Meets st · b) fs
  any : ∀ b ∈ st.rows ctx.schema.entity, (∃ predicate ∈ ps, q.Sat ctx.model st predicate b) ↔
    Filter.ReadingAny (ctx.Meets st · b) fs
  recognized : ps = [] ↔ fs.any Filter.isRecognized = false

theorem Means.cons {f : Filter} {predicate : Predicate} (h : ctx.Means st q fs ps)
    (hf : f.isRecognized) (hsat : ∀ b ∈ st.rows ctx.schema.entity,
      q.Sat ctx.model st predicate b ↔ f.Reading (ctx.Meets st · b)) :
    ctx.Means st q (f :: fs) (predicate :: ps) where
  all := by
    intro b hb
    rw [List.forall_mem_cons, hsat b hb, h.all b hb, Filter.ReadingAll]
  any := by
    intro b hb
    simp only [List.mem_cons, exists_eq_or_imp, Filter.ReadingAny, hf, true_and]
    rw [hsat b hb, h.any b hb]
  recognized := by simp [hf]

/-- **A run gives predicates that mean what the parts of the filter say**, whatever joins it shares,
puts aside and drops. -/
theorem Compiles.means (h : ctx.Compiles fs p ps p') (hp : p.Ready ctx.model)
    (he : p.query.entity = ctx.schema.entity) (hq : q.Sound) (hg : p'.query.Grows q) :
    ctx.Means st q fs ps := by
  induction h with
  | nil => exact ⟨by simp [Filter.ReadingAll], by simp [Filter.ReadingAny], by simp⟩
  | @and children rest p p₁ p' ps qs hc hr ih ihr =>
    have hparts := hc.run (hp.sharing rfl) he
    have hfirst := hparts.connect hp (Predicate.connects_all ps)
    have hrest := hfirst.entity he
    have hlater : p₁.query.Grows q := (hr.run hfirst.ready hrest).follows.grows.trans hg
    refine (ihr hfirst.ready hrest hg).cons rfl fun b hb => ?_
    have hentity : q.entity = ctx.schema.entity := hlater.entity.trans hrest
    have hsafe : ∀ predicate ∈ ps, q.Safe predicate := fun predicate hmem =>
      (hparts.safe predicate hmem).of_grows hparts.ready.sound hlater
    -- the parts share no joins, so they still part at the root
    have hapart : ps.Pairwise fun p p' => ∀ t, q.Below p t → q.Below p' t → t = root := by
      refine ((hc.proceeds (hp.sharing rfl) he).parted.apart rfl).imp_of_mem ?_
      intro predicate predicate' hmem hmem' hpart t ht ht'
      refine hpart t ?_ ?_
      · exact ((hparts.safe predicate hmem).below_iff hparts.ready.sound hlater).1 ht
      · exact ((hparts.safe predicate' hmem').below_iff hparts.ready.sound hlater).1 ht'
    rw [sat_all hq (hentity ▸ hb) hsafe hapart]
    exact (ih (hp.sharing rfl) he hlater).all b hb
  | @or children rest p p₁ p' ps qs hc hr ih ihr =>
    have hfirst := (hc.run (hp.sharing rfl) he).connect hp (Predicate.connects_any ps)
    have hrest := hfirst.entity he
    have hlater : p₁.query.Grows q := (hr.run hfirst.ready hrest).follows.grows.trans hg
    refine (ihr hfirst.ready hrest hg).cons rfl fun b hb => ?_
    have hentity : q.entity = ctx.schema.entity := hlater.entity.trans hrest
    have hmeans := ih (hp.sharing rfl) he hlater
    rw [sat_any hq (hentity ▸ hb), hmeans.any b hb, hmeans.recognized, Filter.Reading]
    cases children.any Filter.isRecognized <;> simp
  | comparison hplan hj hf hr ihr =>
    have hc := finish_compared hp (he ▸ ctx.schema.chained_plan ctx.model _) hj hf
    have hrest := hc.ran.entity he
    have hlater := (hr.run hc.ready hrest).follows.grows.trans hg
    refine (ihr hc.ready hrest hg).cons rfl fun b hb => ?_
    rw [hc.sat_iff hq hlater he hb, Filter.Reading, Meets, hplan]
    simp
  | unrecognized _ ih =>
    have h := ih hp he hg
    exact ⟨by simpa [Filter.ReadingAll, Filter.Reading] using h.all,
      by simpa [Filter.ReadingAny, Filter.isRecognized] using h.any,
      by simpa [Filter.isRecognized] using h.recognized⟩

end Context

end EntityFilter
