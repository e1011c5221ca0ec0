import EntityFilter.Proofs.Compile.Anchored
import EntityFilter.Proofs.Compile.Trails

/-!
# Walking the paths of registered fields

A path is walked twice: once over the entity model, when its field is registered, and then again,
join by join, in every query that a filter is compiled onto. The second walk looks at what the
sources range over, and has errors of its own. None of them comes up.

* `Progress.navigate`: the walk over the sources of a query.
* `Progress.navigate_eq`: it takes the joins of `Model.route`, and comes to the same end or error.
* `ResolvedSelector.EndsAt`: where a selector ends by the walk of the registration, and the type of
  what is compared there.
* `Comparison.Refused`: why a comparison is refused whose path can be walked.
* `Context.navigate_registered`: what is registered is walked to its end from every root, and a
  comparison is refused for its arguments or its operator only.
-/

namespace EntityFilter

open Query

/-! ## The walk over sources -/

/-- **Walks a path from a source**: what the source ranges over has the next attribute, which is
joined if it is not basic. -/
def Progress.navigate (m : Model) (start : SourceId) :
    List String → Progress → Except FilterError (SourceId × Attribute) × Progress
  | [], p => (.error .emptyPath, p)
  | segment :: rest, p =>
    match (p.query.source? start).bind Source.entity? with
    | none => (.error (.notNavigable segment), p)
    | some e =>
      match (m.entity e).attribute? segment, rest with
      | none, _ => (.error (.unknownSegment segment e), p)
      | some a, [] =>
        if a.kind.isBasic then (.ok (start, a), p)
        else
          let (s, p) := p.join start a
          (.ok (s, a), p)
      | some a, _ :: _ =>
        if a.kind.isBasic then (.error (.notRelation segment), p)
        else
          let (s, p) := p.join start a
          navigate m s rest p

/-- **The walk over sources takes the joins of the walk over the model**, and comes to the same
end. -/
theorem Progress.navigate_eq {m : Model} {p : Progress} (hp : p.Anchored m) (start : SourceId)
    (path : List String) :
    navigate m start path p =
      let route := m.route ((p.query.source? start).bind Source.entity?) path
      let joined := joinAll start route.joins p
      (route.ending.map fun a => (joined.1, a), joined.2) := by
  induction path generalizing p start with
  | nil =>
    cases (p.query.source? start).bind Source.entity? <;> rfl
  | cons segment rest ih =>
    unfold navigate
    cases ho : (p.query.source? start).bind Source.entity? with
    | none => rfl
    | some e =>
      cases ha : (m.entity e).attribute? segment with
      | none => simp [Model.route, ha, Route.stop, joinAll, Except.map]
      | some a =>
        obtain ⟨s, p₁, hjoin⟩ : ∃ s p₁, p.join start a = (s, p₁) := ⟨_, _, rfl⟩
        have hdeclared : (m.entity e).attribute? a.name = some a := by
          rw [Entity.name_of_attribute? ha, ha]
        obtain ⟨hadv, hreached⟩ := join_advances hp ho hdeclared hjoin
        cases rest with
        | nil =>
          by_cases hb : a.kind.isBasic = true <;>
            simp [Model.route, ha, hb, hjoin, Route.stop, Route.after, joinAll, Except.map]
        | cons segment' rest =>
          by_cases hb : a.kind.isBasic = true
          · simp [Model.route, ha, hb, Route.stop, joinAll, Except.map]
          · have hrest := ih (hadv.anchored hp) s
            rw [hreached] at hrest
            simp only [Model.route, ha, hb, hjoin, hrest, Route.after, joinAll, if_false,
              Bool.false_eq_true]

/-! ## Where selectors end -/

/-- **Where a selector ends**, by the walk of the registration, with the type of what is compared
there: at the attribute of the store path, at an attribute named below it, or at the value of an
entry. -/
inductive ResolvedSelector.EndsAt (m : Model) (root : Entity) (r : ResolvedSelector) :
    Attribute → Option ScalarType → Prop
  | itself {owner : Entity} {stored : Attribute}
      (hpath : m.follow root r.entry.segments = .ok (owner, stored)) (hsubs : r.subs = [])
      (hshape : ∀ attributes, r.shape ≠ some (.entries attributes)) :
      EndsAt m root r stored stored.kind.scalarType?
  | below {owner : Entity} {stored a : Attribute} {sub target : String}
      (hpath : m.follow root r.entry.segments = .ok (owner, stored)) (hsubs : r.subs = [sub])
      (htarget : stored.kind.target? = some target)
      (ha : (m.entity target).attribute? sub = some a) (hshape : r.shape = none) :
      EndsAt m root r a a.kind.scalarType?
  | entries {owner : Entity} {stored value : Attribute} {target : String}
      {attributes : EntryAttributes}
      (hpath : m.follow root r.entry.segments = .ok (owner, stored)) (hsubs : r.subs = [])
      (hshape : r.shape = some (.entries attributes))
      (htarget : stored.kind.target? = some target)
      (ha : (m.entity target).attribute? attributes.value = some value) :
      EndsAt m root r stored value.kind.scalarType?

section Ends

variable {m : Model} {s : Schema} {r : ResolvedSelector} {f : Field} {entity selector e : String}
  {fields : List Field} {owner : Entity} {stored terminal : Attribute} {path : List String}
  {type : Option ScalarType}

/-- Behind a path that ends at a relation, the walk goes on from what the relation reaches. -/
theorem Model.ending_append {target segment : String} {rest : List String}
    (h : m.follow (m.entity e) path = .ok (owner, stored))
    (ht : stored.kind.target? = some target) :
    (m.route (some e) (path ++ segment :: rest)).ending =
      (m.route (some target) (segment :: rest)).ending := by
  have hbasic : ∀ {a : Attribute} {o : String}, a.kind.target? = some o →
      a.kind.isBasic = false := by
    intro a o hk
    cases hkind : a.kind <;> simp_all [Kind.target?, Kind.isBasic]
  induction path generalizing e with
  | nil => cases h
  | cons first path ih =>
    cases path with
    | nil =>
      rw [follow] at h
      cases ha : (m.entity e).attribute? first with
      | none => simp [ha] at h
      | some a =>
        simp only [ha, Except.ok.injEq, Prod.mk.injEq] at h
        obtain rfl := h.2
        simp [route, ha, hbasic ht, ht, Route.after]
    | cons second path =>
      rw [follow] at h
      · cases ha : (m.entity e).attribute? first with
        | none => simp [ha] at h
        | some a =>
          cases hk : a.kind.target? with
          | none => simp [ha, hk] at h
          | some o =>
            simp only [ha, Option.bind_some, hk] at h
            have hrest := ih h
            simpa [route, ha, hbasic hk, hk, Route.after] using hrest
      · simp

/-- What may be named below a field that is checked is declared where its path leads. -/
theorem Field.declared_sub (h : f.checkSubs m owner stored = .ok ()) {sub : String}
    (hsub : sub ∈ f.subs) :
    ∃ target a, stored.kind.target? = some target ∧ (m.entity target).attribute? sub = some a := by
  unfold checkSubs at h
  dsimp only at h
  cases ht : stored.kind.target? with
  | none =>
    obtain ⟨first, rest, hsubs⟩ := List.exists_cons_of_ne_nil (List.ne_nil_of_mem hsub)
    simp [ht, hsubs] at h
  | some target =>
    simp only [ht] at h
    cases hfind : f.subs.find? fun sub => !(m.entity target).declares sub with
    | some missing => simp [hfind] at h
    | none =>
      have hdeclares := List.find?_eq_none.1 hfind sub hsub
      rw [Bool.not_eq_true, Bool.not_eq_false'] at hdeclares
      obtain ⟨a, ha⟩ := Option.isSome_iff_exists.1 hdeclares
      exact ⟨target, a, rfl, ha⟩

/-- The value of an entry is declared where the path of the map leads. -/
theorem Field.declared_value {attributes : EntryAttributes}
    (h : f.checkMap m stored = .ok (.entries attributes)) :
    ∃ target a, stored.kind.target? = some target ∧
      (m.entity target).attribute? attributes.value = some a := by
  unfold checkMap at h
  split at h
  · cases h
  · rename_i target _ htarget _
    split at h
    · cases h
    · rename_i hfind
      have hattributes := MapShape.entries.inj (Except.ok.inj h)
      rw [hattributes] at hfind
      have hdeclares := List.find?_eq_none.1 hfind attributes.value (by simp)
      rw [Bool.not_eq_true, Bool.not_eq_false'] at hdeclares
      obtain ⟨a, ha⟩ := Option.isSome_iff_exists.1 hdeclares
      exact ⟨target, a, htarget, ha⟩
  · cases h

/-- **A selector of a registered schema ends at what is declared**, if it has no more than one name
below its field. -/
theorem Schema.endsAt_of_register (hreg : Schema.register m entity fields = .ok s)
    (hresolve : s.resolve selector = .ok r) (hshort : r.subs.length ≤ 1) :
    ∃ terminal type, r.EndsAt m (m.entity s.entity) terminal type := by
  obtain ⟨hentry, hsubs, hmapSubs⟩ := mem_of_resolve hresolve
  obtain ⟨f, owner, stored, hpasses⟩ := passes_of_register hreg hentry
  have hfield : r.field = f := hpasses.field
  rw [hfield] at hsubs hmapSubs
  cases hmap : f.isMap with
  | true =>
    obtain ⟨shape, hcheck, hshape⟩ := hpasses.map hmap
    cases shape with
    | native =>
      refine ⟨_, _, .itself hpasses.path (hmapSubs hmap) fun attributes hs => ?_⟩
      exact nomatch hshape.symm.trans hs
    | entries attributes =>
      obtain ⟨target, value, htarget, hvalue⟩ := Field.declared_value hcheck
      exact ⟨_, _, .entries hpasses.path (hmapSubs hmap) hshape htarget hvalue⟩
  | false =>
    have hshape : r.shape = none := hpasses.plain hmap
    match hr : r.subs, hshort with
    | [], _ =>
      exact ⟨_, _, .itself hpasses.path hr fun _ hs => nomatch hshape.symm.trans hs⟩
    | [sub], _ =>
      obtain ⟨target, a, htarget, ha⟩ :=
        Field.declared_sub hpasses.below (hsubs sub (by simp [hr]))
      exact ⟨_, _, .below hpasses.path hr htarget ha hshape⟩

/-- The walk over the model comes to that end, and reads values of that type. -/
theorem ResolvedSelector.EndsAt.ending (h : r.EndsAt m (m.entity e) terminal type) :
    (m.route (some e) r.navigation).ending = .ok terminal ∧
      m.comparedType? r.shape terminal = type := by
  cases h with
  | itself hpath hsubs hshape =>
    refine ⟨?_, ?_⟩
    · rw [navigation, hsubs, List.append_nil]
      exact Model.ending_of_follow hpath
    · unfold Model.comparedType?
      split
      · exact absurd ‹_› (hshape _)
      · rfl
  | below hpath hsubs htarget ha hshape =>
    refine ⟨?_, by rw [hshape]; rfl⟩
    rw [navigation, hsubs, Model.ending_append hpath htarget]
    cases hb : terminal.kind.isBasic <;> simp [Model.route, ha, hb, Route.stop, Route.after]
  | entries hpath hsubs hshape htarget ha =>
    refine ⟨?_, ?_⟩
    · rw [navigation, hsubs, List.append_nil]
      exact Model.ending_of_follow hpath
    · rw [hshape, Model.comparedType?, htarget, Option.bind_eq_bind, Option.bind_some, ha]
      rfl

end Ends

/-! ## Refusals -/

/-- **Why a comparison is refused** whose path can be walked: for the first argument that cannot be
read; if there is none such, for its operator; and if that one is known, for want of an argument. -/
inductive Comparison.Refused (read : String → Except FilterError Value) (c : Comparison) :
    FilterError → Prop
  | argument {before after : List String} {raw : String} {e : FilterError}
      (hargs : c.arguments = before ++ raw :: after) (hbefore : ∀ b ∈ before, ∃ v, read b = .ok v)
      (hraw : read raw = .error e) : Refused read c e
  | operator (hargs : ∀ raw ∈ c.arguments, ∃ v, read raw = .ok v)
      (hop : Operator.ofSymbol? c.operator = none) : Refused read c (.unknownOperator c.operator)
  | noArgument {op : Operator} (hop : Operator.ofSymbol? c.operator = some op)
      (hargs : c.arguments = []) : Refused read c (.noArgument c.selector)

section Refusals

variable {α β ε : Type} {read : α → Except ε β} {m : Model} {s : Schema} {r : ResolvedSelector}
  {c : Comparison} {terminal : Attribute} {e : FilterError}

/-- The first member of a list that cannot be read decides the error. -/
theorem mapM_first_error {before after : List α} {a : α} {e : ε}
    (hbefore : ∀ b ∈ before, ∃ v, read b = .ok v) (ha : read a = .error e) :
    (before ++ a :: after).mapM read = .error e := by
  induction before with
  | nil =>
    rw [List.nil_append, List.mapM_cons, ha]
    rfl
  | cons b before ih =>
    obtain ⟨⟨v, hv⟩, hrest⟩ := List.forall_mem_cons.1 hbefore
    rw [List.cons_append, List.mapM_cons, hv, ih hrest]
    rfl

/-- All members of a list can be read, or there is a first one that cannot. -/
theorem mapM_cases (read : α → Except ε β) (l : List α) :
    (∃ vs, l.mapM read = .ok vs ∧ vs.length = l.length ∧ ∀ a ∈ l, ∃ v, read a = .ok v) ∨
      ∃ before a after e, l = before ++ a :: after ∧ (∀ b ∈ before, ∃ v, read b = .ok v) ∧
        read a = .error e := by
  induction l with
  | nil => exact Or.inl ⟨[], rfl, rfl, fun a ha => absurd ha List.not_mem_nil⟩
  | cons a l ih =>
    cases ha : read a with
    | error e => exact Or.inr ⟨[], a, l, e, rfl, fun b hb => absurd hb List.not_mem_nil, ha⟩
    | ok v =>
      obtain ⟨vs, hvs, hlen, hall⟩ | ⟨before, b, after, e, rfl, hbefore, hb⟩ := ih
      · refine Or.inl ⟨v :: vs, ?_, by rw [List.length_cons, hlen, List.length_cons],
          List.forall_mem_cons.2 ⟨⟨v, ha⟩, hall⟩⟩
        rw [List.mapM_cons, ha, hvs]
        rfl
      · exact Or.inr ⟨a :: before, b, after, e, rfl, List.forall_mem_cons.2 ⟨⟨v, ha⟩, hbefore⟩, hb⟩

/-- **The check of a comparison whose path can be walked** fails as it is refused. -/
theorem Schema.plan_error_iff (hresolve : s.resolve c.selector = .ok r)
    (hending : (m.route (some s.entity) r.navigation).ending = .ok terminal) :
    (s.plan m c).2 = .error e ↔
      c.Refused (r.field.readArgument m c.selector (m.comparedType? r.shape terminal)) e := by
  unfold plan
  simp only [hresolve, clause, hending, bind, Except.bind]
  generalize r.field.readArgument m c.selector (m.comparedType? r.shape terminal) = read
  obtain ⟨vs, hvs, hlen, hall⟩ | ⟨before, raw, after, e', hargs, hbefore, hraw⟩ :=
    mapM_cases read c.arguments
  · rw [hvs]
    have hread : ∀ {raw e}, raw ∈ c.arguments → read raw ≠ .error e := by
      intro raw e hmem herror
      obtain ⟨v, hv⟩ := hall raw hmem
      exact nomatch hv.symm.trans herror
    cases hop : Operator.ofSymbol? c.operator with
    | none =>
      constructor
      · intro h
        obtain rfl := Except.error.inj h
        exact .operator hall hop
      · intro h
        cases h with
        | argument hargs _ hraw => exact absurd hraw (hread (by simp [hargs]))
        | operator => rfl
        | noArgument hop' => exact nomatch hop.symm.trans hop'
    | some op =>
      cases hargs : c.arguments with
      | nil =>
        constructor
        · intro h
          obtain rfl := Except.error.inj h
          exact .noArgument hop hargs
        · intro h
          cases h with
          | argument hargs' => simp [hargs] at hargs'
          | operator _ hop' => exact nomatch hop.symm.trans hop'
          | noArgument => rfl
      | cons raw rest =>
        obtain ⟨v, vs, rfl⟩ := List.exists_cons_of_length_pos (by rw [hlen, hargs]; simp)
        constructor
        · exact nofun
        · intro h
          cases h with
          | argument hargs' _ hraw => exact absurd hraw (hread (by simp [hargs']))
          | operator _ hop' => exact nomatch hop.symm.trans hop'
          | noArgument _ hargs' => exact nomatch hargs.symm.trans hargs'
  · have herror : c.arguments.mapM read = .error e' := hargs ▸ mapM_first_error hbefore hraw
    rw [herror]
    constructor
    · intro h
      obtain rfl := Except.error.inj h
      exact .argument hargs hbefore hraw
    · intro h
      cases h with
      | argument hargs' hbefore' hraw' =>
        rw [hargs', mapM_first_error hbefore' hraw'] at herror
        exact congrArg _ (Except.error.inj herror).symm
      | operator hall =>
        obtain ⟨v, hv⟩ := hall raw (by simp [hargs])
        exact nomatch hraw.symm.trans hv
      | noArgument _ hnone => simp [hargs] at hnone

end Refusals

namespace Context

variable {ctx : Context} {q : Query} {c : Comparison} {e : FilterError}

/-- A comparison does not compile exactly if its check fails. -/
theorem run_comparison_error (p : Progress) :
    (∃ p', (ctx.compileComparison c).run p = .error e p') ↔
      (ctx.schema.plan ctx.model c).2 = .error e := by
  rw [run_compileComparison]
  cases hplan : (ctx.schema.plan ctx.model c).2 <;> simp [hplan]

/-- So it is with a comparison that is the whole filter. -/
theorem compile_comparison_error (he : q.entity = ctx.schema.entity) :
    (q.compile ctx (.comparison c)).1 = .error e ↔ (ctx.schema.plan ctx.model c).2 = .error e := by
  unfold Query.compile
  rw [if_neg (fun hne => hne he), compileFilter, EStateM.run_bind, run_compileComparison]
  cases hplan : (ctx.schema.plan ctx.model c).2 with
  | error e' => simp only [hplan, Except.error.injEq]
  | ok clause => simp only [hplan, EStateM.run_pure, reduceCtorEq]

/-- **The states in which a compilation onto a query walks a path**: when a comparison is begun, and
when a sub-query has been opened for it. -/
inductive Walks (ctx : Context) (q : Query) : Progress → Prop
  | begun {f : Filter} {c : Comparison} {p : Progress} {aside : List Shared}
      (h : ctx.Begins [f] ⟨q, none, false⟩ [] c p aside) : Walks ctx q p
  | opened {f : Filter} {c : Comparison} {p joined : Progress} {aside : List Shared}
      {last : SourceId} {clause : Clause} (h : ctx.Begins [f] ⟨q, none, false⟩ [] c p aside)
      (hplan : (ctx.schema.plan ctx.model c).2 = .ok clause)
      (hj : Progress.joinAll root (ctx.schema.plan ctx.model c).1 p = (last, joined)) :
      Walks ctx q (joined.note clause.operator).cleared.opened

theorem Walks.anchored {p : Progress} (h : ctx.Walks q p) (hq : q.Anchored)
    (he : q.entity = ctx.schema.entity) :
    p.Anchored ctx.model ∧ p.query.entity = ctx.schema.entity := by
  cases h with
  | begun h =>
    obtain ⟨hp, hgrows⟩ := h.anchored (hq.start ctx.model) he
    exact ⟨hp, hgrows.entity.trans he⟩
  | @opened f c p joined aside last clause h _ hj =>
    obtain ⟨hp, hgrows⟩ := h.anchored (hq.start ctx.model) he
    have hentity : p.query.entity = ctx.schema.entity := hgrows.entity.trans he
    have hjoins := Progress.joinAll_advances hp (chained_root hp hentity c) hj
    have hnote : Progress.Advances ctx.model joined (joined.note clause.operator) :=
      ⟨.refl _, fun _ he => Or.inl he⟩
    have hclear := Progress.cleared_advances ctx.model (joined.note clause.operator)
    have hopen := (Progress.opened_advances ctx.model (joined.note clause.operator).cleared).1
    have hall := ((hjoins.trans hnote).trans hclear).trans hopen
    exact ⟨hall.anchored hp, hall.grows.entity.trans hentity⟩

/-- **What is registered is walked to its end.** A selector of a registered schema that names at
most one attribute below its field ends at what is declared, with the type that is declared there.
On every query on the entity of the schema, whatever it has seen, a compilation that walks the path,
from the root of the query or from that of a sub-query, comes to this end, by the joins that it
makes. So a comparison with the selector compiles, alone and wherever it stands in a filter, unless
an argument cannot be read as a value of that type, or the operator is unknown, or there is no
argument. -/
theorem navigate_registered {entity selector : String} {fields : List Field} {r : ResolvedSelector}
    (hreg : Schema.register ctx.model entity fields = .ok ctx.schema)
    (hresolve : ctx.schema.resolve selector = .ok r) (hshort : r.subs.length ≤ 1) :
    ∃ terminal type, r.EndsAt ctx.model (ctx.model.entity ctx.schema.entity) terminal type ∧
      ctx.model.comparedType? r.shape terminal = type ∧
      ∀ q : Query, q.Reached → q.entity = ctx.schema.entity →
        (∀ p, ctx.Walks q p → ∀ start, start = root ∨ (∃ src, p.query.source? start = some src ∧
            src.kind = .root ctx.schema.entity) →
          ∃ last p', Progress.navigate ctx.model start r.navigation p = (.ok (last, terminal), p') ∧
            Progress.joinAll start (ctx.model.route (some ctx.schema.entity) r.navigation).joins p =
              (last, p')) ∧
        ∀ c : Comparison, c.selector = selector → ∀ e,
          ((q.compile ctx (.comparison c)).1 = .error e ↔
            c.Refused (r.field.readArgument ctx.model selector type) e) ∧
          ∀ p, (∃ p', (ctx.compileComparison c).run p = .error e p') ↔
            c.Refused (r.field.readArgument ctx.model selector type) e := by
  obtain ⟨terminal, type, hends⟩ := Schema.endsAt_of_register hreg hresolve hshort
  obtain ⟨hending, htype⟩ := hends.ending
  refine ⟨terminal, type, hends, htype, fun q hq he => ⟨fun p hp start hstart => ?_, ?_⟩⟩
  · obtain ⟨hanchored, hentity⟩ := hp.anchored hq.anchored he
    have hsource : (p.query.source? start).bind Source.entity? = some ctx.schema.entity := by
      rcases hstart with rfl | ⟨src, hsrc, hkind⟩
      · rw [hanchored.entity_root, hentity]
      · rw [hsrc, Option.bind_some, Source.entity?, hkind]
    refine ⟨_, _, ?_, rfl⟩
    rw [Progress.navigate_eq hanchored, hsource]
    simp only [hending, Except.map]
  · rintro c rfl e
    have hrefused := Schema.plan_error_iff (e := e) hresolve hending
    rw [htype] at hrefused
    exact ⟨(compile_comparison_error he).trans hrefused,
      fun p => (run_comparison_error p).trans hrefused⟩

end Context

namespace Shop

theorem itemQty_navigated :
    Schema.register context.model "Order" [⟨"item", "items", ["qty"], false, none, "id", none⟩] =
        .ok context.schema ∧
      reached.Reached ∧ ∃ r terminal type, context.schema.resolve "item.qty" = .ok r ∧
        r.EndsAt context.model (context.model.entity "Order") terminal type ∧
        (∀ p, context.Walks reached p → ∀ start, start = root ∨ (∃ src,
            p.query.source? start = some src ∧ src.kind = .root "Order") →
          ∃ last p', Progress.navigate context.model start r.navigation p =
            (.ok (last, terminal), p')) ∧
        ∀ e, (reached.compile context failing).1 = .error e ↔
          Comparison.Refused (r.field.readArgument context.model "item.qty" type)
            ⟨"item.qty", "=~", ["2"]⟩ e := by
  have hreg : Schema.register context.model "Order"
      [⟨"item", "items", ["qty"], false, none, "id", none⟩] = .ok context.schema := by rfl
  have hresolve : context.schema.resolve "item.qty" =
      .ok ⟨⟨⟨"item", "items", ["qty"], false, none, "id", none⟩, ["items"], none⟩, ["qty"],
        none⟩ := by
    rfl
  have hreached : reached.Reached := .compile context _ (.compile context _ (.start "Order"))
  have hentity : reached.entity = context.schema.entity := by decide +kernel
  obtain ⟨terminal, type, hends, -, hall⟩ :=
    Context.navigate_registered hreg hresolve (Nat.le_refl 1)
  obtain ⟨hnavigate, hrefused⟩ := hall reached hreached hentity
  refine ⟨hreg, hreached, _, terminal, type, hresolve, hends, fun p hp start hstart => ?_,
    fun e => (hrefused ⟨"item.qty", "=~", ["2"]⟩ rfl e).1⟩
  obtain ⟨last, p', hwalk, -⟩ := hnavigate p hp start hstart
  exact ⟨last, p', hwalk⟩

end Shop

end EntityFilter
