import EntityFilter.Proofs.Compile.Scoping
import EntityFilter.Proofs.Store.Ways

/-!
# Bindings of shared joins

Comparisons under one disjunction share the joins of the root. So what the first of them binds such
a join to, the others that go through it find bound already. Which joins are shared changes while
filters are compiled, and joins that only negations have asked for are dropped. What is bound
for the names of the relations is not affected by that.

* `Binding.hold`, `Binding.follow`: what a path from the root leads to where joins may be shared.
* `Progress.held`: what is bound for the joins that are shared in a state of a compilation.
* `Progress.held_excludeRelated`, `Progress.held_finish`: a negation through a relation does not
  change it, and no comparison does.
* `Progress.joinAll_ways`: what the end of a path is bound to, and what is held then.
-/

namespace EntityFilter

open Query

/-- What comparisons that share joins have bound so far, by the names of the relations of the root;
nothing where no joins are shared. -/
abbrev Held := Option (String → Option Binding)

namespace Binding

/-- What a join of the root is bound to where joins may be shared, with what is held then. -/
def hold (st : Store) (b : Binding) (relation : Attribute) (held : Held) :
    Multiset (Binding × Held) :=
  match held.bind (· relation.name) with
  | some c => {(c, held)}
  | none => (b.joined st relation).map fun c =>
      (c, held.map fun bound => Function.update bound relation.name (some c))

/-- What stands at the end of a path from the root where joins may be shared. -/
def follow (st : Store) (b : Binding) : List Attribute → Held → Multiset (Binding × Held)
  | [], held => {(b, held)}
  | relation :: rest, held =>
    (b.hold st relation held).bind fun w => (w.1.along st rest).map (·, w.2)

end Binding

/-! ## What is held -/

/-- The entries of a list without repeated keys are looked up in a part of it as in the whole. -/
theorem lookup_filter {κ α : Type} [BEq κ] [LawfulBEq κ] {l : List (κ × α)}
    (hl : (l.map Prod.fst).Nodup) (keep : κ × α → Bool) (k : κ) :
    (l.filter keep).lookup k = (l.lookup k).filter fun a => keep (k, a) := by
  induction l with
  | nil => rfl
  | cons e l ih =>
    obtain ⟨k', a⟩ := e
    rw [List.map_cons, List.nodup_cons] at hl
    obtain ⟨hnot, hl⟩ := hl
    have hnone : l.lookup k' = none := by
      rw [List.lookup_eq_none_iff]
      intro e he
      have hmem : e.1 ∈ l.map Prod.fst := List.mem_map_of_mem he
      simpa using fun h : k' = e.1 => hnot (h ▸ hmem)
    rw [List.filter_cons, List.lookup_cons]
    by_cases hk : k = k'
    · subst hk
      by_cases hkeep : keep (k, a)
      · simp [hkeep, Option.filter_some]
      · simp [hkeep, ih hl, hnone, Option.filter_some]
    · have hne : (k == k') = false := by simpa using hk
      rw [hne]
      split
      · rw [List.lookup_cons, hne, ih hl]
      · exact ih hl

namespace Progress

variable {p p' : Progress} {env env' : Env} {s t start last : SourceId} {relation : Attribute}
  {joins : List Attribute} {m : Model}

/-- What is bound for the joins that are shared. -/
def held (p : Progress) (env : Env) : Held :=
  p.reuse.map fun shared name => (shared.lookup name).bind env

/-- No name is shared twice. -/
def Keyed (p : Progress) : Prop := (p.entries.map Prod.fst).Nodup

theorem mem_entries_of_lookup {shared : List (String × SourceId)} {name : String}
    (hr : p.reuse = some shared) (h : shared.lookup name = some s) : (name, s) ∈ p.entries := by
  obtain ⟨before, after, rfl, -⟩ := List.lookup_eq_some_iff.1 h
  simp [entries, hr]

theorem held_of_none (hr : p.reuse = none) : p.held env = none := by
  rw [held, hr, Option.map_none]

theorem held_of_some {shared : List (String × SourceId)} (hr : p.reuse = some shared) :
    p.held env = some fun name => (shared.lookup name).bind env := by
  rw [held, hr, Option.map_some]

/-- What is held depends on what is bound for the shared joins alone. -/
theorem held_congr (h : ∀ e ∈ p.entries, env e.2 = env' e.2) : p.held env = p.held env' := by
  cases hr : p.reuse with
  | none => rw [held_of_none hr, held_of_none hr]
  | some shared =>
    rw [held_of_some hr, held_of_some hr]
    refine congrArg some (funext fun name => ?_)
    cases hlookup : shared.lookup name with
    | none => rfl
    | some s => exact h _ (mem_entries_of_lookup hr hlookup)

/-- Below another source than the root every join is a new one, and nothing is shared. -/
theorem join_below (hstart : start ≠ root) : p.join start relation =
    (p.query.nextSource, { p with query := p.query.join start relation .left }) := by
  simp [Progress.join, hstart]

/-- **What joining an attribute of the root comes to**: a new join that is shared with nothing, a
new one that will be shared, or one that is shared already. -/
theorem join_root (h : p.join root relation = (s, p')) :
    (p.reuse = none ∧ s = p.query.nextSource ∧
      p' = { p with query := p.query.join root relation .left }) ∨
    (∃ shared, p.reuse = some shared ∧ shared.lookup relation.name = none ∧
      s = p.query.nextSource ∧ p' = { p with
        query := p.query.join root relation .left
        reuse := some ((relation.name, s) :: shared) }) ∨
    ∃ shared, p.reuse = some shared ∧ shared.lookup relation.name = some s ∧ p' = p := by
  unfold Progress.join at h
  dsimp only at h
  rw [if_pos (beq_self_eq_true root)] at h
  split at h
  · rename_i hr
    obtain ⟨rfl, rfl⟩ := Prod.mk.inj h
    exact Or.inl ⟨hr, rfl, rfl⟩
  · rename_i shared hr
    split at h
    · rename_i s' hs'
      obtain ⟨rfl, rfl⟩ := Prod.mk.inj h
      exact Or.inr (Or.inr ⟨shared, hr, hs', rfl⟩)
    · rename_i hnone
      obtain ⟨rfl, rfl⟩ := Prod.mk.inj h
      exact Or.inr (Or.inl ⟨shared, hr, hnone, rfl, rfl⟩)

theorem grows_join (h : p.join start relation = (s, p')) : p.query.Grows p'.query := by
  rcases join_cases h with ⟨-, hquery, -⟩ | ⟨rfl, -⟩
  · exact hquery ▸ .join p.query start relation .left
  · exact .refl _

theorem grows_joinAll (h : joinAll start joins p = (last, p')) : p.query.Grows p'.query := by
  induction joins generalizing p start with
  | nil =>
    obtain ⟨-, rfl⟩ := Prod.mk.inj h
    exact .refl _
  | cons relation rest ih =>
    obtain ⟨s, p₁, hjoin⟩ : ∃ s p₁, p.join start relation = (s, p₁) := ⟨_, _, rfl⟩
    rw [joinAll, hjoin] at h
    exact (grows_join hjoin).trans (ih h)

/-- A join for which nothing is bound yet changes nothing of what is held. -/
theorem held_join (hk : p.Keyed) (henv : env p.query.nextSource = none)
    (h : p.join start relation = (s, p')) : p'.held env = p.held env ∧ p'.Keyed := by
  by_cases hstart : start = root
  · subst hstart
    rcases join_root h with ⟨-, -, rfl⟩ | ⟨shared, hr, hnone, rfl, rfl⟩ | ⟨-, -, -, rfl⟩
    · exact ⟨rfl, hk⟩
    · refine ⟨?_, ?_⟩
      · rw [held_of_some hr, held_of_some rfl]
        refine congrArg some (funext fun name => ?_)
        rw [List.lookup_cons]
        by_cases hname : name = relation.name
        · simp [hname, hnone, henv]
        · rw [beq_eq_false_iff_ne.2 hname]
      · have hnew : relation.name ∉ shared.map Prod.fst := by
          intro hmem
          obtain ⟨e, he, hname⟩ := List.mem_map.1 hmem
          have := List.lookup_eq_none_iff.1 hnone e he
          simp [hname] at this
        simp only [Keyed, entries, hr, Option.getD_some, List.map_cons, List.nodup_cons] at hk ⊢
        exact ⟨hnew, hk⟩
    · exact ⟨rfl, hk⟩
  · rw [join_below hstart] at h
    obtain ⟨rfl, rfl⟩ := Prod.mk.inj h
    exact ⟨rfl, hk⟩

/-- Nor does a path of such joins. -/
theorem held_joinAll (hk : p.Keyed) (henv : ∀ t, p.query.nextSource ≤ t → env t = none)
    (h : joinAll start joins p = (last, p')) : p'.held env = p.held env ∧ p'.Keyed := by
  induction joins generalizing p start with
  | nil =>
    obtain ⟨-, rfl⟩ := Prod.mk.inj h
    exact ⟨rfl, hk⟩
  | cons relation rest ih =>
    obtain ⟨s, p₁, hjoin⟩ : ∃ s p₁, p.join start relation = (s, p₁) := ⟨_, _, rfl⟩
    rw [joinAll, hjoin] at h
    obtain ⟨hheld, hk₁⟩ := held_join hk (henv _ (Nat.le_refl _)) hjoin
    have hle := (grows_join hjoin).nextSource_le
    obtain ⟨hheld', hk'⟩ := ih hk₁ (fun t ht => henv t (Nat.le_trans hle ht)) h
    exact ⟨hheld'.trans hheld, hk'⟩

/-- Only the root and sources that are marked are bound. -/
def Grounds (p : Progress) (env : Env) : Prop :=
  ∀ t, (env t).isSome → t = root ∨ p.query.Marked t

theorem grounds_empty (p : Progress) : p.Grounds Env.empty := by
  intro t ht
  cases ht

/-- So nothing is bound that is still to come. -/
theorem Grounds.unbound (henv : p.Grounds env) (hq : p.query.Arena)
    (ht : p.query.nextSource ≤ t) : env t = none := by
  cases henvt : env t with
  | none => rfl
  | some c =>
    rcases henv t (by simp [henvt]) with rfl | ⟨src, hsrc, -⟩
    · obtain ⟨r, hr⟩ := hq.root
      exact absurd (source?_lt hr) (Nat.not_lt.2 ht)
    · exact absurd (source?_lt hsrc) (Nat.not_lt.2 ht)

theorem Grounds.of_grows (henv : p.Grounds env) (hg : p.query.Grows p'.query) : p'.Grounds env :=
  fun t ht => (henv t ht).imp id hg.marked

/-- Dropping joins that are not bound changes nothing of what is held. -/
theorem held_discardUnused (hq : p.query.Arena) (hk : p.Keyed) (henv : p.Grounds env) :
    p.discardUnused.held env = p.held env ∧ p.discardUnused.Keyed := by
  -- an unused join is no root and not marked, so it is not bound
  have unbound : ∀ s ∈ p.query.unusedJoins, env s = none := by
    intro s hs
    cases henvs : env s with
    | none => rfl
    | some c =>
      rcases henv s (by simp [henvs]) with rfl | hmarked
      · exact absurd hs (root_not_unused hq)
      · exact absurd hs hmarked.not_unused
  cases hr : p.reuse with
  | none =>
    have hr' : p.discardUnused.reuse = none := by simp [discardUnused, hr]
    exact ⟨by rw [held_of_none hr, held_of_none hr'], by simp [Keyed, entries, hr']⟩
  | some shared =>
    have hr' : p.discardUnused.reuse =
        some (shared.filter fun entry => !p.query.unusedJoins.contains entry.2) := by
      simp [discardUnused, hr]
    rw [Keyed, entries, hr, Option.getD_some] at hk
    refine ⟨?_, ?_⟩
    · rw [held_of_some hr, held_of_some hr']
      refine congrArg some (funext fun name => ?_)
      rw [lookup_filter hk]
      cases shared.lookup name with
      | none => rfl
      | some s =>
        rw [Option.filter_some]
        split
        · rfl
        · rename_i hdropped
          exact (unbound s (by simpa using hdropped)).symm
    · rw [Keyed, entries, hr', Option.getD_some]
      exact hk.sublist (List.filter_sublist.map _)

/-- **A negation through a relation changes nothing of what is held**, whatever it drops. -/
theorem held_excludeRelated {settings : Settings} {clause : Clause} {d : Demand}
    {predicate : Predicate} (hq : p.query.Arena) (hk : p.Keyed) (henv : p.Grounds env)
    (h : p.excludeRelated settings clause joins d = (predicate, p')) :
    p'.held env = p.held env ∧ p'.Keyed := by
  have hcleared : p.cleared.held env = p.held env ∧ p.cleared.Keyed := by
    unfold cleared
    split
    · exact ⟨rfl, hk⟩
    · exact held_discardUnused hq hk henv
  have hnext : p.cleared.query.nextSource = p.query.nextSource := by
    unfold cleared
    split
    · rfl
    · simp [discardUnused, Query.discardUnused, Query.nextSource]
  obtain ⟨last, p₁, hjoin⟩ :
      ∃ last p₁, joinAll p.cleared.query.nextSource joins p.cleared.opened = (last, p₁) :=
    ⟨_, _, rfl⟩
  have hopened : p.query.nextSource ≤ p.cleared.opened.query.nextSource := by
    rw [← hnext]
    exact (Grows.openSubquery p.cleared.query p.cleared.query.entity).nextSource_le
  have hnew : ∀ t, p.cleared.opened.query.nextSource ≤ t → env t = none := fun t ht =>
    henv.unbound hq (Nat.le_trans hopened ht)
  obtain ⟨hheld, hkeyed⟩ := held_joinAll (p := p.cleared.opened) hcleared.2 hnew hjoin
  simp only [excludeRelated, ← cleared.eq_1, ← opened.eq_1, hjoin] at h
  obtain ⟨-, rfl⟩ := Prod.mk.inj h
  exact ⟨hheld.trans hcleared.1, hkeyed⟩

/-- **A comparison changes nothing of what is held**, whatever it joins and drops, and shares no
name twice. -/
theorem held_finish {ctx : Context} {clause : Clause} {predicate : Predicate}
    {joined done : Progress} (hp : p.Ready ctx.model) (hk : p.Keyed)
    (hch : ctx.model.Chained (some p.query.entity) joins)
    (hj : joinAll root joins p = (last, joined))
    (h : ctx.finish clause joins last joined = (predicate, done)) (henv : p.Grounds env) :
    done.held env = p.held env ∧ done.Keyed := by
  obtain ⟨src, hsrc, hent, hact⟩ := root_active hp.sound
  have hjoined : Joined ctx.model p root joins .outer last joined :=
    joinAll_joined hp.sound hsrc hact (hent ▸ hch) hp.shared hj
  obtain ⟨hheld, hkeyed⟩ := held_joinAll hk (fun t => henv.unbound hp.sound.toArena) hj
  have hgrounds : (joined.note clause.operator).Grounds env := henv.of_grows hjoined.grows
  unfold Context.finish at h
  dsimp only at h
  split at h
  · obtain ⟨-, rfl⟩ := Prod.mk.inj h
    exact ⟨hheld, hkeyed⟩
  · obtain ⟨hheld', hkeyed'⟩ := held_excludeRelated (p := joined.note clause.operator)
      hjoined.sound.toArena hkeyed hgrounds h
    exact ⟨hheld'.trans hheld, hkeyed'⟩

/-- **The rest of a path** consists of new joins, and shares nothing. -/
theorem joinAll_below (hstart : start ≠ root) (hq : p.query.Arena)
    (h : joinAll start joins p = (last, p')) :
    p'.reuse = p.reuse ∧ ∃ l, p'.query.Chain start joins l last ∧
      ∀ t ∈ l, p.query.nextSource ≤ t := by
  have hpos : root < p.query.nextSource := by
    obtain ⟨r, hr⟩ := hq.root
    exact source?_lt hr
  clear hq
  induction joins generalizing p start with
  | nil =>
    obtain ⟨rfl, rfl⟩ := Prod.mk.inj h
    exact ⟨rfl, [], .nil, by simp⟩
  | cons relation rest ih =>
    have hjoin : p.join start relation = (p.query.nextSource, _) := join_below hstart
    rw [joinAll, hjoin] at h
    have hgrows := Grows.join p.query start relation .left
    obtain ⟨hreuse, l, hchain, hnew⟩ := ih (Nat.ne_of_gt hpos) h
      (Nat.lt_of_lt_of_le hpos hgrows.nextSource_le)
    have hsrc : (p.query.join start relation .left).source? p.query.nextSource =
        some ⟨.join start relation .left, p.query.scopeOf start, true, false⟩ := by
      rw [source?_join, if_pos rfl]
    obtain ⟨src, hsrc', hk, -⟩ := (grows_joinAll h).kept hsrc
    refine ⟨hreuse, p.query.nextSource :: l, .cons hsrc' hk hchain, ?_⟩
    exact List.forall_mem_cons.2 ⟨Nat.le_refl _, fun t ht =>
      Nat.le_trans hgrows.nextSource_le (hnew t ht)⟩

/-! ## What a path is bound to -/

variable {st : Store} {q : Query} {D : Set SourceId} {b : Binding} {p₁ : Progress}

/-- Sources of which the root is one and the others are marked. -/
structure Based (p : Progress) (D : Set SourceId) : Prop where
  root_mem : root ∈ D
  marked : ∀ t ∈ D, t = root ∨ p.query.Marked t

theorem Based.lt (h : p.Based D) (hq : p.query.Arena) (ht : t ∈ D) : t < p.query.nextSource := by
  rcases h.marked t ht with rfl | ⟨src, hsrc, -⟩
  · obtain ⟨r, hr⟩ := hq.root
    exact source?_lt hr
  · exact source?_lt hsrc

theorem Based.grounds (h : p.Based D) (henv : env.Binds D) : p.Grounds env :=
  fun t ht => h.marked t ((henv t).1 ht)

/-- A join of the root that is bound already is held. -/
theorem hold_of_mem (hq : p.query.Arena) (hD : p.Based D) (henv : env.Binds D)
    (hj : p.join root relation = (s, p₁)) (hs : s ∈ D) :
    p₁ = p ∧ ∃ c, env s = some c ∧
      ∀ (st : Store) (b : Binding), b.hold st relation (p.held env) = {(c, p.held env)} := by
  have hlt := hD.lt hq hs
  rcases join_root hj with ⟨-, rfl, -⟩ | ⟨-, -, -, rfl, -⟩ | ⟨shared, hr, hlookup, rfl⟩
  · exact absurd hlt (Nat.lt_irrefl _)
  · exact absurd hlt (Nat.lt_irrefl _)
  · obtain ⟨c, hc⟩ := Option.isSome_iff_exists.1 ((henv s).2 hs)
    refine ⟨rfl, c, hc, fun st b => ?_⟩
    rw [held_of_some hr, Binding.hold]
    simp [hlookup, hc]

/-- When the source of one name is bound, what is bound for the other names stays. -/
theorem lookup_bind_set {shared shared' : List (String × SourceId)} {name : String} {c : Binding}
    (hs : shared'.lookup name = some s)
    (hsame : ∀ other, other ≠ name → shared'.lookup other = shared.lookup other)
    (hne : ∀ other t, other ≠ name → shared.lookup other = some t → t ≠ s) :
    (fun other => (shared'.lookup other).bind (env.set s c)) =
      Function.update (fun other => (shared.lookup other).bind env) name (some c) := by
  funext other
  rw [Function.update_apply]
  by_cases hother : other = name
  · rw [if_pos hother, hother, hs, Option.bind_some, Env.set_self]
  · rw [if_neg hother, hsame other hother]
    cases hlookup : shared.lookup other with
    | none => rfl
    | some t => exact Env.set_of_ne (hne other t hother hlookup)

/-- A join is shared under the name of its relation only. -/
theorem Ready.name_eq (hp : p.Ready m) {name name' : String} (h : (name, s) ∈ p.entries)
    (h' : (name', s) ∈ p.entries) : name = name' := by
  obtain ⟨src, rel, hsrc, -, hk, ha⟩ := (hp.entries _ h).1
  obtain ⟨src', rel', hsrc', -, hk', ha'⟩ := (hp.entries _ h').1
  obtain rfl := Option.some.inj (hsrc.symm.trans hsrc')
  obtain ⟨-, rfl, -⟩ := SourceKind.join.inj (hk.symm.trans hk')
  exact (Entity.name_of_attribute? ha).symm.trans (Entity.name_of_attribute? ha')

/-- Another one is bound to what the relation leads to, and then it is held. -/
theorem hold_of_not_mem (hp : p.Ready m) (henv : env.Binds D)
    (hj : p.join root relation = (s, p₁)) (hs : s ∉ D) :
    b.hold st relation (p.held env) =
      (b.joined st relation).map fun c => (c, p₁.held (env.set s c)) := by
  have hnone : env s = none := by
    rw [← Option.not_isSome_iff_eq_none, henv s]
    exact hs
  rcases join_root hj with ⟨hr, rfl, rfl⟩ | ⟨shared, hr, hlookup, rfl, rfl⟩ |
    ⟨shared, hr, hlookup, rfl⟩
  · have hr' : ({ p with query := p.query.join root relation .left } : Progress).reuse = none := hr
    simp [Binding.hold, held_of_none hr, held_of_none hr']
  · have hsame : ∀ other, other ≠ relation.name →
        ((relation.name, p.query.nextSource) :: shared).lookup other = shared.lookup other := by
      intro other hother
      rw [List.lookup_cons, beq_eq_false_iff_ne.2 hother]
    have hne : ∀ other t, other ≠ relation.name → shared.lookup other = some t →
        t ≠ p.query.nextSource := by
      intro other t _ ht
      obtain ⟨src, -, hsrc, -⟩ := (hp.entries _ (mem_entries_of_lookup hr ht)).1
      exact Nat.ne_of_lt (source?_lt hsrc)
    rw [held_of_some hr, Binding.hold]
    simp only [Option.bind_some, hlookup, Option.bind_none, Option.map_some]
    refine Multiset.map_congr rfl fun c _ => ?_
    rw [held_of_some rfl, lookup_bind_set List.lookup_cons_self hsame hne]
  · rw [held_of_some hr, Binding.hold]
    simp only [Option.bind_some, hlookup, hnone, Option.map_some]
    refine Multiset.map_congr rfl fun c _ => ?_
    rw [held_of_some hr, lookup_bind_set hlookup (fun _ _ => rfl)]
    rintro other t hother ht rfl
    exact hother (hp.name_eq (mem_entries_of_lookup hr ht) (mem_entries_of_lookup hr hlookup))

/-- What the end of a path is bound to when its start is, where none of its sources is shared. -/
theorem held_ways {c : Binding} (hchain : q.Chain start joins l last) (hc : env start = some c)
    (hreuse : p'.reuse = p.reuse) (hunshared : ∀ e ∈ p.entries, e.2 ∉ l) :
    (q.ways st l env).map (fun env' => (env' last, p'.held env')) =
      (c.along st joins).map fun e => (some e, p.held env) := by
  have hheld : ∀ env' ∈ q.ways st l env, p'.held env' = p.held env := by
    intro env' hmem
    have hsame : p'.held env' = p.held env' := by rw [held, held, hreuse]
    rw [hsame]
    exact held_congr fun e he => eq_of_mem_ways hmem (hunshared e he)
  calc (q.ways st l env).map (fun env' => (env' last, p'.held env'))
      = (q.ways st l env).map (fun env' => (env' last, p.held env)) :=
        Multiset.map_congr rfl fun env' hmem => by rw [hheld env' hmem]
    _ = ((q.ways st l env).map fun env' => env' last).map (·, p.held env) := by
        rw [Multiset.map_map]; rfl
    _ = (c.along st joins).map fun e => (some e, p.held env) := by
        rw [hchain.map_ways hc, Multiset.map_map]; rfl

/-- **A path from the root** has a first join, which may be a shared one, and new joins below it. -/
theorem joinAll_root {rest : List Attribute} (hp : p.Ready m)
    (hch : m.Chained (some p.query.entity) (relation :: rest))
    (hj : joinAll root (relation :: rest) p = (last, p')) (hq : q.Sound)
    (hg : p'.query.Grows q) :
    ∃ s p₁ l src, p.join root relation = (s, p₁) ∧ Joined m p root [relation] .outer s p₁ ∧
      q.source? s = some src ∧ src.kind = .join root relation .left ∧ p'.reuse = p₁.reuse ∧
      q.Chain s rest l last ∧ ∀ t ∈ l, p₁.query.nextSource ≤ t := by
  obtain ⟨s, p₁, hjoin⟩ : ∃ s p₁, p.join root relation = (s, p₁) := ⟨_, _, rfl⟩
  rw [joinAll, hjoin] at hj
  obtain ⟨rsrc, hrsrc, hrent, hract⟩ := root_active hp.sound
  have hfirst : Joined m p root [relation] .outer s p₁ := by
    cases hch with
    | cons ha hk _ => exact join_joined hp.sound hrsrc hract hrent ha hk hp.shared hjoin
  obtain ⟨src, hsrc, hkind⟩ : ∃ src, q.source? s = some src ∧
      src.kind = .join root relation .left := by
    cases (hg.path ((grows_joinAll hj).path hfirst.path)) with
    | cons hs hk hnil =>
      cases hnil
      exact ⟨_, hs, hk⟩
  have hpos : root < s := (hq.parent hsrc (Source.parent?_of_join hkind)).1
  obtain ⟨hreuse, l, hchain, hnew⟩ := joinAll_below (Nat.ne_of_gt hpos) hfirst.sound.toArena hj
  exact ⟨s, p₁, l, src, hjoin, hfirst, hsrc, hkind, hreuse, hchain.of_grows hg, hnew⟩

/-- **What the end of a path is bound to**, and what is held then, over all ways to bind the sources
of the path that are not bound yet. -/
theorem joinAll_ways (hp : p.Ready m) (hch : m.Chained (some p.query.entity) joins)
    (hD : p.Based D) (hj : joinAll root joins p = (last, p')) (hq : q.Sound)
    (hg : p'.query.Grows q) :
    ∃ l, q.Completes D l last ∧
      ∀ (st : Store) (env : Env) (b : Binding), env.Binds D → env root = some b →
        (q.ways st l env).map (fun env' => (env' last, p'.held env')) =
          (b.follow st joins (p.held env)).map fun w => (some w.1, w.2) := by
  have hroot : ∀ t ∈ q.lineage root, t ∈ D := by
    rw [lineage_root hq.toArena]
    exact List.forall_mem_singleton.2 hD.root_mem
  cases hch with
  | nil =>
    obtain ⟨rfl, rfl⟩ := Prod.mk.inj hj
    exact ⟨[], Chain.nil.completes hq.toArena hroot (by simp),
      fun st env b _ hb => by simp [Binding.follow, hb]⟩
  | @cons _ relation rest ha hk hrest =>
    obtain ⟨s, p₁, l, src, hjoin, hfirst, hsrc, hkind, hreuse, hchain, hnew⟩ :=
      joinAll_root hp (.cons ha hk hrest) hj hq hg
    have hparent := Source.parent?_of_join hkind
    have hfresh : ∀ t ∈ l, t ∉ D := by
      intro t ht hmem
      have hle := Nat.le_trans hfirst.grows.nextSource_le (hnew t ht)
      exact absurd (hD.lt hp.sound.toArena hmem) (Nat.not_lt.2 hle)
    have hunshared : ∀ e ∈ p₁.entries, e.2 ∉ l := by
      intro e he hmem
      have hlt := lt_of_mem_activeIn (hfirst.shared hp.shared e he).2
      exact absurd hlt (Nat.not_lt.2 (hnew _ hmem))
    by_cases hs : s ∈ D
    · have hbound : ∀ t ∈ q.lineage s, t ∈ D := by
        intro t ht
        rcases (mem_lineage_iff hq.toArena hsrc hparent).1 ht with rfl | ht
        · exact hs
        · exact hroot t ht
      refine ⟨l, hchain.completes hq.toArena hbound hfresh, fun st env b henv hb => ?_⟩
      obtain ⟨rfl, c, hc, hhold⟩ := hold_of_mem hp.sound.toArena hD henv hjoin hs
      rw [held_ways hchain hc hreuse hunshared, Binding.follow, hhold, Multiset.singleton_bind,
        Multiset.map_map]
      rfl
    · refine ⟨s :: l, (Chain.cons hsrc hkind hchain).completes hq.toArena hroot
        (List.forall_mem_cons.2 ⟨hs, hfresh⟩), fun st env b henv hb => ?_⟩
      rw [ways_cons, choices_join hsrc hkind hb, Multiset.map_bind, Binding.follow,
        hold_of_not_mem hp henv hjoin hs, Multiset.bind_map, Multiset.map_bind]
      refine Multiset.bind_congr fun c _ => ?_
      rw [held_ways hchain (Env.set_self _ _ _) hreuse hunshared, Multiset.map_map]
      rfl

end Progress

end EntityFilter
