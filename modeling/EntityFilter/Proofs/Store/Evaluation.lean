import EntityFilter.Proofs.Predicate.Value
import EntityFilter.Proofs.Query.Arena

/-!
# Selections without failures

A selection reads the data in an order, stops early and may fail. Here its outcome is said
without any of that: the list of all ways to bind the sources, and the value of the predicate
in each.

* `Query.envs`: all ways to bind the sources of a selection, one after the other.
* `Query.rowExists`, `Query.value`: whether a sub-query has a row, and the value of a predicate.
* `Yields`: a computation gives a result unless it fails for a reason of a given kind.
* `Store.select_yields`: a selection lists the roots of the bindings for which the predicate is
  true, unless the data do not fit.
-/

namespace EntityFilter

/-- What an attribute of a bound source reaches; nothing where the data do not fit. -/
def Binding.reached (st : Store) (b : Binding) (relation : Attribute) : List Binding :=
  match b.children st relation with
  | .ok bs => bs
  | .error _ => []

namespace Query

variable (m : Model) (st : Store) (q : Query)

/-- What a source can be bound to, given the sources before it. -/
def choices (env : Env) (s : SourceId) : List Binding :=
  match (q.source? s).map Source.kind with
  | none => []
  | some (.root e) => st.rows e
  | some (.join parent relation kind) =>
    kind.complete (((env parent).getD .missing).reached st relation)

/-- **All ways to bind some sources**, one after the other. -/
def envs : List SourceId → Env → List Env
  | [], env => [env]
  | s :: rest, env => (q.choices st env s).flatMap fun b => envs rest (env.set s b)

/-- Whether a sub-query has a row, with sub-queries inside it down to a depth. -/
def rowExists : Nat → SubqueryId → Env → Bool
  | 0, _, _ => false
  | depth + 1, s, env =>
    (q.envs st (q.activeIn (.subquery s)) env).any fun env =>
      (q.restriction s).value m st.dialect (rowExists depth) env == .yes

/-- **The value of a predicate on a query.** -/
def value (p : Predicate) (env : Env) : Truth :=
  p.value m st.dialect (q.rowExists m st q.subqueries.length) env

/-- The identifier of the record that the root is bound to, if the predicate is true. -/
def chosen (p : Predicate) (env : Env) : List Int :=
  match q.value m st p env, env root with
  | .yes, some (.row _ id _) => [id]
  | _, _ => []

/-- Whether a predicate reads only what is bound, and so do the restrictions of the sub-queries
that it asks for, which nest no deeper than a depth. -/
def ReadsWithin : Nat → (SourceId → Prop) → Predicate → Prop
  | 0, bound, p => (∀ s ∈ p.reads, bound s) ∧ p.subqueries = []
  | depth + 1, bound, p => (∀ s ∈ p.reads, bound s) ∧ ∀ t ∈ p.subqueries,
      ReadsWithin depth (fun s => bound s ∨ s ∈ q.activeIn (.subquery t)) (q.restriction t)

/-- The parents of sources that are not dropped are not dropped. -/
def ParentsActive : Prop :=
  ∀ ⦃s src parent psrc⦄, q.source? s = some src → src.active → src.parent? = some parent →
    q.source? parent = some psrc → psrc.active

/-- A property of bindings that a selection keeps, strong enough for failures to have a reason of
a given kind. -/
structure Steady (bad : StoreError → Prop) (fits : SourceId → Binding → Prop) : Prop where
  choice : ∀ {env : Env} {s : SourceId}, (∀ t b, env t = some b → fits t b) →
    (∃ src, q.source? s = some src ∧ src.active) → ∀ b ∈ q.choices st env s, fits s b
  children : ∀ {s src parent relation kind b e}, q.source? s = some src → src.active →
    src.kind = .join parent relation kind → fits parent b →
    b.children st relation = .error e → bad e

end Query

/-! ## Results up to failures -/

section Yields

variable {bad : StoreError → Prop} {α β : Type}

/-- **A computation gives a result unless it fails for a reason of a given kind.** -/
def Yields (bad : StoreError → Prop) (x : Except StoreError α) (a : α) : Prop :=
  x = .ok a ∨ ∃ e, x = .error e ∧ bad e

theorem Yields.pure (a : α) : Yields bad (.ok a) a := Or.inl rfl

theorem Yields.bind {x : Except StoreError α} {a : α} {f : α → Except StoreError β} {b : β}
    (hx : Yields bad x a) (hf : Yields bad (f a) b) : Yields bad (x >>= f) b := by
  rcases hx with rfl | ⟨e, rfl, he⟩
  · exact hf
  · exact Or.inr ⟨e, rfl, he⟩

theorem Yields.mapM {f : α → Except StoreError β} {g : α → β} {l : List α}
    (h : ∀ a ∈ l, Yields bad (f a) (g a)) : Yields bad (l.mapM f) (l.map g) := by
  induction l with
  | nil => exact Yields.pure _
  | cons a l ih =>
    rw [List.mapM_cons]
    exact (h a List.mem_cons_self).bind
      ((ih fun b hb => h b (List.mem_cons_of_mem _ hb)).bind (Yields.pure _))

theorem Yields.anyM {f : α → Except StoreError Bool} {g : α → Bool} {l : List α}
    (h : ∀ a ∈ l, Yields bad (f a) (g a)) : Yields bad (l.anyM f) (l.any g) := by
  induction l with
  | nil => exact Yields.pure _
  | cons a l ih =>
    simp only [List.anyM, List.any_cons]
    refine (h a List.mem_cons_self).bind ?_
    cases g a with
    | true => exact Yields.pure _
    | false => exact ih fun b hb => h b (List.mem_cons_of_mem _ hb)

/-- No failure has a reason of an impossible kind. -/
theorem Yields.eq_ok {x : Except StoreError α} {a : α} (hx : Yields (fun _ => False) x a) :
    x = .ok a := by
  rcases hx with h | ⟨e, -, he⟩
  · exact h
  · exact he.elim

end Yields

variable {m : Model} {st : Store} {q : Query} {bad : StoreError → Prop} {env : Env}

theorem Expr.read_yields {e : Expr} (h : (env e.source).isSome) :
    Yields bad (e.read m env) (e.value m env) := by
  obtain ⟨b, hb⟩ := Option.isSome_iff_exists.1 h
  rw [Expr.value_eq hb, Expr.read, hb]
  exact Yields.pure _

namespace Predicate

variable {hasRow : SubqueryId → Env → Except StoreError Bool} {rows : SubqueryId → Env → Bool}

theorem truth_of_test? {p : Predicate} {e : Expr} {f : Value → Truth}
    (h : test? st.dialect p = some (e, f)) :
    p.truth m st hasRow env = (do return f (← e.read m env)) := by
  cases p <;> simp only [test?, Option.some.injEq, Prod.mk.injEq, reduceCtorEq] at h <;>
    obtain ⟨rfl, rfl⟩ := h <;> rfl

/-- Stopping at a false part does not change the value of a conjunction. -/
theorem truthOfAll_yields {ps : List Predicate}
    (h : ∀ p ∈ ps, Yields bad (p.truth m st hasRow env) (p.value m st.dialect rows env)) :
    Yields bad (truthOfAll m st hasRow env ps) (valueOfAll m st.dialect rows env ps) := by
  induction ps with
  | nil => exact Yields.pure _
  | cons p ps ih =>
    rw [truthOfAll, valueOfAll]
    refine (h p List.mem_cons_self).bind ?_
    have rest := ih fun p' hp' => h p' (List.mem_cons_of_mem _ hp')
    by_cases hv : p.value m st.dialect rows env = .no
    · -- the rest is not read, and would change nothing
      rw [hv, if_pos rfl]
      exact Yields.pure _
    · rw [if_neg hv]
      exact rest.bind (Yields.pure _)

/-- Stopping at a true part does not change the value of a disjunction. -/
theorem truthOfAny_yields {ps : List Predicate}
    (h : ∀ p ∈ ps, Yields bad (p.truth m st hasRow env) (p.value m st.dialect rows env)) :
    Yields bad (truthOfAny m st hasRow env ps) (valueOfAny m st.dialect rows env ps) := by
  induction ps with
  | nil => exact Yields.pure _
  | cons p ps ih =>
    rw [truthOfAny, valueOfAny]
    refine (h p List.mem_cons_self).bind ?_
    have rest := ih fun p' hp' => h p' (List.mem_cons_of_mem _ hp')
    by_cases hv : p.value m st.dialect rows env = .yes
    · rw [hv, if_pos rfl]
      exact Yields.pure _
    · rw [if_neg hv]
      exact rest.bind (Yields.pure _)

/-- **Reading a predicate gives its value**, where all that it reads is bound. -/
theorem truth_yields (p : Predicate) (hs : ∀ s ∈ p.reads, (env s).isSome)
    (hr : ∀ t ∈ p.subqueries, Yields bad (hasRow t env) (rows t env)) :
    Yields bad (p.truth m st hasRow env) (p.value m st.dialect rows env) := by
  induction p using Predicate.induction st.dialect with
  | always => exact Yields.pure _
  | and ps ih =>
    refine truthOfAll_yields fun p hp => ih p hp (fun s h => ?_) fun t h => ?_
    · exact hs s (mem_readsAll.2 ⟨p, hp, h⟩)
    · exact hr t (mem_subqueriesOfAll.2 ⟨p, hp, h⟩)
  | or ps ih =>
    refine truthOfAny_yields fun p hp => ih p hp (fun s h => ?_) fun t h => ?_
    · exact hs s (mem_readsAll.2 ⟨p, hp, h⟩)
    · exact hr t (mem_subqueriesOfAll.2 ⟨p, hp, h⟩)
  | not p ih => exact (ih hs hr).bind (Yields.pure _)
  | test p e f h =>
    rw [truth_of_test? h, value_of_test? h]
    exact (Expr.read_yields (hs _ (by simp [reads_of_test? h]))).bind (Yields.pure _)
  | equalExpr l r =>
    exact (Expr.read_yields (hs _ (by simp [reads]))).bind
      ((Expr.read_yields (hs _ (by simp [reads]))).bind (Yields.pure _))
  | hasRow t => exact (hr t (by simp [subqueries])).bind (Yields.pure _)

end Predicate

namespace Query

/-- Whether the predicate is true decides whether the root is listed. -/
theorem chosen_of_root {p : Predicate} {id : Int} {entity : String} {record : Record}
    (hroot : env root = some (.row entity id record)) :
    q.chosen m st p env = if q.value m st p env = .yes then [id] else [] := by
  unfold chosen
  rw [hroot]
  cases q.value m st p env <;> rfl

theorem mem_sourcesWhere {test : Source → Bool} {s : SourceId} :
    s ∈ q.sourcesWhere test ↔ ∃ src, q.source? s = some src ∧ test src = true := by
  simp only [sourcesWhere, List.mem_filter, List.mem_range, Option.any_eq_true]
  exact ⟨fun h => h.2, fun ⟨src, h, ht⟩ => ⟨source?_lt h, src, h, ht⟩⟩

theorem mem_activeIn {scope : Scope} {s : SourceId} :
    s ∈ q.activeIn scope ↔ ∃ src, q.source? s = some src ∧ src.scope = scope ∧ src.active := by
  simp [activeIn, mem_sourcesWhere]

theorem mem_activeIn_iff {scope : Scope} {s : SourceId} {src : Source}
    (h : q.source? s = some src) : s ∈ q.activeIn scope ↔ src.scope = scope ∧ src.active := by
  simp [mem_activeIn, h]

theorem lt_of_mem_activeIn {scope : Scope} {s : SourceId} (hs : s ∈ q.activeIn scope) :
    s < q.nextSource :=
  have ⟨_, hsrc, _⟩ := mem_activeIn.1 hs
  source?_lt hsrc

/-- Sources are listed in ascending order. -/
theorem activeIn_ascending (scope : Scope) : (q.activeIn scope).Pairwise (· < ·) :=
  List.Pairwise.filter _ List.pairwise_lt_range

/-- What stands before all other sources of a selection is listed first. -/
theorem activeIn_eq_cons {scope : Scope} {r : SourceId} (hr : r ∈ q.activeIn scope)
    (hle : ∀ s ∈ q.activeIn scope, r ≤ s) : ∃ rest, q.activeIn scope = r :: rest ∧ r ∉ rest := by
  have hasc := q.activeIn_ascending scope
  cases hl : q.activeIn scope with
  | nil => simp [hl] at hr
  | cons s rest =>
    rw [hl] at hr hle hasc
    have hlt := (List.pairwise_cons.1 hasc).1
    rcases List.mem_cons.1 hr with rfl | hr
    · exact ⟨rest, rfl, fun h => Nat.lt_irrefl _ (hlt _ h)⟩
    · exact absurd (hlt r hr) (Nat.not_lt_of_le (hle s List.mem_cons_self))

/-- The parent of an active source is an active source of the same selection. -/
theorem parent_mem_activeIn (hq : q.Arena) (hpar : q.ParentsActive) {scope : Scope}
    {s parent : SourceId} {src : Source} (hs : s ∈ q.activeIn scope) (hsrc : q.source? s = some src)
    (hp : src.parent? = some parent) : parent < s ∧ parent ∈ q.activeIn scope := by
  obtain ⟨hsc, hact⟩ := (mem_activeIn_iff hsrc).1 hs
  obtain ⟨hlt, psrc, hps, hpsc⟩ := hq.parent hsrc hp
  exact ⟨hlt, mem_activeIn.2 ⟨psrc, hps, hpsc.trans hsc, hpar hsrc hact hp hps⟩⟩

/-- What a source can be bound to depends on what its parent is bound to. -/
theorem choices_congr {env' : Env} {s : SourceId}
    (h : ∀ src parent, q.source? s = some src → src.parent? = some parent →
      env parent = env' parent) : q.choices st env s = q.choices st env' s := by
  unfold choices
  cases hsrc : q.source? s with
  | none => rfl
  | some src =>
    cases hk : src.kind with
    | root entity => simp [hk]
    | join parent relation kind =>
      simp only [Option.map_some, hk, h src parent hsrc (Source.parent?_of_join hk)]

/-- In ascending sources the parent of the first one is not among them. -/
theorem parent_not_mem (hq : q.Arena) {s parent : SourceId} {src : Source} {l : List SourceId}
    (hl : (s :: l).Pairwise (· < ·)) (hsrc : q.source? s = some src)
    (hp : src.parent? = some parent) : parent ∉ s :: l := by
  have hlt := (hq.parent hsrc hp).1
  intro hmem
  rcases List.mem_cons.1 hmem with rfl | hmem
  · exact Nat.lt_irrefl _ hlt
  · exact Nat.lt_asymm hlt ((List.pairwise_cons.1 hl).1 parent hmem)

/-- Sources that can be bound one after the other: each one stands after its parent, which is
among them or bound before. -/
def Orderly (q : Query) (l : List SourceId) (env : Env) : Prop :=
  l.Pairwise (· < ·) ∧ ∀ s ∈ l, ∃ src, q.source? s = some src ∧ src.active ∧
    ∀ parent, src.parent? = some parent → parent < s ∧ (parent ∈ l ∨ (env parent).isSome)

theorem orderly_activeIn (hq : q.Arena) (hpar : q.ParentsActive) (scope : Scope) (env : Env) :
    q.Orderly (q.activeIn scope) env := by
  refine ⟨activeIn_ascending scope, fun s hs => ?_⟩
  obtain ⟨src, hsrc, -, hact⟩ := mem_activeIn.1 hs
  refine ⟨src, hsrc, hact, fun parent hp => ?_⟩
  have := parent_mem_activeIn hq hpar hs hsrc hp
  exact ⟨this.1, Or.inl this.2⟩

/-- The first of orderly sources has its parent bound. -/
theorem Orderly.head {s : SourceId} {l : List SourceId} (h : q.Orderly (s :: l) env) :
    ∃ src, q.source? s = some src ∧ src.active ∧
      ∀ parent, src.parent? = some parent → (env parent).isSome := by
  obtain ⟨hs, hl⟩ := h
  obtain ⟨src, hsrc, hact, hp⟩ := hl s List.mem_cons_self
  refine ⟨src, hsrc, hact, fun parent h => ?_⟩
  obtain ⟨hlt, hmem | hb⟩ := hp parent h
  · rcases List.mem_cons.1 hmem with rfl | hmem
    · exact absurd hlt (Nat.lt_irrefl _)
    · exact absurd hlt (Nat.lt_asymm ((List.pairwise_cons.1 hs).1 parent hmem))
  · exact hb

/-- What is bound or among the next sources still is when the first of them is bound. -/
theorem isSome_set {s u : SourceId} {l : List SourceId} (b : Binding)
    (h : (env u).isSome ∨ u ∈ s :: l) : (env.set s b u).isSome ∨ u ∈ l := by
  by_cases he : u = s
  · exact Or.inl (by simp [he])
  · rw [Env.set_of_ne he]
    exact h.imp id fun hu => (List.mem_cons.1 hu).resolve_left he

/-- When the first source is bound, the others are orderly still. -/
theorem Orderly.tail {s : SourceId} {l : List SourceId} (h : q.Orderly (s :: l) env) (b : Binding) :
    q.Orderly l (env.set s b) := by
  obtain ⟨hs, hl⟩ := h
  refine ⟨(List.pairwise_cons.1 hs).2, fun t ht => ?_⟩
  obtain ⟨src, hsrc, hact, hp⟩ := hl t (List.mem_cons_of_mem _ ht)
  refine ⟨src, hsrc, hact, fun parent h => ⟨(hp parent h).1, ?_⟩⟩
  exact (isSome_set b (hp parent h).2.symm).symm

variable {fits : SourceId → Binding → Prop}

theorem candidates_yields (hs : q.Steady st bad fits) {s : SourceId} {src : Source}
    (hsrc : q.source? s = some src) (hact : src.active)
    (hp : ∀ parent, src.parent? = some parent → (env parent).isSome)
    (henv : ∀ t b, env t = some b → fits t b) :
    Yields bad (q.candidates st env s) (q.choices st env s) := by
  unfold candidates choices
  rw [hsrc]
  simp only [Option.map_some]
  cases hk : src.kind with
  | root e => exact Yields.pure _
  | join parent relation kind =>
    obtain ⟨b, hb⟩ := Option.isSome_iff_exists.1 (hp parent (Source.parent?_of_join hk))
    simp only [hb, Option.getD_some, Binding.reached]
    cases hc : b.children st relation with
    | ok bs => exact Yields.pure _
    | error e => exact Or.inr ⟨e, rfl, hs.children hsrc hact hk (henv parent b hb) hc⟩

/-- What is bound stays bound, and fits. -/
theorem fits_set (henv : ∀ t b, env t = some b → fits t b) {s : SourceId} {b : Binding}
    (hb : fits s b) : ∀ t c, env.set s b t = some c → fits t c := by
  intro t c h
  by_cases he : t = s
  · subst he
    rw [Env.set_self] at h
    exact Option.some.inj h ▸ hb
  · rw [Env.set_of_ne he] at h
    exact henv t c h

/-- **Trying the bindings one after the other** finds one that passes if there is one. -/
theorem someBinding_yields (hs : q.Steady st bad fits) {test : Env → Except StoreError Bool}
    {t : Env → Bool} {l : List SourceId} (hl : q.Orderly l env)
    (henv : ∀ t b, env t = some b → fits t b)
    (htest : ∀ env', (∀ s, (env s).isSome ∨ s ∈ l → (env' s).isSome) →
      (∀ t b, env' t = some b → fits t b) → Yields bad (test env') (t env')) :
    Yields bad (q.someBinding st test l env) ((q.envs st l env).any t) := by
  induction l generalizing env with
  | nil => simpa [someBinding, envs] using htest env (fun s h => by simpa using h) henv
  | cons s l ih =>
    obtain ⟨src, hsrc, hact, hp⟩ := hl.head
    rw [someBinding, envs, List.any_flatMap]
    refine (candidates_yields hs hsrc hact hp henv).bind (Yields.anyM fun b hb => ?_)
    have hfit := hs.choice henv ⟨src, hsrc, hact⟩ b hb
    exact ih (hl.tail b) (fits_set henv hfit) fun env' hb' hf' =>
      htest env' (fun u hu => hb' u (isSome_set b hu)) hf'

/-- Binding some sources leaves the others as they are. -/
theorem eq_of_mem_envs {env' : Env} {l : List SourceId} {s : SourceId} (h : env' ∈ q.envs st l env)
    (hs : s ∉ l) : env' s = env s := by
  induction l generalizing env with
  | nil =>
    obtain rfl := List.mem_singleton.1 h
    rfl
  | cons t l ih =>
    obtain ⟨b, -, h⟩ := List.mem_flatMap.1 h
    rw [ih h fun hl => hs (List.mem_cons_of_mem _ hl),
      Env.set_of_ne fun he => hs (by simp [he])]

/-- **Visiting the bindings one after the other** gives what all of them give. -/
theorem allBindings_yields {α : Type} (hs : q.Steady st bad fits)
    {visit : Env → Except StoreError (List α)} {f : Env → List α} {l : List SourceId}
    (hl : q.Orderly l env) (henv : ∀ t b, env t = some b → fits t b)
    (hvisit : ∀ env', (∀ s, (env s).isSome ∨ s ∈ l → (env' s).isSome) →
      (∀ t b, env' t = some b → fits t b) → Yields bad (visit env') (f env')) :
    Yields bad (q.allBindings st visit l env) ((q.envs st l env).flatMap f) := by
  induction l generalizing env with
  | nil => simpa [allBindings, envs] using hvisit env (fun s h => by simpa using h) henv
  | cons s l ih =>
    obtain ⟨src, hsrc, hact, hp⟩ := hl.head
    rw [allBindings, envs, List.flatMap_assoc]
    refine (candidates_yields hs hsrc hact hp henv).bind ?_
    rw [List.flatMap_def]
    refine Yields.bind (Yields.mapM fun b hb => ?_) (Yields.pure _)
    have hfit := hs.choice henv ⟨src, hsrc, hact⟩ b hb
    exact ih (hl.tail b) (fits_set henv hfit) fun env' hb' hf' =>
      hvisit env' (fun u hu => hb' u (isSome_set b hu)) hf'

/-- A sub-query has a row if some way to bind its sources makes its restriction true. -/
theorem hasRow_yields (hq : q.Arena) (hpar : q.ParentsActive) (hs : q.Steady st bad fits)
    {bound : SourceId → Prop} (hb : ∀ s, bound s → (env s).isSome)
    (henv : ∀ t b, env t = some b → fits t b) {depth : Nat} {t : SubqueryId}
    (ht : q.ReadsWithin depth (fun s => bound s ∨ s ∈ q.activeIn (.subquery t))
      (q.restriction t)) :
    Yields bad (q.hasRow m st (depth + 1) t env) (q.rowExists m st (depth + 1) t env) := by
  -- a restriction asks for sub-queries that nest less deep
  induction depth generalizing t env bound with
  | zero =>
    obtain ⟨hreads, hsub⟩ := ht
    refine someBinding_yields hs (orderly_activeIn hq hpar _ env) henv fun env' hb' _ => ?_
    refine Yields.bind (Predicate.truth_yields _ (fun s h => ?_) (by simp [hsub])) (Yields.pure _)
    exact hb' s ((hreads s h).imp (hb s) id)
  | succ depth ih =>
    obtain ⟨hreads, hsub⟩ := ht
    refine someBinding_yields hs (orderly_activeIn hq hpar _ env) henv fun env' hb' hf' => ?_
    have bound' : ∀ s, bound s ∨ s ∈ q.activeIn (.subquery t) → (env' s).isSome :=
      fun s h => hb' s (h.imp (hb s) id)
    refine Yields.bind (Predicate.truth_yields _ (fun s h => bound' s (hreads s h)) fun u hu => ?_)
      (Yields.pure _)
    exact ih bound' hf' (hsub u hu)

theorem truth_yields (hq : q.Arena) (hpar : q.ParentsActive) (hs : q.Steady st bad fits)
    {bound : SourceId → Prop} (hb : ∀ s, bound s → (env s).isSome)
    (henv : ∀ t b, env t = some b → fits t b) {p : Predicate}
    (hp : q.ReadsWithin q.subqueries.length bound p) :
    Yields bad (q.truth m st p env) (q.value m st p env) := by
  unfold truth value
  cases hn : q.subqueries.length with
  | zero =>
    rw [hn] at hp
    exact Predicate.truth_yields p (fun s h => hb s (hp.1 s h)) (by simp [hp.2])
  | succ depth =>
    rw [hn] at hp
    exact Predicate.truth_yields p (fun s h => hb s (hp.1 s h)) fun t ht =>
      hasRow_yields hq hpar hs hb henv (hp.2 t ht)

end Query

open Query in
/-- **A selection lists the roots of the bindings that make the predicate true**, unless it
fails for a reason of the given kind. -/
theorem Store.select_yields (hq : q.Arena) (hpar : q.ParentsActive)
    {fits : SourceId → Binding → Prop}
    (hs : q.Steady st bad fits) {p : Predicate}
    (hp : q.ReadsWithin q.subqueries.length (· ∈ q.activeIn .outer) p) :
    Yields bad (select m st q p)
      ((q.envs st (q.activeIn .outer) Env.empty).flatMap (q.chosen m st p)) := by
  refine allBindings_yields hs (orderly_activeIn hq hpar _ _) (by simp [Env.empty])
    fun env' hb hf => ?_
  unfold selected
  refine Yields.bind (truth_yields hq hpar hs (fun s h => hb s (Or.inr h)) hf hp) ?_
  unfold chosen
  generalize q.value m st p env' = t
  generalize env' root = b
  rcases t with _ | _ | _ <;> rcases b with _ | _ | _ | _ | _ <;> exact Yields.pure _

end EntityFilter
