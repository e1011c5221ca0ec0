import EntityFilter.Proofs.Store.Assignment
import Mathlib.Data.Set.Card
import Mathlib.Logic.Relation

/-!
# The meaning of a selection

A selection lists the root of every assignment for which the predicate is true. Truth is that of
Kleene's logic, and a sub-query has a row if some assignment of its own sources, over the bindings
around it, makes its restriction true.

* `Query.HasTruth`: the truth of a predicate under bindings, by its structure.
* `Query.HasTruth.unique`: a predicate has at most one truth value.
* `Query.Acyclic`, `Query.ReadsBound`: restrictions do not refer to each other in a circle, and
  read what is bound where they stand.
* `Store.select_lists_assignments`: a selection succeeds and lists the root of every assignment
  that makes the predicate true, once for each of them, in ascending order.
-/

namespace EntityFilter

namespace Query

/-- **The truth of a predicate under bindings.** -/
inductive HasTruth (m : Model) (st : Store) (q : Query) : Env → Predicate → Truth → Prop
  | always {env : Env} : HasTruth m st q env .always .yes
  | and {env : Env} {ps : List Predicate} (v : Predicate → Truth)
      (h : ∀ p ∈ ps, HasTruth m st q env p (v p)) :
      HasTruth m st q env (.and ps) (ps.foldr (fun p t => (v p).conj t) .yes)
  | or {env : Env} {ps : List Predicate} (v : Predicate → Truth)
      (h : ∀ p ∈ ps, HasTruth m st q env p (v p)) :
      HasTruth m st q env (.or ps) (ps.foldr (fun p t => (v p).disj t) .no)
  | not {env : Env} {p : Predicate} {t : Truth} (h : HasTruth m st q env p t) :
      HasTruth m st q env (.not p) t.not
  | test {env : Env} {p : Predicate} {e : Expr} {f : Value → Truth}
      (h : p.test? st.dialect = some (e, f)) :
      HasTruth m st q env p (f (e.value m env))
  | equalExpr {env : Env} (l r : Expr) :
      HasTruth m st q env (.equalExpr l r) ((l.value m env).equals (r.value m env))
  /-- Some assignment of the sub-query makes its restriction true. -/
  | someRow {env : Env} {s : SubqueryId} {σ : Assignment} (hσ : q.Assigns st (.subquery s) σ)
      (h : HasTruth m st q (σ.bindings env) (q.restriction s) .yes) :
      HasTruth m st q env (.hasRow s) .yes
  /-- Every assignment of the sub-query makes its restriction false or unknown. -/
  | noRow {env : Env} {s : SubqueryId} (v : Assignment → Truth)
      (h : ∀ σ, q.Assigns st (.subquery s) σ →
        HasTruth m st q (σ.bindings env) (q.restriction s) (v σ))
      (hv : ∀ σ, q.Assigns st (.subquery s) σ → v σ ≠ .yes) :
      HasTruth m st q env (.hasRow s) .no

variable {m : Model} {st : Store} {q : Query} {env : Env} {scope : Scope} {σ : Assignment}
  {p : Predicate}

/-- **A predicate has at most one truth value.** -/
theorem HasTruth.unique {t t' : Truth} (h : q.HasTruth m st env p t)
    (h' : q.HasTruth m st env p t') : t = t' := by
  induction h generalizing t' with
  | always => cases h' with
    | always => rfl
    | test h => cases h
  | @and env ps v _ ih => cases h' with
    | and v' h' =>
      refine List.foldr_ext _ _ _ fun p hp t => ?_
      rw [ih p hp (h' p hp)]
    | test h => cases h
  | @or env ps v _ ih => cases h' with
    | or v' h' =>
      refine List.foldr_ext _ _ _ fun p hp t => ?_
      rw [ih p hp (h' p hp)]
    | test h => cases h
  | not _ ih => cases h' with
    | not h' => rw [ih h']
    | test h => cases h
  | @test env p e f h => cases h' with
    | test h' =>
      obtain ⟨rfl, rfl⟩ := Prod.mk.inj (Option.some.inj (h.symm.trans h'))
      rfl
    | always | and | or | not | equalExpr | someRow | noRow => cases h
  | equalExpr l r => cases h' with
    | equalExpr => rfl
    | test h => cases h
  | someRow hσ _ ih => cases h' with
    | someRow => rfl
    | noRow v h hv => exact absurd (ih (h _ hσ)).symm (hv _ hσ)
    | test h => cases h
  | noRow v _ hv ih => cases h' with
    | someRow hσ h => exact absurd (ih _ hσ h) (hv _ hσ)
    | noRow => rfl
    | test h => cases h

/-- Whether a sub-query's restriction asks for another sub-query. -/
def Refers (q : Query) (s t : SubqueryId) : Prop :=
  t ∈ (q.restriction s).subqueries

/-- **The restrictions of sub-queries do not refer to each other in a circle.** -/
def Acyclic (q : Query) : Prop :=
  ∀ s, ¬ Relation.TransGen q.Refers s s

/-- The predicates that a predicate reaches through sub-queries, each with the sources that are
bound where it stands. -/
inductive Reaches (q : Query) :
    (SourceId → Prop) → Predicate → (SourceId → Prop) → Predicate → Prop
  | self {bound p} : Reaches q bound p bound p
  | inside {bound p t bound' p'} (ht : t ∈ p.subqueries)
      (h : Reaches q (fun s => bound s ∨ s ∈ q.activeIn (.subquery t)) (q.restriction t)
        bound' p') : Reaches q bound p bound' p'

/-- **A predicate and the restrictions that it reaches read what is bound where they stand**, and
ask for sub-queries of the query. -/
def ReadsBound (q : Query) (bound : SourceId → Prop) (p : Predicate) : Prop :=
  ∀ {bound' p'}, q.Reaches bound p bound' p' →
    (∀ s ∈ p'.reads, bound' s) ∧ ∀ t ∈ p'.subqueries, t < q.nextSubquery

/-- Restrictions that refer to later sub-queries alone do not refer to each other in a circle. -/
theorem acyclic_of_lt (h : ∀ {s t}, q.Refers s t → s < t) : q.Acyclic := by
  have hgreater : ∀ {s t}, Relation.TransGen q.Refers s t → s < t := by
    intro s t hpath
    induction hpath with
    | single hstep => exact h hstep
    | tail _ hstep ih => exact Nat.lt_trans ih (h hstep)
  exact fun s hcircle => Nat.lt_irrefl s (hgreater hcircle)

/-- A sub-query that different others refer to, some through further ones, is one more. -/
theorem Acyclic.length_lt (hac : q.Acyclic) {path : List SubqueryId} {u : SubqueryId}
    (hnd : path.Nodup) (hlt : ∀ t ∈ path, t < q.nextSubquery) (hu : u < q.nextSubquery)
    (hpath : ∀ t ∈ path, Relation.TransGen q.Refers t u) :
    (u :: path).Nodup ∧ path.length < q.nextSubquery := by
  have fresh : u ∉ path := fun hmem => hac u (hpath u hmem)
  have hnd' : (u :: path).Nodup := List.nodup_cons.2 ⟨fresh, hnd⟩
  have hsub : u :: path ⊆ List.range q.nextSubquery := by
    intro t ht
    rcases List.mem_cons.1 ht with rfl | ht
    · exact List.mem_range.2 hu
    · exact List.mem_range.2 (hlt t ht)
  exact ⟨hnd', by simpa using hnd'.length_le_of_subset hsub⟩

/-- **Acyclic restrictions nest no deeper than there are sub-queries.** The sub-queries entered on
the way to a predicate are all different. -/
theorem ReadsBound.within (hac : q.Acyclic) {bound : SourceId → Prop} {depth : Nat}
    (path : List SubqueryId) (hlen : path.length + depth = q.nextSubquery) (hnd : path.Nodup)
    (hlt : ∀ t ∈ path, t < q.nextSubquery)
    (hpath : ∀ t ∈ path, ∀ u ∈ p.subqueries, Relation.TransGen q.Refers t u)
    (hp : q.ReadsBound bound p) : q.ReadsWithin depth bound p := by
  induction depth generalizing p bound path with
  | zero =>
    obtain ⟨hreads, hminted⟩ := hp .self
    refine ⟨hreads, List.eq_nil_iff_forall_not_mem.2 fun u hu => ?_⟩
    have := (hac.length_lt hnd hlt (hminted u hu) fun t ht => hpath t ht u hu).2
    omega
  | succ depth ih =>
    obtain ⟨hreads, hminted⟩ := hp .self
    refine ⟨hreads, fun u hu => ?_⟩
    have hnd' := (hac.length_lt hnd hlt (hminted u hu) fun t ht => hpath t ht u hu).1
    refine ih (u :: path) (by simp only [List.length_cons]; omega) hnd'
      (List.forall_mem_cons.2 ⟨hminted u hu, hlt⟩) (fun t ht v hv => ?_) fun h => hp (.inside hu h)
    rcases List.mem_cons.1 ht with rfl | ht
    · exact .single hv
    · exact (hpath t ht u hu).tail hv

/-! ## The value is the truth -/

theorem root_choice_iff {s : SourceId} {src : Source} {entity : String}
    (hsrc : q.source? s = some src) (hk : src.kind = .root entity) (c : Choice) :
    (∃ id record, (st.table entity).entries[c.place]? = some (id, record) ∧
      c.binding = .row entity id record) ↔
      (q.choices st env s)[c.place]? = some c.binding := by
  simp only [choices, hsrc, Option.map_some, hk, Store.rows, List.getElem?_map,
    Option.map_eq_some_iff, Prod.exists, eq_comm (a := c.binding)]

theorem join_choice_iff (ht : q.Typed m) (hst : st.WellFormed m) {s parent : SourceId}
    {src : Source} {relation : Attribute} {kind : JoinKind} {pc : Choice}
    (hsrc : q.source? s = some src) (hact : src.active)
    (hk : src.kind = .join parent relation kind) (hpc : σ parent = some pc)
    (hsuits : q.Suits st parent pc.binding) (c : Choice) :
    (pc.binding.Child st relation c ∨
      kind = .left ∧ c = ⟨0, .missing⟩ ∧ ∀ c', ¬ pc.binding.Child st relation c') ↔
      (q.choices st (σ.bindings env) s)[c.place]? = some c.binding := by
  obtain ⟨n, b⟩ := c
  simp only [child_iff_reached hst ht hsrc hact hk hsuits, choices, hsrc, Option.map_some, hk,
    Assignment.bindings_of_some hpc, Option.getD_some, Choice.mk.injEq]
  -- no child at all means that nothing is reached
  have none_iff : (∀ c' : Choice,
      ¬ (pc.binding.reached st relation)[c'.place]? = some c'.binding) ↔
      pc.binding.reached st relation = [] := by
    constructor
    · intro h
      refine List.eq_nil_iff_forall_not_mem.2 fun b hb => ?_
      obtain ⟨n, hn⟩ := List.mem_iff_getElem?.1 hb
      exact h ⟨n, b⟩ hn
    · intro h c'
      simp [h]
  rw [none_iff]
  cases kind <;> cases hbs : pc.binding.reached st relation <;> cases n <;>
    simp [JoinKind.complete, eq_comm]

/-- In a well-formed store the assignments of a selection are the ways to bind its sources one
after the other. -/
theorem assigns_iff_mem_placements (hq : q.Arena) (hpar : q.ParentsActive) (ht : q.Typed m)
    (hst : st.WellFormed m) :
    q.Assigns st scope σ ↔ σ ∈ q.placements st env (q.activeIn scope) Assignment.empty := by
  rw [mem_placements hq (activeIn_ascending scope)]
  constructor
  · intro h
    refine ⟨fun s hs => ?_, fun s hs => ?_⟩
    · exact Option.not_isSome_iff_eq_none.1 fun hb => hs ((h.bound s).1 hb)
    · obtain ⟨c, hc⟩ := Option.isSome_iff_exists.1 ((h.bound s).2 hs)
      obtain ⟨src, hsrc, -, hact⟩ := mem_activeIn.1 hs
      refine ⟨c, hc, ?_⟩
      cases hk : src.kind with
      | root entity => exact (root_choice_iff hsrc hk c).1 (h.root hsrc hk hc)
      | join parent relation kind =>
        have hparent : src.parent? = some parent := Source.parent?_of_join hk
        have hp := (parent_mem_activeIn hq hpar hs hsrc hparent).2
        obtain ⟨pc, hpc⟩ := Option.isSome_iff_exists.1 ((h.bound parent).2 hp)
        have hsuits : q.Suits st parent pc.binding := h.suits hq hpar hpc
        exact (join_choice_iff ht hst hsrc hact hk hpc hsuits c).1 (h.join hsrc hk hc hpc)
  · rintro ⟨hout, hin⟩
    have bound : ∀ s, (σ s).isSome ↔ s ∈ q.activeIn scope := fun s =>
      ⟨fun hs => Classical.byContradiction fun hn => by simp [hout s hn, Assignment.empty] at hs,
        fun hs => by obtain ⟨c, hc, -⟩ := hin s hs; simp [hc]⟩
    -- what is bound is one of the choices of its source
    have chosen : ∀ {s c}, σ s = some c →
        s ∈ q.activeIn scope ∧ (q.choices st (σ.bindings env) s)[c.place]? = some c.binding := by
      intro s c hc
      have hs := (bound s).1 (by simp [hc])
      obtain ⟨c', hc', hn⟩ := hin s hs
      obtain rfl : c' = c := Option.some.inj (hc'.symm.trans hc)
      exact ⟨hs, hn⟩
    refine ⟨bound, fun hsrc hk hc => ?_, fun {s src parent relation kind c pc} hsrc hk hc hpc => ?_⟩
    · exact (root_choice_iff hsrc hk _).2 (chosen hc).2
    · obtain ⟨hs, hn⟩ := chosen hc
      obtain ⟨-, hact⟩ := (mem_activeIn_iff hsrc).1 hs
      have hsuits : q.Suits st parent pc.binding :=
        suits_of_mem_choices (List.mem_of_getElem? (chosen hpc).2)
      exact (join_choice_iff ht hst hsrc hact hk hpc hsuits c).2 hn

/-- The bindings of a selection are those of its assignments. -/
theorem mem_envs_iff (hq : q.Arena) (hpar : q.ParentsActive) (ht : q.Typed m)
    (hst : st.WellFormed m) {env' : Env} :
    env' ∈ q.envs st (q.activeIn scope) env ↔
      ∃ σ, q.Assigns st scope σ ∧ σ.bindings env = env' := by
  have henvs : (q.placements st env (q.activeIn scope) .empty).map (·.bindings env) =
      q.envs st (q.activeIn scope) env := map_bindings_placements _ _
  simp only [← henvs, List.mem_map, ← assigns_iff_mem_placements hq hpar ht hst]

/-- **The value of a predicate is its truth**, if it is for the sub-queries that it asks for. -/
theorem hasTruth_of_rows {rows : SubqueryId → Env → Bool} (p : Predicate)
    (h : ∀ t ∈ p.subqueries, q.HasTruth m st env (.hasRow t) (.ofBool (rows t env))) :
    q.HasTruth m st env p (p.value m st.dialect rows env) := by
  induction p using Predicate.induction st.dialect with
  | always => exact .always
  | and ps ih =>
    rw [Predicate.value, Predicate.valueOfAll_eq_foldr]
    exact .and _ fun p hp => ih p hp fun t ht => h t (Predicate.mem_subqueriesOfAll.2 ⟨p, hp, ht⟩)
  | or ps ih =>
    rw [Predicate.value, Predicate.valueOfAny_eq_foldr]
    exact .or _ fun p hp => ih p hp fun t ht => h t (Predicate.mem_subqueriesOfAll.2 ⟨p, hp, ht⟩)
  | not p ih => exact .not (ih h)
  | test p e f hp =>
    rw [Predicate.value_of_test? hp]
    exact .test hp
  | equalExpr l r => exact .equalExpr l r
  | hasRow t => exact h t (by simp [Predicate.subqueries])

/-- **A sub-query has a row if some assignment makes its restriction true.** -/
theorem hasTruth_rowExists (hq : q.Arena) (hpar : q.ParentsActive) (ht : q.Typed m)
    (hst : st.WellFormed m) {bound : SourceId → Prop} {depth : Nat}
    (hp : q.ReadsWithin depth bound p) :
    q.HasTruth m st env p (p.value m st.dialect (q.rowExists m st depth) env) := by
  induction depth generalizing p bound env with
  | zero => exact hasTruth_of_rows p (by simp [hp.2])
  | succ depth ih =>
    refine hasTruth_of_rows p fun t ht' => ?_
    have truth : ∀ σ : Assignment, q.HasTruth m st (σ.bindings env) (q.restriction t)
        ((q.restriction t).value m st.dialect (q.rowExists m st depth) (σ.bindings env)) :=
      fun _ => ih (hp.2 t ht')
    cases hrow : q.rowExists m st (depth + 1) t env with
    | true =>
      obtain ⟨env', henv, hv⟩ := List.any_eq_true.1 hrow
      obtain ⟨σ, hσ, rfl⟩ := (mem_envs_iff hq hpar ht hst).1 henv
      refine .someRow hσ ?_
      rw [← eq_of_beq hv]
      exact truth σ
    | false =>
      refine .noRow _ (fun σ _ => truth σ) fun σ hσ hv => ?_
      have := List.any_eq_false.1 hrow _ ((mem_envs_iff hq hpar ht hst).2 ⟨σ, hσ, rfl⟩)
      simp [hv] at this

/-! ## What is listed -/

/-- The assignments that bind the root to the record of an identifier and make a predicate
true. -/
def hits (m : Model) (st : Store) (q : Query) (p : Predicate) (id : Int) : Set Assignment :=
  {σ | q.Assigns st .outer σ ∧ (∃ n record, σ root = some ⟨n, .row q.entity id record⟩) ∧
    q.HasTruth m st (σ.bindings Env.empty) p .yes}

/-- The root is bound to a record. -/
theorem exists_root_record (h : q.Assigns st .outer σ) (hq : q.Arena) :
    ∃ n id record, σ root = some ⟨n, .row q.entity id record⟩ := by
  obtain ⟨r, hr⟩ := hq.root
  have hroot : root ∈ q.activeIn .outer := mem_activeIn.2 ⟨_, hr, rfl, rfl⟩
  obtain ⟨⟨n, b⟩, hc⟩ := Option.isSome_iff_exists.1 ((h.bound root).2 hroot)
  obtain ⟨id, record, -, rfl⟩ := h.root hr rfl hc
  exact ⟨n, id, record, hc⟩

/-- An assignment that makes a predicate true is a hit for the record of the root, and for no
other one. -/
theorem mem_hits_iff (h : q.Assigns st .outer σ) {n : Nat} {id id' : Int} {record : Record}
    (hc : σ root = some ⟨n, .row q.entity id' record⟩) {t : Truth}
    (ht : q.HasTruth m st (σ.bindings Env.empty) p t) :
    σ ∈ q.hits m st p id ↔ id' = id ∧ t = .yes := by
  constructor
  · rintro ⟨-, ⟨n', record', hc'⟩, hyes⟩
    have := Option.some.inj (hc.symm.trans hc')
    simp only [Choice.mk.injEq, Binding.row.injEq] at this
    exact ⟨this.2.2.1, ht.unique hyes⟩
  · rintro ⟨rfl, rfl⟩
    exact ⟨h, ⟨n, record, hc⟩, ht⟩

/-- The root is the first source of the outer selection. -/
theorem activeIn_outer (hq : q.Arena) :
    ∃ rest, q.activeIn .outer = root :: rest ∧ root ∉ rest := by
  obtain ⟨r, hr⟩ := hq.root
  have hmem : root ∈ q.activeIn .outer := mem_activeIn.2 ⟨_, hr, rfl, rfl⟩
  exact activeIn_eq_cons hmem fun s _ => Nat.zero_le s

/-- The listing goes through the records of the root in ascending order. -/
theorem chosen_sorted (hq : q.Arena) :
    ((q.envs st (q.activeIn .outer) Env.empty).flatMap (q.chosen m st p)).Pairwise (· ≤ ·) := by
  obtain ⟨rest, hrest, hnot⟩ := activeIn_outer hq
  obtain ⟨r, hr⟩ := hq.root
  have hchoices : q.choices st Env.empty root = st.rows q.entity := by
    simp [choices, hr]
  rw [hrest, envs, List.flatMap_assoc, hchoices, Store.rows, List.flatMap_map,
    List.pairwise_flatMap]
  -- all that is listed for a record of the root is its identifier
  have listed : ∀ (e : Int × Record) (id : Int),
      id ∈ (q.envs st rest (Env.empty.set root (.row q.entity e.1 e.2))).flatMap
        (q.chosen m st p) → id = e.1 := by
    intro e id hid
    obtain ⟨env, henv, hid⟩ := List.mem_flatMap.1 hid
    have hroot : env root = some (.row q.entity e.1 e.2) := by
      rw [eq_of_mem_envs henv hnot, Env.set_self]
    rw [chosen_of_root hroot] at hid
    split at hid
    · exact List.mem_singleton.1 hid
    · exact absurd hid List.not_mem_nil
  constructor
  · intro e _
    exact List.pairwise_of_forall_mem_list fun a ha b hb => by
      rw [listed e a ha, listed e b hb]
  · refine (st.table q.entity).ascending.imp fun {e e'} hlt a ha b hb => ?_
    rw [listed e a ha, listed e' b hb]
    exact Int.le_of_lt (Std.compare_eq_lt.1 hlt)

theorem count_flatMap_ite {α β : Type} [BEq β] [LawfulBEq β] {l : List α} {f : α → List β}
    (test : α → Prop) [DecidablePred test] {b : β}
    (h : ∀ a ∈ l, (f a).count b = if test a then 1 else 0) :
    (l.flatMap f).count b = (l.filter (test ·)).length := by
  induction l with
  | nil => rfl
  | cons a l ih =>
    rw [List.flatMap_cons, List.count_append, h a List.mem_cons_self,
      ih fun a' ha' => h a' (List.mem_cons_of_mem _ ha'), List.filter_cons]
    by_cases ha : test a <;> simp [ha, Nat.add_comm]

theorem encard_of_nodup {α : Type} {l : List α} (hl : l.Nodup) {s : Set α}
    (hs : ∀ a, a ∈ l ↔ a ∈ s) : s.encard = l.length := by
  classical
  obtain rfl : (l.toFinset : Set α) = s := by
    ext a
    simp [hs]
  rw [Set.encard_coe_eq_coe_finsetCard, List.toFinset_card_of_nodup hl]

end Query

open Query in
/-- **A selection lists the root of every assignment that makes the predicate true**, once for
each of them, in ascending order. It succeeds, and the predicate has one truth value for every
assignment. -/
theorem Store.select_lists_assignments (hq : q.Built) (hpar : q.ParentsActive) (ht : q.Typed m)
    (hac : q.Acyclic) (hst : st.WellFormed m) (hp : q.ReadsBound (· ∈ q.activeIn .outer) p) :
    ∃ ids, select m st q p = .ok ids ∧ ids.Pairwise (· ≤ ·) ∧
      (∀ id, (ids.count id : ℕ∞) = (q.hits m st p id).encard) ∧
      ∀ σ, q.Assigns st .outer σ → ∃! t, q.HasTruth m st (σ.bindings Env.empty) p t := by
  classical
  have hq := hq.arena
  have hwithin : q.ReadsWithin q.subqueries.length (· ∈ q.activeIn .outer) p :=
    hp.within hac [] (Nat.zero_add _) List.nodup_nil (by simp) (by simp)
  have truth : ∀ env, q.HasTruth m st env p (q.value m st p env) := fun _ =>
    hasTruth_rowExists hq hpar ht hst hwithin
  refine ⟨_, (select_yields hq hpar (steady_of_wellFormed hst ht) hwithin).eq_ok,
    chosen_sorted hq, fun id => ?_, fun σ _ => ⟨_, truth _, fun t h => h.unique (truth _)⟩⟩
  have henvs : (q.placements st Env.empty (q.activeIn .outer) .empty).map (·.bindings Env.empty) =
      q.envs st (q.activeIn .outer) Env.empty := map_bindings_placements _ _
  have hmem : ∀ σ, σ ∈ q.placements st Env.empty (q.activeIn .outer) .empty ↔
      q.Assigns st .outer σ := fun σ => (assigns_iff_mem_placements hq hpar ht hst).symm
  -- no assignment is listed twice, so counting what is listed counts the hits
  rw [← henvs, List.flatMap_map, count_flatMap_ite (· ∈ q.hits m st p id) ?_,
    encard_of_nodup ((nodup_placements hq (q.activeIn_ascending .outer)).filter _) ?_]
  · intro σ
    simp only [List.mem_filter, hmem, decide_eq_true_eq]
    exact ⟨fun h => h.2, fun h => ⟨h.1, h⟩⟩
  · intro σ hσ
    have hσ := (hmem σ).1 hσ
    obtain ⟨n, id', record, hc⟩ := exists_root_record hσ hq
    rw [chosen_of_root (Assignment.bindings_of_some hc)]
    by_cases hv : q.value m st p (σ.bindings Env.empty) = .yes <;> by_cases hid : id' = id <;>
      simp [mem_hits_iff hσ hc (truth _), hv, hid]

namespace Shop

open Query

/-- Orders with a left join to their items, and a sub-query for the same item. -/
def itemsQuery : Query :=
  (((recordsOf "Order").join 0 ⟨"items", .collection "Item"⟩ .left).openSubquery "Item").restrict 0
    (.equalExpr (.element 1) (.element 2))

/-- Orders with an item of quantity two that is stored. -/
def itemOfTwo : Predicate :=
  .and [.equal (.column 1 "qty") (.int 2), .hasRow 0]

theorem itemsQuery_lists_assignments :
    ∃ ids, Store.select model store itemsQuery itemOfTwo = .ok ids ∧ ids.Pairwise (· ≤ ·) ∧
      (∀ id, (ids.count id : ℕ∞) = (itemsQuery.hits model store itemOfTwo id).encard) ∧
      ∀ σ, itemsQuery.Assigns store .outer σ →
        ∃! t, itemsQuery.HasTruth model store (σ.bindings Env.empty) itemOfTwo t := by
  have sources : ∀ {s src}, itemsQuery.source? s = some src → src.active ∧
      ∀ parent relation kind, src.kind = .join parent relation kind →
        parent = 0 ∧ relation = ⟨"items", .collection "Item"⟩ := by
    intro s src h
    have hmem : src ∈ [⟨.root "Order", .outer, true, true⟩,
        ⟨.join 0 ⟨"items", .collection "Item"⟩ .left, .outer, true, false⟩,
        ⟨.root "Item", .subquery 0, true, true⟩] := List.mem_of_getElem? h
    simp only [List.mem_cons, List.not_mem_nil, or_false] at hmem
    rcases hmem with rfl | rfl | rfl <;> simp
  have inner : ∀ s, (itemsQuery.restriction s).subqueries = [] := by
    rintro (_ | s) <;> rfl
  refine Store.select_lists_assignments ?_ ?_ ?_ ?_ store_wellFormed ?_
  · exact .restrict _ (.openSubquery _ (.join _ _ (.recordsOf _) (by decide))) (by decide)
  · exact fun _ _ _ _ _ _ _ hps => (sources hps).1
  · intro s src parent relation kind hsrc _ hk
    obtain ⟨rfl, rfl⟩ := (sources hsrc).2 parent relation kind hk
    exact ⟨_, "Order", rfl, rfl, by decide, rfl⟩
  · rintro s (h | ⟨_, h⟩) <;> simp [Refers, inner] at h
  · have outer : itemsQuery.activeIn .outer = [0, 1] := by decide
    have sub : itemsQuery.activeIn (.subquery 0) = [2] := by decide
    intro bound' p' h
    rcases h with _ | ⟨ht, h⟩
    · decide
    · obtain rfl : _ = 0 := List.mem_singleton.1 ht
      rcases h with _ | ⟨ht, h⟩
      · decide
      · simp [inner] at ht

end Shop

end EntityFilter
