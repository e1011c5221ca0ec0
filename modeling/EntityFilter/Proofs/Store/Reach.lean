import EntityFilter.Proofs.Query.Growth
import EntityFilter.Proofs.Store.Shape

/-!
# What paths reach

Left joins restrict nothing: whatever some sources are bound to, the others can be bound as well.
So what a path of joins reaches does not depend on the other joins of a query, and tests of paths
that part at the root do not depend on each other.

* `Query.mem_envs`: the ways to bind sources, source by source.
* `Query.Fits.extend`: a way to bind some sources can be carried on to all.
* `Ends`, `Query.IsRoot.reach_iff`: what can stand at the end of a path.
* `Query.Upward.exists_merge`: two ways to bind a selection can be merged where they agree on the
  root.
* `Query.exists_env_all`: what can hold for each of some predicates can hold for all of them, if
  they read nothing in common but the root.
-/

namespace EntityFilter

/-- **What stands at the end of a path of left joins.** -/
inductive Ends (st : Store) : Binding → List Attribute → Binding → Prop
  | nil {b : Binding} : Ends st b [] b
  | cons {b c last : Binding} {relation : Attribute} {rest : List Attribute}
      (hc : c ∈ JoinKind.left.complete (b.reached st relation)) (h : Ends st c rest last) :
      Ends st b (relation :: rest) last

theorem JoinKind.complete_left_ne_nil (bs : List Binding) : JoinKind.left.complete bs ≠ [] := by
  cases bs <;> simp [JoinKind.complete]

namespace Query

variable {m : Model} {st : Store} {q : Query} {env env' : Env} {scope : Scope}
  {s t parent start last : SourceId} {src : Source} {joins : List Attribute} {l : List SourceId}

/-- Bindings that are among the choices of their sources, for some of the sources. -/
def Fits (st : Store) (q : Query) (S : SourceId → Prop) (env : Env) : Prop :=
  ∀ s, S s → ∃ b, env s = some b ∧ b ∈ q.choices st env s

/-- **The ways to bind some sources** are those in which each one is bound to one of its choices. -/
theorem mem_envs (hq : q.Arena) (hl : l.Pairwise (· < ·)) :
    env' ∈ q.envs st l env ↔ (∀ s, s ∉ l → env' s = env s) ∧ q.Fits st (· ∈ l) env' := by
  induction l generalizing env with
  | nil => simp [envs, Fits, funext_iff]
  | cons s l ih =>
    have hnot : s ∉ l := fun h => Nat.lt_irrefl s ((List.pairwise_cons.1 hl).1 s h)
    -- the parent of the first source is not bound later, so its choices are the same at the end
    have first : (∀ t, t ∉ s :: l → env' t = env t) →
        q.choices st env s = q.choices st env' s := fun h =>
      choices_congr fun src parent hsrc hp => (h parent (parent_not_mem hq hl hsrc hp)).symm
    simp only [envs, List.mem_flatMap, ih (List.pairwise_cons.1 hl).2]
    constructor
    · rintro ⟨b, hb, hout, hin⟩
      have hout' : ∀ t, t ∉ s :: l → env' t = env t := fun t ht => by
        rw [hout t fun h => ht (List.mem_cons_of_mem _ h), Env.set_of_ne fun h => ht (by simp [h])]
      refine ⟨hout', fun t ht => ?_⟩
      rcases List.mem_cons.1 ht with rfl | ht
      · exact ⟨b, by rw [hout t hnot, Env.set_self], first hout' ▸ hb⟩
      · exact hin t ht
    · rintro ⟨hout, hin⟩
      obtain ⟨b, hb, hmem⟩ := hin s List.mem_cons_self
      refine ⟨b, first hout ▸ hmem, fun t ht => ?_, fun t ht => hin t (List.mem_cons_of_mem _ ht)⟩
      by_cases he : t = s
      · rw [he, hb, Env.set_self]
      · rw [Env.set_of_ne he, hout t (by simp [he, ht])]

/-- **A way to bind some sources can be carried on.** The sources that are bound already are closed
under parents, and the others are left joins. -/
theorem Fits.extend (hq : q.Arena) (hl : l.Pairwise (· < ·)) {S : SourceId → Prop} {e : Env}
    (hS : ∀ {s src parent}, S s → q.source? s = some src → src.parent? = some parent → S parent)
    (hleft : ∀ s ∈ l, S s ∨ ∃ src parent relation, q.source? s = some src ∧
      src.kind = .join parent relation .left)
    (he : q.Fits st S e) (henv : ∀ t, S t → t ∉ l → env t = e t) :
    ∃ env' ∈ q.envs st l env, ∀ t, S t → env' t = e t := by
  classical
  induction l generalizing env with
  | nil => exact ⟨env, by simp [envs], fun t ht => henv t ht List.not_mem_nil⟩
  | cons s l ih =>
    -- a source that is bound already takes its binding, another one takes any choice
    obtain ⟨b, hb, hse⟩ : ∃ b ∈ q.choices st env s, S s → e s = some b := by
      by_cases hs : S s
      · obtain ⟨b, hb, hmem⟩ := he s hs
        refine ⟨b, ?_, fun _ => hb⟩
        rwa [choices_congr fun src parent hsrc hp =>
          henv parent (hS hs hsrc hp) (parent_not_mem hq hl hsrc hp)]
      · obtain ⟨src, parent, relation, hsrc, hk⟩ := (hleft s List.mem_cons_self).resolve_left hs
        obtain ⟨b, hb⟩ := List.exists_mem_of_ne_nil _ (JoinKind.complete_left_ne_nil
          (((env parent).getD .missing).reached st relation))
        exact ⟨b, by simpa [choices, hsrc, hk] using hb, fun h => absurd h hs⟩
    have henv' : ∀ t, S t → t ∉ l → env.set s b t = e t := by
      intro t ht hnot
      by_cases heq : t = s
      · subst heq
        rw [Env.set_self, hse ht]
      · rw [Env.set_of_ne heq, henv t ht (by simp [heq, hnot])]
    obtain ⟨env', hmem, hagree⟩ := ih (List.pairwise_cons.1 hl).2
      (fun t ht => hleft t (List.mem_cons_of_mem _ ht)) henv'
    exact ⟨env', List.mem_flatMap.2 ⟨b, hb, hmem⟩, hagree⟩

/-! ## Roots and paths -/

/-- **The root of a selection**, which ranges over the records of an entity. -/
structure IsRoot (q : Query) (scope : Scope) (start : SourceId) (entity : String) : Prop where
  source : ∃ src, q.source? start = some src ∧ src.kind = .root entity
  active : start ∈ q.activeIn scope
  /-- All other sources of the selection are joins. -/
  unique : ∀ {s src}, s ∈ q.activeIn scope → q.source? s = some src → src.parent? = none → s = start

theorem isRoot_outer (hq : q.Arena) : q.IsRoot .outer root q.entity := by
  obtain ⟨r, hr⟩ := hq.root
  refine ⟨⟨_, hr, rfl⟩, mem_activeIn.2 ⟨_, hr, rfl, rfl⟩, fun {s src} hs hsrc hp => ?_⟩
  exact hq.outerRoot hsrc ((mem_activeIn_iff hsrc).1 hs).1 hp

theorem isRoot_inner (hq : q.Arena) {sub : SubqueryId} {entity : String}
    (hsrc : q.source? start = some src) (hk : src.kind = .root entity)
    (hsc : src.scope = .subquery sub) : q.IsRoot (.subquery sub) start entity := by
  have hnone : src.parent? = none := Source.parent?_of_root hk
  refine ⟨⟨src, hsrc, hk⟩, mem_activeIn.2 ⟨src, hsrc, hsc, (hq.inner hsrc hsc).2⟩,
    fun {s src₁} hs hsrc₁ hp => ?_⟩
  obtain ⟨hsc₁, -⟩ := (mem_activeIn_iff hsrc₁).1 hs
  have h := (hq.innerRoot hsrc₁ hsc₁ hp).symm.trans (hq.innerRoot hsrc hsc hnone)
  exact Option.some.inj h

namespace IsRoot

variable {entity : String}

theorem lineage (h : q.IsRoot scope start entity) : q.lineage start = [start] := by
  obtain ⟨src, hsrc, hk⟩ := h.source
  rw [Query.lineage, hsrc, Option.bind_some, Source.parent?, hk]

theorem choices (h : q.IsRoot scope start entity) : q.choices st env start = st.rows entity := by
  obtain ⟨src, hsrc, hk⟩ := h.source
  simp [Query.choices, hsrc, hk]

/-- In a sound query the other sources of a selection are left joins. -/
theorem left (h : q.IsRoot scope start entity) (hq : q.Sound) (hs : s ∈ q.activeIn scope) :
    s = start ∨ ∃ src parent relation, q.source? s = some src ∧
      src.kind = .join parent relation .left := by
  obtain ⟨src, hsrc, -⟩ := mem_activeIn.1 hs
  cases hk : src.kind with
  | root e => exact Or.inl (h.unique hs hsrc (Source.parent?_of_root hk))
  | join parent relation kind =>
    obtain rfl := hq.left hsrc hk
    exact Or.inr ⟨src, parent, relation, hsrc, hk⟩

end IsRoot

/-- The end of a path is bound to something that stands there. -/
theorem Path.ends {b : Binding} (hq : q.Sound) (hp : q.Path start joins last)
    (hlast : last ∈ q.activeIn scope) (he : q.Fits st (· ∈ q.activeIn scope) env)
    (hb : env start = some b) : ∃ c, env last = some c ∧ Ends st b joins c := by
  induction hp generalizing b with
  | nil => exact ⟨b, hb, .nil⟩
  | @cons start s last relation rest src hs hk hrest ih =>
    have hmem : s ∈ q.activeIn scope := by
      have := hrest.lineage hq.toArena (self_mem_lineage q s)
      exact hq.lineage_active hlast s this
    obtain ⟨c, hc, hchoice⟩ := he s hmem
    obtain ⟨d, hd, hends⟩ := ih hlast hc
    refine ⟨d, hd, .cons ?_ hends⟩
    simpa [Query.choices, hs, hk, hb] using hchoice

/-- What stands at the end of a path may be bound there. -/
theorem Path.exists_fits {b c : Binding} (hq : q.Arena) (hp : q.Path start joins last)
    (hends : Ends st b joins c) (hb : env start = some b) :
    ∃ e, e last = some c ∧ (∀ t, t ≤ start → e t = env t) ∧
      ∀ t ∈ q.lineage last, t ∈ q.lineage start ∨ ∃ d, e t = some d ∧ d ∈ q.choices st e t := by
  induction hp generalizing b env with
  | nil =>
    cases hends
    exact ⟨env, hb, fun _ _ => rfl, fun t ht => Or.inl ht⟩
  | @cons start s last relation rest src hs hk hrest ih =>
    cases hends with
    | @cons _ d _ _ _ hd hends =>
      have hpar : src.parent? = some start := Source.parent?_of_join hk
      have hlt := (hq.parent hs hpar).1
      -- the rest of the path binds later sources only, so the start keeps its binding
      obtain ⟨e, hlast, hagree, hfits⟩ := ih hends (env.set_self s d)
      have hstart : e start = some b := by
        rw [hagree start (Nat.le_of_lt hlt), Env.set_of_ne (Nat.ne_of_lt hlt), hb]
      refine ⟨e, hlast, fun t ht => ?_, fun t ht => ?_⟩
      · have htlt := Nat.lt_of_le_of_lt ht hlt
        rw [hagree t (Nat.le_of_lt htlt), Env.set_of_ne (Nat.ne_of_lt htlt)]
      · rcases hfits t ht with hin | hin
        · rcases (mem_lineage_iff hq hs hpar).1 hin with rfl | hin
          · refine Or.inr ⟨d, by rw [hagree t (Nat.le_refl t), Env.set_self], ?_⟩
            simpa [Query.choices, hs, hk, hstart] using hd
          · exact Or.inl hin
        · exact Or.inr hin

/-- **What the end of a path is bound to**, over all ways to bind a selection. -/
theorem IsRoot.reach_iff {entity : String} (h : q.IsRoot scope start entity) (hq : q.Sound)
    (hp : q.Path start joins last) (hlast : last ∈ q.activeIn scope) {b c : Binding} :
    (∃ env' ∈ q.envs st (q.activeIn scope) env, env' start = some b ∧ env' last = some c) ↔
      b ∈ st.rows entity ∧ Ends st b joins c := by
  have hasc := q.activeIn_ascending scope
  constructor
  · rintro ⟨env', hmem, hb, hc⟩
    have hfits := ((mem_envs hq.toArena hasc).1 hmem).2
    obtain ⟨b', hb', hchoice⟩ := hfits start h.active
    obtain rfl : b' = b := Option.some.inj (hb'.symm.trans hb)
    obtain ⟨c', hc', hends⟩ := hp.ends hq hlast hfits hb
    obtain rfl : c' = c := Option.some.inj (hc'.symm.trans hc)
    exact ⟨h.choices ▸ hchoice, hends⟩
  · rintro ⟨hb, hends⟩
    obtain ⟨e, hc, hagree, hfits⟩ := hp.exists_fits hq.toArena hends (env.set_self start b)
    have hstart : e start = some b := by rw [hagree start (Nat.le_refl _), Env.set_self]
    have hmem : start ∈ q.lineage last := hp.lineage hq.toArena (self_mem_lineage q start)
    have hfits : q.Fits st (· ∈ q.lineage last) e := by
      intro t ht
      rcases hfits t ht with hin | hin
      · rw [h.lineage, List.mem_singleton] at hin
        subst hin
        exact ⟨b, hstart, h.choices.symm ▸ hb⟩
      · exact hin
    obtain ⟨env', hmem', hagree'⟩ := hfits.extend hq.toArena hasc
      (fun ht hsrc hpar => mem_lineage_parent hq.toArena ht hsrc hpar)
      (fun t ht => (h.left hq ht).imp (fun heq => heq ▸ hmem) id)
      (fun t ht hnot => absurd (hq.lineage_active hlast t ht) hnot)
    exact ⟨env', hmem', (hagree' start hmem).trans hstart,
      (hagree' last (self_mem_lineage q last)).trans hc⟩

/-- There is a way to bind the joins of every record of the root. -/
theorem exists_env (hq : q.Sound) {b : Binding} (hb : b ∈ st.rows q.entity) :
    ∃ env ∈ q.envs st (q.activeIn .outer) Env.empty, env root = some b := by
  have hroot := isRoot_outer hq.toArena
  obtain ⟨env, hmem, h, -⟩ := (hroot.reach_iff hq .nil hroot.active).2 ⟨hb, .nil⟩
  exact ⟨env, hmem, h⟩

/-! ## Predicates that part at the root -/

/-- Whether a sub-query has a row depends on the root alone. -/
theorem rowExists_congr (hq : q.Sound) (hroot : env root = env' root) (depth : Nat)
    (sub : SubqueryId) : q.rowExists m st depth sub env = q.rowExists m st depth sub env' := by
  have imp : ∀ {env env' : Env}, env root = env' root → q.rowExists m st depth sub env = true →
      q.rowExists m st depth sub env' = true := by
    classical
    intro env env' hroot h
    cases depth with
    | zero => cases h
    | succ depth =>
      have hasc := q.activeIn_ascending (.subquery sub)
      obtain ⟨e, hmem, hv⟩ := List.any_eq_true.1 h
      obtain ⟨hout, hin⟩ := (mem_envs hq.toArena hasc).1 hmem
      -- the same bindings of the sub-query, over the other ones around it
      let e' : Env := fun s => if s ∈ q.activeIn (.subquery sub) then e s else env' s
      have hsame : ∀ s ∈ q.activeIn (.subquery sub), e' s = e s := fun s hs => if_pos hs
      have hrootEq : e' root = e root := by
        by_cases hs : root ∈ q.activeIn (.subquery sub)
        · exact hsame root hs
        · rw [hout root hs, hroot]
          exact if_neg hs
      refine List.any_eq_true.2 ⟨e', (mem_envs hq.toArena hasc).2 ⟨fun s hs => if_neg hs, ?_⟩, ?_⟩
      · intro s hs
        obtain ⟨b, hb, hchoice⟩ := hin s hs
        refine ⟨b, (hsame s hs).trans hb, ?_⟩
        rwa [choices_congr fun src parent hsrc hp =>
          hsame parent (parent_mem_activeIn hq.toArena hq.parentActive hs hsrc hp).2]
      · have hreads : ∀ s ∈ (q.restriction sub).reads, e' s = e s := by
          intro s hs
          rcases hq.inside sub s hs with rfl | hs
          · exact hrootEq
          · exact hsame s hs
        rw [← hv, Predicate.value_congr (q.restriction sub) hreads (by simp [hq.flat sub])]
  exact Bool.eq_iff_iff.2 ⟨imp hroot, imp hroot.symm⟩

/-- The value of a predicate depends on the root and on what the predicate reads itself. -/
theorem value_congr (hq : q.Sound) {p : Predicate} (hreads : ∀ s ∈ p.reads, env s = env' s)
    (hroot : env root = env' root) : q.value m st p env = q.value m st p env' :=
  Predicate.value_congr p hreads fun sub _ => rowExists_congr hq hroot _ sub

/-- A source that a predicate reads, or one above it. -/
def Below (q : Query) (p : Predicate) (t : SourceId) : Prop :=
  ∃ s ∈ p.reads, t ∈ q.lineage s

/-- Sources of the outer selection, among them the root, each with all that is above it. -/
structure Upward (q : Query) (S : SourceId → Prop) : Prop where
  top : S root
  active : ∀ {t}, S t → t ∈ q.activeIn .outer
  parent : ∀ {t src parent}, S t → q.source? t = some src → src.parent? = some parent → S parent

/-- What is bound as in a way to bind the selection fits. -/
theorem Upward.fits {S : SourceId → Prop} {e : Env} (hS : q.Upward S)
    (hfits : q.Fits st (· ∈ q.activeIn .outer) env) (h : ∀ t, S t → e t = env t) :
    q.Fits st S e := by
  intro t ht
  obtain ⟨c, hc, hchoice⟩ := hfits t (hS.active ht)
  refine ⟨c, (h t ht).trans hc, ?_⟩
  rwa [choices_congr fun src parent hsrc hp => h parent (hS.parent ht hsrc hp)]

/-- **Two ways to bind a selection can be merged**: one for some sources and one for others that
have only the root in common with them. -/
theorem Upward.exists_merge {S₁ S₂ : SourceId → Prop} {env₁ env₂ : Env} (hq : q.Sound)
    (hS₁ : q.Upward S₁) (hS₂ : q.Upward S₂) (hpart : ∀ t, S₁ t → S₂ t → t = root)
    (hmem₁ : env₁ ∈ q.envs st (q.activeIn .outer) Env.empty)
    (hmem₂ : env₂ ∈ q.envs st (q.activeIn .outer) Env.empty) (hroot : env₁ root = env₂ root) :
    ∃ e ∈ q.envs st (q.activeIn .outer) Env.empty,
      (∀ t, S₁ t → e t = env₁ t) ∧ ∀ t, S₂ t → e t = env₂ t := by
  classical
  have hasc := q.activeIn_ascending .outer
  have hfits₁ := ((mem_envs hq.toArena hasc).1 hmem₁).2
  have hfits₂ := ((mem_envs hq.toArena hasc).1 hmem₂).2
  let e : Env := fun t => if S₁ t then env₁ t else env₂ t
  have he₁ : ∀ t, S₁ t → e t = env₁ t := fun t ht => if_pos ht
  have he₂ : ∀ t, S₂ t → e t = env₂ t := by
    intro t ht
    by_cases ht₁ : S₁ t
    · rw [hpart t ht₁ ht, he₁ root hS₁.top, hroot]
    · exact if_neg ht₁
  have hfits : q.Fits st (fun t => S₁ t ∨ S₂ t) e := by
    rintro t (ht | ht)
    · exact hS₁.fits hfits₁ he₁ t ht
    · exact hS₂.fits hfits₂ he₂ t ht
  -- all other sources are left joins, so the merged bindings can be carried on to them
  obtain ⟨env, hmem, hagree⟩ := hfits.extend hq.toArena hasc
    (fun ht hsrc hp => ht.imp (hS₁.parent · hsrc hp) (hS₂.parent · hsrc hp))
    (fun t ht => ((isRoot_outer hq.toArena).left hq ht).imp (fun h => Or.inl (h ▸ hS₁.top)) id)
    (fun t ht hnot => absurd (ht.elim hS₁.active hS₂.active) hnot)
  refine ⟨env, hmem, fun t ht => ?_, fun t ht => ?_⟩
  · exact (hagree t (Or.inl ht)).trans (he₁ t ht)
  · exact (hagree t (Or.inr ht)).trans (he₂ t ht)

/-- The root, and what some predicates read or have above what they read. -/
def Upper (q : Query) (ps : List Predicate) (t : SourceId) : Prop :=
  t = root ∨ ∃ p ∈ ps, q.Below p t

theorem upward_upper (hq : q.Sound) {ps : List Predicate}
    (hact : ∀ p ∈ ps, ∀ s ∈ p.reads, s ∈ q.activeIn .outer) : q.Upward (q.Upper ps) where
  top := Or.inl rfl
  active := by
    rintro t (rfl | ⟨p, hp, s, hs, ht⟩)
    · exact (isRoot_outer hq.toArena).active
    · exact hq.lineage_active (hact p hp s hs) t ht
  parent := by
    rintro t src parent (rfl | ⟨p, hp, s, hs, ht⟩) hsrc hpar
    · exact absurd (hq.parent hsrc hpar).1 (Nat.not_lt_zero _)
    · exact Or.inr ⟨p, hp, s, hs, mem_lineage_parent hq.toArena ht hsrc hpar⟩

/-- The value of a predicate depends on the root and on what the predicate reads. -/
theorem value_of_upper (hq : q.Sound) {ps : List Predicate} (h : ∀ t, q.Upper ps t → env t = env' t)
    {p : Predicate} (hp : p ∈ ps) : q.value m st p env = q.value m st p env' :=
  value_congr hq (fun s hs => h s (Or.inr ⟨p, hp, s, hs, self_mem_lineage q s⟩))
    (h root (Or.inl rfl))

/-- **What can hold for each of some predicates can hold for all of them**, for a record of the
root, if no two of them read anything in common but the root. -/
theorem exists_env_all (hq : q.Sound) {b : Binding} (hb : b ∈ st.rows q.entity)
    {ps : List Predicate} (hact : ∀ p ∈ ps, ∀ s ∈ p.reads, s ∈ q.activeIn .outer)
    (hpart : ps.Pairwise fun p p' => ∀ t, q.Below p t → q.Below p' t → t = root)
    (h : ∀ p ∈ ps, ∃ env ∈ q.envs st (q.activeIn .outer) Env.empty,
      env root = some b ∧ q.value m st p env = .yes) :
    ∃ env ∈ q.envs st (q.activeIn .outer) Env.empty,
      env root = some b ∧ ∀ p ∈ ps, q.value m st p env = .yes := by
  induction ps with
  | nil =>
    obtain ⟨env, hmem, h⟩ := exists_env hq hb
    exact ⟨env, hmem, h, by simp⟩
  | cons p ps ih =>
    obtain ⟨hact, hacts⟩ := List.forall_mem_cons.1 hact
    obtain ⟨hpart, hparts⟩ := List.pairwise_cons.1 hpart
    obtain ⟨⟨env₁, hmem₁, hroot₁, hyes₁⟩, hs⟩ := List.forall_mem_cons.1 h
    obtain ⟨env₂, hmem₂, hroot₂, hyes₂⟩ := ih hacts hparts hs
    have hfirst : q.Upward (q.Upper [p]) := upward_upper hq (List.forall_mem_singleton.2 hact)
    have hapart : ∀ t, q.Upper [p] t → q.Upper ps t → t = root := by
      rintro t (h | ⟨p₁, hp₁, ht₁⟩) (h' | ⟨p₂, hp₂, ht₂⟩)
      · exact h
      · exact h
      · exact h'
      · exact hpart p₂ hp₂ t (List.mem_singleton.1 hp₁ ▸ ht₁) ht₂
    -- the first predicate and the others have only the root in common
    obtain ⟨env, hmem, he₁, he₂⟩ := hfirst.exists_merge hq (upward_upper hq hacts) hapart
      hmem₁ hmem₂ (hroot₁.trans hroot₂.symm)
    refine ⟨env, hmem, (he₁ root hfirst.top).trans hroot₁, List.forall_mem_cons.2 ⟨?_, ?_⟩⟩
    · exact (value_of_upper hq he₁ (List.mem_singleton_self p)).trans hyes₁
    · intro p' hp'
      exact (value_of_upper hq he₂ hp').trans (hyes₂ p' hp')

end Query

end EntityFilter
