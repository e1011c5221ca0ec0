import EntityFilter.Proofs.Store.Reach
import EntityFilter.Proofs.Store.Selection
import Mathlib.Data.Multiset.Bind

/-!
# Ways to bind sources

A selection goes through the ways to bind its sources in the order in which the sources were made.
How many ways there are does not depend on that order, as long as every source comes after the one
that it hangs below.

* `Query.ways`: the ways to bind some sources, each as often as there is one.
* `Query.Hangs`: sources that can be bound in their order when some others are bound.
* `Query.ways_perm`: the order of such sources makes no difference.
* `Query.Chain`, `Query.Chain.map_ways`: the sources of a path, and what the last one is bound to.
* `Query.Chain.completes`: what the end of a path hangs below, where some sources are bound already.
* `Store.select_times`: a selection lists every record of the root as often as there are ways to
  make the predicate true.
-/

namespace EntityFilter

theorem Env.set_comm {env : Env} {s t : SourceId} (h : s ≠ t) (b c : Binding) :
    (env.set s b).set t c = (env.set t c).set s b := by
  funext u
  unfold Env.set
  split_ifs <;> simp_all

/-- The sources that are bound. -/
def Env.Binds (env : Env) (D : Set SourceId) : Prop :=
  ∀ t, (env t).isSome ↔ t ∈ D

theorem Env.binds_root (b : Binding) : (Env.empty.set Query.root b).Binds {Query.root} := by
  intro t
  by_cases ht : t = Query.root
  · simp [ht]
  · simp [Env.set_of_ne ht, Env.empty, ht]

namespace Query

variable {m : Model} {st : Store} {q q' : Query} {env env' : Env} {s t start last : SourceId}
  {l l' : List SourceId} {D : Set SourceId} {joins : List Attribute} {b : Binding}

/-- **The ways to bind some sources**, each as often as there is one. -/
def ways (st : Store) (q : Query) (l : List SourceId) (env : Env) : Multiset Env :=
  q.envs st l env

@[simp] theorem ways_nil : q.ways st [] env = {env} := rfl

theorem ways_cons : q.ways st (s :: l) env =
    (q.choices st env s : Multiset Binding).bind fun b => q.ways st l (env.set s b) :=
  (Multiset.coe_bind _ _).symm

theorem ways_append : q.ways st (l ++ l') env = (q.ways st l env).bind (q.ways st l') := by
  induction l generalizing env with
  | nil => simp
  | cons s l ih => simp only [List.cons_append, ways_cons, ih, Multiset.bind_assoc]

theorem eq_of_mem_ways (h : env' ∈ q.ways st l env) (hs : s ∉ l) : env' s = env s :=
  eq_of_mem_envs h hs

/-- After some more sources are bound, those are bound that were before or are among them. -/
theorem isSome_of_mem_ways (h : env' ∈ q.ways st l env) :
    (env' t).isSome ↔ (env t).isSome ∨ t ∈ l := by
  induction l generalizing env with
  | nil =>
    rw [ways_nil, Multiset.mem_singleton] at h
    simp [h]
  | cons s l ih =>
    rw [ways_cons] at h
    obtain ⟨b, -, h⟩ := Multiset.mem_bind.1 h
    rw [ih h, List.mem_cons]
    by_cases he : t = s
    · simp [he]
    · rw [Env.set_of_ne he]
      simp [he]

theorem binds_of_mem_ways (henv : env.Binds D) (h : env' ∈ q.ways st l env) :
    env'.Binds (D ∪ {t | t ∈ l}) := by
  intro t
  rw [isSome_of_mem_ways h, henv t]
  rfl

/-! ## The order of sources -/

/-- **Sources that can be bound in their order** when some others are bound: each one is new and
hangs below one that is bound before. -/
inductive Hangs (q : Query) : Set SourceId → List SourceId → Prop
  | nil {D : Set SourceId} : Hangs q D []
  | cons {D : Set SourceId} {s : SourceId} {l : List SourceId} (hnew : s ∉ D)
      (hpar : ∀ src parent, q.source? s = some src → src.parent? = some parent → parent ∈ D)
      (h : Hangs q (insert s D) l) : Hangs q D (s :: l)

theorem Hangs.not_mem (h : q.Hangs D l) : ∀ t ∈ l, t ∉ D := by
  induction h with
  | nil => simp
  | cons hnew _ _ ih =>
    refine List.forall_mem_cons.2 ⟨hnew, fun t ht hD => ih t ht (Set.mem_insert_of_mem _ hD)⟩

theorem Hangs.nodup (h : q.Hangs D l) : l.Nodup := by
  induction h with
  | nil => exact List.nodup_nil
  | cons _ _ h ih =>
    exact List.nodup_cons.2 ⟨fun hs => h.not_mem _ hs (Set.mem_insert _ _), ih⟩

theorem Hangs.append (h : q.Hangs D l) (h' : q.Hangs (D ∪ {t | t ∈ l}) l') :
    q.Hangs D (l ++ l') := by
  induction h with
  | nil => simpa using h'
  | @cons D s l hnew hpar _ ih =>
    have hset : insert s D ∪ {t | t ∈ l} = D ∪ {t | t ∈ s :: l} := by
      ext t
      simp only [Set.mem_union, Set.mem_insert_iff, Set.mem_ofPred_eq, List.mem_cons]
      tauto
    exact .cons hnew hpar (ih (hset ▸ h'))

/-- Sources in ascending order can be bound if all that they hang below is bound or among them. -/
theorem hangs_of_ascending (hq : q.Arena) (hl : l.Pairwise (· < ·)) (hnew : ∀ s ∈ l, s ∉ D)
    (hpar : ∀ s ∈ l, ∀ src parent, q.source? s = some src → src.parent? = some parent →
      parent ∈ D ∨ parent ∈ l) : q.Hangs D l := by
  induction l generalizing D with
  | nil => exact .nil
  | cons s l ih =>
    obtain ⟨hlt, hl⟩ := List.pairwise_cons.1 hl
    refine .cons (hnew s List.mem_cons_self) (fun src parent hsrc hp => ?_) (ih hl ?_ ?_)
    · rcases hpar s List.mem_cons_self src parent hsrc hp with h | h
      · exact h
      · exact absurd h (parent_not_mem hq (List.pairwise_cons.2 ⟨hlt, hl⟩) hsrc hp)
    · intro t ht hD
      rcases Set.mem_insert_iff.1 hD with rfl | hD
      · exact Nat.lt_irrefl _ (hlt _ ht)
      · exact hnew t (List.mem_cons_of_mem _ ht) hD
    · intro t ht src parent hsrc hp
      rcases hpar t (List.mem_cons_of_mem _ ht) src parent hsrc hp with h | h
      · exact Or.inl (Set.mem_insert_of_mem _ h)
      · rcases List.mem_cons.1 h with rfl | h
        · exact Or.inl (Set.mem_insert _ _)
        · exact Or.inr h

/-- What a source can be bound to does not depend on sources that it does not hang below. -/
theorem choices_set (h : ∀ src parent, q.source? t = some src → src.parent? = some parent →
    parent ≠ s) : q.choices st (env.set s b) t = q.choices st env t :=
  choices_congr fun src parent hsrc hp => Env.set_of_ne (h src parent hsrc hp)

/-- Two sources of which none hangs below the other can be bound in any order. -/
theorem ways_swap (hne : s ≠ t)
    (hs : ∀ src parent, q.source? s = some src → src.parent? = some parent → parent ≠ t)
    (ht : ∀ src parent, q.source? t = some src → src.parent? = some parent → parent ≠ s) :
    q.ways st (s :: t :: l) env = q.ways st (t :: s :: l) env := by
  simp only [ways_cons, choices_set hs, choices_set ht]
  rw [Multiset.bind_bind]
  simp only [Env.set_comm hne]

/-- A source that hangs below what is bound can be bound first. -/
theorem Hangs.move {a c : List SourceId} (h : q.Hangs D (a ++ s :: c)) (hnew : s ∉ D)
    (hpar : ∀ src parent, q.source? s = some src → src.parent? = some parent → parent ∈ D) :
    q.Hangs D (s :: (a ++ c)) ∧
      ∀ env, q.ways st (a ++ s :: c) env = q.ways st (s :: (a ++ c)) env := by
  induction a generalizing D with
  | nil => exact ⟨h, fun _ => rfl⟩
  | cons u a ih =>
    cases h with
    | cons hu hupar hrest =>
      have hsu : s ≠ u := by
        rintro rfl
        exact hrest.not_mem s (by simp) (Set.mem_insert s D)
      have hnew' : s ∉ insert u D := by simp [hsu, hnew]
      obtain ⟨hmoved, hways⟩ := ih hrest hnew' fun src parent hsrc hp =>
        Set.mem_insert_of_mem u (hpar src parent hsrc hp)
      have hcommon : q.Hangs (insert u (insert s D)) (a ++ c) := by
        cases hmoved with
        | cons _ _ h => rwa [Set.insert_comm] at h
      refine ⟨.cons hnew hpar (.cons (by simp [hsu.symm, hu]) (fun src parent hsrc hp =>
        Set.mem_insert_of_mem s (hupar src parent hsrc hp)) hcommon), fun env => ?_⟩
      calc q.ways st (u :: (a ++ s :: c)) env
          = q.ways st (u :: s :: (a ++ c)) env := by rw [ways_cons, ways_cons]; simp only [hways]
        _ = q.ways st (s :: u :: (a ++ c)) env := by
          refine ways_swap hsu.symm (fun src parent hsrc hp he => ?_)
            fun src parent hsrc hp he => ?_
          · exact hnew (he ▸ hupar src parent hsrc hp)
          · exact hu (he ▸ hpar src parent hsrc hp)

/-- **The order of sources makes no difference**, as long as each one can be bound in its turn. -/
theorem ways_perm (h : q.Hangs D l) (h' : q.Hangs D l') (hperm : l.Perm l') :
    q.ways st l env = q.ways st l' env := by
  induction l' generalizing l D env with
  | nil => rw [hperm.eq_nil]
  | cons s l' ih =>
    cases h' with
    | cons hnew hpar h' =>
      obtain ⟨a, c, rfl⟩ := List.append_of_mem (hperm.mem_iff.2 List.mem_cons_self)
      obtain ⟨hmoved, hways⟩ : q.Hangs D (s :: (a ++ c)) ∧
          ∀ env, q.ways st (a ++ s :: c) env = q.ways st (s :: (a ++ c)) env := h.move hnew hpar
      have hrest : (a ++ c).Perm l' := (List.perm_middle.symm.trans hperm).cons_inv
      cases hmoved with
      | cons _ _ hmoved =>
        rw [hways env, ways_cons, ways_cons]
        simp only [ih hmoved h' hrest]

/-- How many ways there are depends on what the sources hang below. -/
theorem card_ways_congr (h : q.Hangs D l) (henv : ∀ t ∈ D, env t = env' t) :
    (q.ways st l env).card = (q.ways st l env').card := by
  induction h generalizing env env' with
  | nil => simp
  | @cons D s l _ hpar _ ih =>
    have hchoices : q.choices st env s = q.choices st env' s :=
      choices_congr fun src parent hsrc hp => henv parent (hpar src parent hsrc hp)
    have hcard : ∀ b, (q.ways st l (env.set s b)).card = (q.ways st l (env'.set s b)).card := by
      refine fun b => ih fun t ht => ?_
      by_cases hts : t = s
      · rw [hts, Env.set_self, Env.set_self]
      · rw [Env.set_of_ne hts, Env.set_of_ne hts]
        exact henv t ((Set.mem_insert_iff.1 ht).resolve_left hts)
    simp only [ways_cons, Multiset.card_bind, Function.comp_def, hchoices, hcard]

/-- Left joins can always be bound. -/
theorem ways_ne_zero (hl : ∀ s ∈ l, ∃ src parent relation, q.source? s = some src ∧
    src.kind = .join parent relation .left) : q.ways st l env ≠ 0 := by
  induction l generalizing env with
  | nil => exact Multiset.singleton_ne_zero _
  | cons s l ih =>
    obtain ⟨⟨src, parent, relation, hsrc, hk⟩, hl⟩ := List.forall_mem_cons.1 hl
    obtain ⟨b, hb⟩ : ∃ b, b ∈ q.choices st env s := by
      simp only [choices, hsrc, Option.map_some, hk]
      exact List.exists_mem_of_ne_nil _ (JoinKind.complete_left_ne_nil _)
    have hrest : q.ways st l (env.set s b) ≠ 0 := ih hl
    obtain ⟨e, he⟩ := Multiset.exists_mem_of_ne_zero hrest
    have hmem : e ∈ q.ways st (s :: l) env := by
      rw [ways_cons]
      exact Multiset.mem_bind.2 ⟨b, Multiset.mem_coe.2 hb, he⟩
    intro hzero
    exact Multiset.notMem_zero e (hzero ▸ hmem)

/-- Sources can be bound to the same on a query that has grown. -/
theorem Grows.ways (h : q.Grows q') (hl : ∀ s ∈ l, s < q.nextSource) :
    q'.ways st l env = q.ways st l env := by
  induction l generalizing env with
  | nil => rfl
  | cons s l ih =>
    obtain ⟨hs, hl⟩ := List.forall_mem_cons.1 hl
    obtain ⟨src, hsrc⟩ := exists_source hs
    obtain ⟨src', hsrc', hk, -⟩ := h.kept hsrc
    have hchoices : q'.choices st env s = q.choices st env s := by
      simp only [choices, hsrc, hsrc', Option.map_some, hk]
    simp only [ways_cons, hchoices, ih hl]

/-! ## The sources of a path -/

end Query

/-- What a left join of a bound source is bound to. -/
def Binding.joined (st : Store) (b : Binding) (relation : Attribute) : Multiset Binding :=
  JoinKind.left.complete (b.reached st relation)

/-- What stands at the end of a path of left joins, each as often as the path leads there. -/
def Binding.along (st : Store) (b : Binding) : List Attribute → Multiset Binding
  | [] => {b}
  | relation :: rest => (b.joined st relation).bind fun c => c.along st rest

namespace Query

variable {m : Model} {st : Store} {q q' : Query} {env env' : Env} {s t start last : SourceId}
  {l l' : List SourceId} {D : Set SourceId} {joins : List Attribute} {b : Binding}

/-- **The sources of a path of left joins**, the first one first. -/
inductive Chain (q : Query) : SourceId → List Attribute → List SourceId → SourceId → Prop
  | nil {s : SourceId} : Chain q s [] [] s
  | cons {start s last : SourceId} {relation : Attribute} {rest : List Attribute}
      {l : List SourceId} {src : Source} (hs : q.source? s = some src)
      (hk : src.kind = .join start relation .left) (h : Chain q s rest l last) :
      Chain q start (relation :: rest) (s :: l) last

/-- The sources of a path stay. -/
theorem Chain.of_grows (h : q.Chain start joins l last) (hg : q.Grows q') :
    q'.Chain start joins l last := by
  induction h with
  | nil => exact .nil
  | cons hs hk _ ih =>
    obtain ⟨src', hs', hk', -⟩ := hg.kept hs
    exact .cons hs' (hk'.trans hk) ih

/-- The sources of a path come after the one where it starts. -/
theorem Chain.lt (h : q.Chain start joins l last) (hq : q.Arena) : ∀ t ∈ l, start < t := by
  induction h with
  | nil => simp
  | cons hs hk _ ih =>
    have hlt := (hq.parent hs (Source.parent?_of_join hk)).1
    exact List.forall_mem_cons.2 ⟨hlt, fun t ht => Nat.lt_trans hlt (ih t ht)⟩

/-- The end of a path hangs below its sources and what the start hangs below. -/
theorem Chain.mem_lineage (h : q.Chain start joins l last) (hq : q.Arena) :
    t ∈ q.lineage last ↔ t ∈ l ∨ t ∈ q.lineage start := by
  induction h with
  | nil => simp
  | cons hs hk _ ih =>
    rw [ih, mem_lineage_iff hq hs (Source.parent?_of_join hk), List.mem_cons]
    tauto

/-- The sources of a path can be bound if its start is. -/
theorem Chain.hangs (h : q.Chain start joins l last) (hq : q.Arena) (hstart : start ∈ D)
    (hnew : ∀ t ∈ l, t ∉ D) : q.Hangs D l := by
  induction h generalizing D with
  | nil => exact .nil
  | @cons start s last relation rest l src hs hk hrest ih =>
    refine .cons (hnew s List.mem_cons_self) (fun src' parent hsrc hp => ?_) (ih ?_ ?_)
    · obtain rfl : src = src' := Option.some.inj (hs.symm.trans hsrc)
      rw [Source.parent?_of_join hk] at hp
      exact Option.some.inj hp ▸ hstart
    · exact Set.mem_insert s D
    · intro t ht hD
      rcases Set.mem_insert_iff.1 hD with rfl | hD
      · exact Nat.lt_irrefl _ (hrest.lt hq _ ht)
      · exact hnew t (List.mem_cons_of_mem _ ht) hD

/-- **Sources that complete others to all that the end of a path hangs below.** -/
structure Completes (q : Query) (D : Set SourceId) (l : List SourceId) (last : SourceId) :
    Prop where
  hangs : q.Hangs D l
  inside : ∀ t ∈ l, t ∈ q.lineage last
  covers : ∀ t ∈ q.lineage last, t ∈ D ∨ t ∈ l

/-- The sources of a path complete what its start hangs below. -/
theorem Chain.completes (h : q.Chain start joins l last) (hq : q.Arena)
    (hstart : ∀ t ∈ q.lineage start, t ∈ D) (hnew : ∀ t ∈ l, t ∉ D) : q.Completes D l last where
  hangs := h.hangs hq (hstart start (self_mem_lineage q start)) hnew
  inside := fun _ ht => (h.mem_lineage hq).2 (Or.inl ht)
  covers := fun t ht => ((h.mem_lineage hq).1 ht).symm.imp (hstart t) id

theorem choices_join {src : Source} {relation : Attribute} (hs : q.source? s = some src)
    (hk : src.kind = .join start relation .left) (hb : env start = some b) :
    (q.choices st env s : Multiset Binding) = b.joined st relation := by
  simp [choices, hs, hk, hb, Binding.joined]

/-- **The last source of a path is bound to what stands at the end of the path.** -/
theorem Chain.map_ways (h : q.Chain start joins l last) (hb : env start = some b) :
    (q.ways st l env).map (fun env' => env' last) = (b.along st joins).map some := by
  induction h generalizing env b with
  | nil => simp [Binding.along, hb]
  | cons hs hk _ ih =>
    rw [ways_cons, choices_join hs hk hb, Binding.along, Multiset.map_bind, Multiset.map_bind]
    exact Multiset.bind_congr fun c _ => ih (Env.set_self _ _ _)

end Query

/-! ## What is selected -/

section Selections

open Query

variable {m : Model} {st : Store} {q : Query} {p : Predicate}

open Classical in
/-- **How many ways there are to make a predicate true** for a record of the root. -/
noncomputable def Query.times (m : Model) (st : Store) (q : Query) (p : Predicate) (b : Binding) :
    Nat :=
  ((q.ways st (q.activeIn .outer).tail (Env.empty.set root b)).map fun env =>
    q.value m st p env = .yes).count True

/-- The bindings of a record of the root list it as often as they make the predicate true. -/
theorem Query.flatMap_chosen {envs : List Env} {id : Int} {entity : String} {record : Record}
    [DecidableEq Prop] (h : ∀ env ∈ envs, env root = some (.row entity id record)) :
    envs.flatMap (q.chosen m st p) =
      List.replicate (((envs : Multiset Env).map fun env => q.value m st p env = .yes).count True)
        id := by
  induction envs with
  | nil => rfl
  | cons env envs ih =>
    obtain ⟨hroot, h⟩ := List.forall_mem_cons.1 h
    rw [List.flatMap_cons, ih h, chosen_of_root hroot, ← Multiset.cons_coe, Multiset.map_cons,
      Multiset.count_cons]
    by_cases hyes : q.value m st p env = .yes
    · simp [hyes, List.replicate_succ]
    · simp [hyes]

/-- **A selection lists every record as often as there are ways to make the predicate true.** -/
theorem Store.select_times (hst : st.WellFormed m) (hq : q.Arena) (hpar : q.ParentsActive)
    (ht : q.Typed m) (hp : q.ReadsWithin q.subqueries.length (· ∈ q.activeIn .outer) p) :
    select m st q p = .ok ((st.table q.entity).entries.flatMap fun e =>
      List.replicate (q.times m st p (.row q.entity e.1 e.2)) e.1) := by
  classical
  rw [(select_yields hq hpar (steady_of_wellFormed hst ht) hp).eq_ok]
  obtain ⟨rest, hrest, hnot⟩ := activeIn_outer hq
  obtain ⟨r, hr⟩ := hq.root
  have hchoices : q.choices st Env.empty root = st.rows q.entity := by
    simp [choices, hr]
  rw [hrest, envs, List.flatMap_assoc, hchoices, Store.rows, List.flatMap_map]
  refine congrArg Except.ok (List.flatMap_congr fun e _ => ?_)
  have hroot : ∀ env ∈ q.envs st rest (Env.empty.set root (.row q.entity e.1 e.2)),
      env root = some (.row q.entity e.1 e.2) := by
    intro env henv
    rw [eq_of_mem_envs henv hnot, Env.set_self]
  rw [Query.times, hrest, List.tail_cons]
  exact flatMap_chosen hroot

end Selections

end EntityFilter
