import EntityFilter.Proofs.Compile.Building
import EntityFilter.Proofs.Compile.Checks
import EntityFilter.Proofs.Compile.Successive
import EntityFilter.Proofs.Query.Forest
import EntityFilter.Proofs.Store.Selection

/-!
# Selections without the joins that nothing reads

A selection binds the sources of a query one after the other. When the outer joins are dropped that
no predicate reads, it binds fewer of them, and visits a binding of the others once where it visited
it once for each way to bind what is dropped. A left join can be bound in one way at least, so no
visit is lost.

* `Predicate.truth_congr`: the truth of a predicate, and its failure, depend only on what it reads.
* `Thins`: a listing that leaves out repetitions only.
* `Query.Spares`: bindings that differ at most in what is dropped.
* `Query.ReadsOnly`: a predicate reads only what is bound where it stands, and so do the restrictions
  of its sub-queries.
* `Query.hasRow_discardUnused`: a sub-query has a row as before.
* `Query.allBindings_discardUnused`: the visits that are left.
* `Store.select_discardUnused`: a selection lists the same records, each at least once and at most
  as often as before.
-/

namespace EntityFilter

namespace Predicate

variable {m : Model} {st : Store} {env env' : Env}
  {hasRow hasRow' : SubqueryId → Env → Except StoreError Bool}

theorem truthOfAll_congr {ps : List Predicate}
    (h : ∀ p ∈ ps, p.truth m st hasRow' env' = p.truth m st hasRow env) :
    truthOfAll m st hasRow' env' ps = truthOfAll m st hasRow env ps := by
  induction ps with
  | nil => rfl
  | cons p ps ih =>
    rw [truthOfAll, truthOfAll, h p List.mem_cons_self,
      ih fun p' hp' => h p' (List.mem_cons_of_mem _ hp')]

theorem truthOfAny_congr {ps : List Predicate}
    (h : ∀ p ∈ ps, p.truth m st hasRow' env' = p.truth m st hasRow env) :
    truthOfAny m st hasRow' env' ps = truthOfAny m st hasRow env ps := by
  induction ps with
  | nil => rfl
  | cons p ps ih =>
    rw [truthOfAny, truthOfAny, h p List.mem_cons_self,
      ih fun p' hp' => h p' (List.mem_cons_of_mem _ hp')]

/-- **The truth of a predicate depends only on what is read**, and so does its failure. -/
theorem truth_congr (p : Predicate) (hs : ∀ s ∈ p.reads, env' s = env s)
    (hr : ∀ t ∈ p.subqueries, hasRow' t env' = hasRow t env) :
    p.truth m st hasRow' env' = p.truth m st hasRow env := by
  have read : ∀ e : Expr, env' e.source = env e.source → e.read m env' = e.read m env := by
    intro e h
    rw [Expr.read, Expr.read, h]
  induction p using Predicate.induction st.dialect with
  | always => rfl
  | and ps ih =>
    refine truthOfAll_congr fun p hp => ih p hp (fun s h => ?_) fun t h => ?_
    · exact hs s (mem_readsAll.2 ⟨p, hp, h⟩)
    · exact hr t (mem_subqueriesOfAll.2 ⟨p, hp, h⟩)
  | or ps ih =>
    refine truthOfAny_congr fun p hp => ih p hp (fun s h => ?_) fun t h => ?_
    · exact hs s (mem_readsAll.2 ⟨p, hp, h⟩)
    · exact hr t (mem_subqueriesOfAll.2 ⟨p, hp, h⟩)
  | not p ih => rw [truth, truth, ih hs hr]
  | test p e f h =>
    rw [truth_of_test? h, truth_of_test? h, read e (hs _ (by simp [reads_of_test? h]))]
  | equalExpr l r =>
    rw [truth, truth, read l (hs _ (by simp [reads])), read r (hs _ (by simp [reads]))]
  | hasRow t => rw [truth, truth, hr t (by simp [subqueries])]

end Predicate

/-! ## Repetitions -/

section Thins

variable {α β ε : Type} {few few' many many' : List α}

/-- **A listing that leaves out repetitions only.** -/
structure Thins (few many : List α) : Prop where
  sublist : few.Sublist many
  mem : ∀ a ∈ many, a ∈ few

theorem Thins.refl (l : List α) : Thins l l :=
  ⟨List.Sublist.refl l, fun _ ha => ha⟩

theorem Thins.append (h : Thins few many) (h' : Thins few' many') :
    Thins (few ++ few') (many ++ many') where
  sublist := h.sublist.append h'.sublist
  mem := by
    intro a ha
    rcases List.mem_append.1 ha with ha | ha
    · exact List.mem_append_left _ (h.mem a ha)
    · exact List.mem_append_right _ (h'.mem a ha)

/-- What thins one listing and leaves out nothing of others thins all of them together. -/
theorem Thins.of_flatten {part : List α} {parts : List (List α)} (h : Thins few part)
    (hrest : ∀ part ∈ parts, Thins few part) : Thins few (part :: parts).flatten where
  sublist := h.sublist.trans (List.sublist_append_left part _)
  mem := by
    intro a ha
    obtain ⟨part', hpart, hmem⟩ := List.mem_flatten.1 ha
    rcases List.mem_cons.1 hpart with rfl | hpart
    · exact h.mem a hmem
    · exact (hrest part' hpart).mem a hmem

/-- Listings that thin others one by one thin them together. -/
theorem exists_thins_mapM {f f' : β → Except ε (List α)} {bs : List β} {parts : List (List α)}
    (hf : ∀ b {part}, f b = .ok part → ∃ part', f' b = .ok part' ∧ Thins part' part)
    (h : bs.mapM f = .ok parts) :
    ∃ parts', bs.mapM f' = .ok parts' ∧ Thins parts'.flatten parts.flatten := by
  induction bs generalizing parts with
  | nil =>
    obtain rfl : [] = parts := Except.ok.inj h
    exact ⟨[], rfl, .refl _⟩
  | cons b bs ih =>
    rw [List.mapM_cons, bind_eq_ok] at h
    obtain ⟨part, hpart, h⟩ := h
    obtain ⟨rest, hrest, h⟩ := bind_eq_ok.1 h
    obtain rfl : part :: rest = parts := Except.ok.inj h
    obtain ⟨part', hpart', hthin⟩ := hf b hpart
    obtain ⟨rest', hrest', hthins⟩ := ih hrest
    refine ⟨part' :: rest', ?_, hthin.append hthins⟩
    rw [List.mapM_cons, hpart', hrest']
    rfl

end Thins

namespace Query

variable {m : Model} {st : Store} {q : Query} {env env' : Env} {s t parent : SourceId}
  {src : Source} {scope : Scope} {p : Predicate} {l : List SourceId}

/-! ## What is dropped -/

theorem not_unused_of_inner {sub : SubqueryId} (hs : s ∈ q.activeIn (.subquery sub)) :
    s ∉ q.unusedJoins := by
  obtain ⟨src, hsrc, hscope, -⟩ := mem_activeIn.1 hs
  rw [mem_unusedJoins_iff hsrc]
  simp [Source.isUnused, hscope]

/-- **What is not dropped hangs below what is not dropped.** -/
theorem parent_not_unused (hq : q.Arena) (hread : q.ClosedUp Source.referenced)
    (hs : s ∉ q.unusedJoins) (hsrc : q.source? s = some src) (hp : src.parent? = some parent) :
    parent ∉ q.unusedJoins := by
  obtain ⟨-, psrc, hps, -⟩ := hq.parent hsrc hp
  rw [mem_unusedJoins_iff hsrc] at hs
  rw [mem_unusedJoins_iff hps]
  exact fun hunused => hs (hread.isUnused_of_parent hq hsrc hp hps hunused)

theorem kind_discardUnused (q : Query) (s : SourceId) :
    (q.discardUnused.source? s).map Source.kind = (q.source? s).map Source.kind := by
  rw [source?_discardUnused, Option.map_map]
  congr 1
  funext src
  simp only [Function.comp_apply]
  split <;> rfl

/-- Dropping leaves the other sources of a selection. -/
theorem activeIn_discardUnused (q : Query) (scope : Scope) :
    q.discardUnused.activeIn scope = (q.activeIn scope).filter (· ∉ q.unusedJoins) := by
  have hlength : q.discardUnused.sources.length = q.sources.length := by simp [discardUnused]
  unfold activeIn sourcesWhere
  rw [hlength, List.filter_filter]
  refine List.filter_congr fun s _ => ?_
  rw [source?_discardUnused]
  cases hsrc : q.source? s with
  | none => simp
  | some src =>
    cases hunused : src.isUnused <;> simp [mem_unusedJoins_iff hsrc, hunused]

/-- Nothing of a sub-query is dropped. -/
theorem activeIn_inner_discardUnused (q : Query) (sub : SubqueryId) :
    q.discardUnused.activeIn (.subquery sub) = q.activeIn (.subquery sub) := by
  rw [activeIn_discardUnused]
  exact List.filter_eq_self.2 fun s hs => by simpa using not_unused_of_inner hs

/-! ## Bindings of what is left -/

/-- **Bindings that differ at most in what is dropped.** -/
def Spares (q : Query) (env env' : Env) : Prop :=
  ∀ s, s ∉ q.unusedJoins → env' s = env s

theorem Spares.set (h : q.Spares env env') (s : SourceId) (b : Binding) :
    q.Spares (env.set s b) (env'.set s b) := by
  intro t ht
  by_cases he : t = s
  · rw [he, Env.set_self, Env.set_self]
  · rw [Env.set_of_ne he, Env.set_of_ne he, h t ht]

/-- What is dropped may be bound to anything. -/
theorem Spares.skip (h : q.Spares env env') (hs : s ∈ q.unusedJoins) (b : Binding) :
    q.Spares (env.set s b) env' := by
  intro t ht
  have hne : t ≠ s := fun he => ht (he ▸ hs)
  rw [Env.set_of_ne hne, h t ht]

/-- **A source that is not dropped can be bound to what it could be bound to before.** -/
theorem candidates_discardUnused (hq : q.Arena) (hread : q.ClosedUp Source.referenced)
    (hs : s ∉ q.unusedJoins) (h : q.Spares env env') :
    q.discardUnused.candidates st env' s = q.candidates st env s := by
  unfold candidates
  rw [kind_discardUnused]
  cases hsrc : q.source? s with
  | none => rfl
  | some src =>
    cases hk : src.kind with
    | root entity => simp only [Option.map_some, hk]
    | join parent relation kind =>
      -- what is above it is not dropped either, and bound as before
      have hparent := parent_not_unused hq hread hs hsrc (Source.parent?_of_join hk)
      simp only [Option.map_some, hk, h parent hparent]

/-- A left join can be bound in one way at least. -/
theorem candidates_ne_nil {relation : Attribute} {bs : List Binding}
    (hsrc : q.source? s = some src) (hk : src.kind = .join parent relation .left)
    (h : q.candidates st env s = .ok bs) : bs ≠ [] := by
  simp only [candidates, hsrc, Option.map_some, hk] at h
  cases hb : env parent with
  | none => simp [hb] at h
  | some b =>
    rw [hb] at h
    cases hc : b.children st relation with
    | error e => simp [hc, Except.map] at h
    | ok children =>
      obtain rfl : JoinKind.left.complete children = bs := by simpa [hc, Except.map] using h
      exact JoinKind.complete_left_ne_nil children

/-! ## What is read -/

/-- **A predicate and the restrictions that it reaches read only what is bound where they stand**,
whether the sub-queries that they ask for are there or not. -/
def ReadsOnly (q : Query) (bound : SourceId → Prop) (p : Predicate) : Prop :=
  ∀ ⦃bound' p'⦄, q.Reaches bound p bound' p' → ∀ s ∈ p'.reads, bound' s

theorem ReadsOnly.inside {bound : SourceId → Prop} (h : q.ReadsOnly bound p)
    (ht : t ∈ p.subqueries) :
    q.ReadsOnly (fun s => bound s ∨ s ∈ q.activeIn (.subquery t)) (q.restriction t) :=
  fun _ _ hreach => h (.inside ht hreach)

/-- Whether some way to bind sources passes a test does not depend on what is dropped, if neither
the sources nor the test do. -/
theorem someBinding_discardUnused (hq : q.Arena) (hread : q.ClosedUp Source.referenced)
    {test test' : Env → Except StoreError Bool}
    (htest : ∀ {env env'}, q.Spares env env' → test' env' = test env)
    (hl : ∀ s ∈ l, s ∉ q.unusedJoins) (h : q.Spares env env') :
    q.discardUnused.someBinding st test' l env' = q.someBinding st test l env := by
  induction l generalizing env env' with
  | nil => exact htest h
  | cons s l ih =>
    have hrest : ∀ t ∈ l, t ∉ q.unusedJoins := fun t ht => hl t (List.mem_cons_of_mem _ ht)
    have hnext : (fun b => q.discardUnused.someBinding st test' l (env'.set s b)) =
        fun b => q.someBinding st test l (env.set s b) :=
      funext fun b => ih hrest (h.set s b)
    rw [someBinding, someBinding, hnext,
      candidates_discardUnused hq hread (hl s List.mem_cons_self) h]

/-- **A sub-query has a row as before**, where its restriction reads nothing that is dropped. -/
theorem hasRow_discardUnused (hq : q.Arena) (hread : q.ClosedUp Source.referenced) {depth : Nat}
    {bound : SourceId → Prop} (hbound : ∀ s, bound s → s ∉ q.unusedJoins)
    (hp : q.ReadsOnly bound p) (ht : t ∈ p.subqueries) (h : q.Spares env env') :
    q.discardUnused.hasRow m st depth t env' = q.hasRow m st depth t env := by
  -- a restriction inside reads what is bound here, and what its sub-query binds
  induction depth generalizing bound p t env env' with
  | zero => rfl
  | succ depth ih =>
    have hinside := hp.inside ht
    have hbound' : ∀ s, (bound s ∨ s ∈ q.activeIn (.subquery t)) → s ∉ q.unusedJoins := by
      rintro s (hs | hs)
      · exact hbound s hs
      · exact not_unused_of_inner hs
    rw [hasRow, hasRow, activeIn_inner_discardUnused]
    refine someBinding_discardUnused hq hread (fun {env env'} henv => ?_)
      (fun s hs => not_unused_of_inner hs) h
    have htruth : (q.discardUnused.restriction t).truth m st (q.discardUnused.hasRow m st depth)
        env' = (q.restriction t).truth m st (q.hasRow m st depth) env := by
      refine Predicate.truth_congr _ (fun s hs => ?_) fun u hu => ih hbound' hinside hu henv
      exact henv s (hbound' s (hinside .self s hs))
    simp only [htruth]

/-- A way to bind the sources is visited with the same outcome, whatever what is dropped is bound
to. -/
theorem selected_discardUnused (hq : q.Arena) (hread : q.ClosedUp Source.referenced)
    (hp : q.ReadsOnly q.Marked p) (h : q.Spares env env') :
    q.discardUnused.selected m st p env' = q.selected m st p env := by
  have htruth : q.discardUnused.truth m st p env' = q.truth m st p env := by
    refine Predicate.truth_congr p (fun s hs => h s (hp .self s hs).not_unused) fun t ht => ?_
    exact hasRow_discardUnused hq hread (fun _ hs => hs.not_unused) hp ht h
  unfold selected
  rw [htruth, h root (root_not_unused hq)]

/-! ## What is listed -/

/-- **The visits that are left** give what all visits gave, up to repetitions. -/
theorem allBindings_discardUnused {α : Type} (hq : q.Arena)
    (hread : q.ClosedUp Source.referenced) {visit visit' : Env → Except StoreError (List α)}
    (hvisit : ∀ {env env'}, q.Spares env env' → visit' env' = visit env)
    (hleft : ∀ s ∈ l, s ∈ q.unusedJoins → ∃ src parent relation, q.source? s = some src ∧
      src.kind = .join parent relation .left) (h : q.Spares env env') {as : List α}
    (hall : q.allBindings st visit l env = .ok as) :
    ∃ as', q.discardUnused.allBindings st visit' (l.filter (· ∉ q.unusedJoins)) env' = .ok as' ∧
      Thins as' as := by
  induction l generalizing env env' as with
  | nil => exact ⟨as, (hvisit h).trans hall, .refl as⟩
  | cons s l ih =>
    have hrest : ∀ t ∈ l, t ∈ q.unusedJoins → ∃ src parent relation, q.source? t = some src ∧
        src.kind = .join parent relation .left := fun t ht => hleft t (List.mem_cons_of_mem _ ht)
    rw [allBindings, bind_eq_ok] at hall
    obtain ⟨bs, hbs, hall⟩ := hall
    obtain ⟨parts, hparts, hall⟩ := bind_eq_ok.1 hall
    obtain rfl : parts.flatten = as := Except.ok.inj hall
    by_cases hs : s ∈ q.unusedJoins
    · -- the source is bound no longer, and whatever it was bound to, the same visits are left
      rw [List.filter_cons_of_neg (by simpa using hs)]
      obtain ⟨src, parent, relation, hsrc, hk⟩ := hleft s List.mem_cons_self hs
      obtain ⟨b, bs, rfl⟩ := List.exists_cons_of_ne_nil (candidates_ne_nil hsrc hk hbs)
      obtain ⟨part, parts, hpart, hlater, rfl⟩ :=
        List.forall₂_cons_left_iff.1 (mapM_eq_ok_iff.1 hparts)
      obtain ⟨as', has', hthins⟩ := ih hrest (h.skip hs b) hpart
      refine ⟨as', has', hthins.of_flatten fun part' hpart' => ?_⟩
      obtain ⟨b', -, hb'⟩ := exists_of_forall₂ hlater.flip hpart'
      obtain ⟨as'', has'', hthins'⟩ := ih hrest (h.skip hs b') hb'
      obtain rfl : as' = as'' := Except.ok.inj (has'.symm.trans has'')
      exact hthins'
    · rw [List.filter_cons_of_pos (by simpa using hs), allBindings,
        candidates_discardUnused hq hread hs h, hbs]
      obtain ⟨parts', hparts', hthins⟩ :=
        exists_thins_mapM (fun b {part} hpart => ih hrest (h.set s b) hpart) hparts
      refine ⟨parts'.flatten, ?_, hthins⟩
      exact bind_eq_ok.2 ⟨bs, rfl, bind_eq_ok.2 ⟨parts', hparts', rfl⟩⟩

end Query

open Query in
/-- **To drop the outer joins that no predicate reads does not change which records a selection
lists**, if it succeeds and these are left joins. The predicate reads outer sources that are marked
and sources of its own sub-queries, and so do the restrictions of these. Each record is listed in
the same order, at least once and at most as often as before. -/
theorem Store.select_discardUnused {m : Model} {st : Store} {q : Query} {p : Predicate}
    {ids : List Int} (hq : q.Reached)
    (hleft : ∀ {s src parent relation kind}, s ∈ q.activeIn .outer → q.source? s = some src →
      src.referenced = false → src.kind = .join parent relation kind → kind = .left)
    (hp : q.ReadsOnly q.Marked p) (h : select m st q p = .ok ids) :
    ∃ ids', select m st q.discardUnused p = .ok ids' ∧ ids'.Sublist ids ∧
      (∀ id ∈ ids, 0 < ids'.count id ∧ ids'.count id ≤ ids.count id) ∧
      selectDistinct m st q.discardUnused p = selectDistinct m st q p := by
  have harena : q.Arena := hq.built.arena
  have hread : q.ClosedUp Source.referenced := hq.built.closedUp
  have hdropped : ∀ s ∈ q.activeIn .outer, s ∈ q.unusedJoins → ∃ src parent relation,
      q.source? s = some src ∧ src.kind = .join parent relation .left := by
    intro s hs hunused
    obtain ⟨src, hsrc, -, -⟩ := mem_activeIn.1 hs
    have hsrc' := (mem_unusedJoins_iff hsrc).1 hunused
    simp only [Source.isUnused, Bool.and_eq_true, Option.isSome_iff_exists, Bool.not_eq_true']
      at hsrc'
    obtain ⟨⟨-, parent, hparent⟩, hnot⟩ := hsrc'
    obtain ⟨relation, kind, hk⟩ := Source.exists_join hparent
    obtain rfl := hleft hs hsrc hnot hk
    exact ⟨src, parent, relation, hsrc, hk⟩
  obtain ⟨ids', hids', hthins⟩ := allBindings_discardUnused harena hread
    (fun henv => selected_discardUnused harena hread hp henv) hdropped (fun _ _ => rfl) h
  rw [← activeIn_discardUnused] at hids'
  -- without repetitions the listings are the same
  have hsame : distinct ids' = distinct ids := by
    refine Ascending.eq_of_mem_iff (distinct_ascending ids') (distinct_ascending ids) fun id => ?_
    rw [mem_distinct, mem_distinct]
    exact ⟨fun hid => hthins.sublist.subset hid, hthins.mem id⟩
  refine ⟨ids', hids', hthins.sublist, fun id hid => ⟨?_, hthins.sublist.count_le id⟩, ?_⟩
  · exact List.count_pos_iff.2 (hthins.mem id hid)
  · have hselect : select m st q.discardUnused p = .ok ids' := hids'
    rw [selectDistinct, selectDistinct, hselect, h]
    exact congrArg Except.ok hsame

namespace Shop

open Query

/-- Orders joined to their items twice. The first join is read, also by the sub-query. -/
def twiceJoined : Query :=
  (itemsQuery.join 0 ⟨"items", .collection "Item"⟩ .left).markReferenced 1

/-- The first order is listed four times before the second join is dropped, for each pair of its
items. -/
theorem twiceJoined_thinned :
    twiceJoined.Reached ∧ twiceJoined.activeIn .outer = [0, 1, 3] ∧
      Store.select model store twiceJoined itemOfTwo = .ok [1, 1, 1, 1] ∧
      ∃ ids, Store.select model store twiceJoined.discardUnused itemOfTwo = .ok ids ∧
        ids.Sublist [1, 1, 1, 1] ∧
        (∀ id ∈ [1, 1, 1, 1], 0 < ids.count id ∧ ids.count id ≤ [1, 1, 1, 1].count id) ∧
        Store.selectDistinct model store twiceJoined.discardUnused itemOfTwo =
          Store.selectDistinct model store twiceJoined itemOfTwo := by
  have hbuilt : (itemsQuery.join 0 ⟨"items", .collection "Item"⟩ .left).Reached :=
    .join _ _ (.restrict _ (.openSubquery _ (.join _ _ (.start _) (by decide))) (by decide))
      (by decide)
  have hreached : twiceJoined.Reached := .markReferenced hbuilt (by decide)
  have hmarked : twiceJoined =
      ((itemsQuery.join 0 ⟨"items", .collection "Item"⟩ .left).note 1).note 0 := by
    rw [twiceJoined, markReferenced_of_join hbuilt.built.arena rfl rfl,
      markReferenced_of_root rfl rfl]
  have hselect : Store.select model store twiceJoined itemOfTwo = .ok [1, 1, 1, 1] := by
    rw [hmarked]
    rfl
  have houter : twiceJoined.activeIn .outer = [0, 1, 3] := by
    rw [hmarked]
    rfl
  have hread : twiceJoined.Marked 1 := by
    rw [hmarked]
    exact ⟨_, rfl, rfl, rfl⟩
  have hinner : twiceJoined.activeIn (.subquery 0) = [2] := by
    rw [hmarked]
    rfl
  refine ⟨hreached, houter, hselect, Store.select_discardUnused hreached ?_ ?_ hselect⟩
  · intro s src parent relation kind _ hsrc _ hk
    rw [hmarked] at hsrc
    have hmem : src ∈ [⟨.root "Order", .outer, true, true⟩,
        ⟨.join 0 ⟨"items", .collection "Item"⟩ .left, .outer, true, true⟩,
        ⟨.root "Item", .subquery 0, true, true⟩,
        ⟨.join 0 ⟨"items", .collection "Item"⟩ .left, .outer, true, false⟩] :=
      List.mem_of_getElem? hsrc
    simp only [List.mem_cons, List.not_mem_nil, or_false] at hmem
    rcases hmem with rfl | rfl | rfl | rfl <;> cases hk <;> rfl
  · intro bound' p' hreaches s hs
    cases hreaches with
    | self =>
      obtain rfl : s = 1 := List.mem_singleton.1 hs
      exact hread
    | inside ht hreaches =>
      obtain rfl : _ = 0 := List.mem_singleton.1 ht
      cases hreaches with
      | self =>
        have hs : s ∈ [1, 2] := hs
        rcases List.mem_pair.1 hs with rfl | rfl
        · exact Or.inl hread
        · exact Or.inr (hinner ▸ List.mem_singleton_self 2)
      | inside ht _ => cases ht

end Shop

end EntityFilter
