import EntityFilter.Proofs.Compile.Outcomes
import EntityFilter.Proofs.Compile.Successive

/-!
# What a failed compilation leaves

A compilation that fails has compiled the comparisons before the one that fails, and returns none of
their predicates. The joins that these would have read stay all the same. A filter that is compiled
afterwards lists every record once for each way to bind them.

* `Context.Begins.compiles`: what comes before a comparison is a run of its own.
* `Query.compile_error`: what a failed compilation leaves is what such a run has left.
* `Query.residue`: the joins that it has added to those that stay.
* `Query.copies_failed`, `Query.select_failed`: they multiply the rows of every later selection.
* `Query.Succession.select_after_failure`: a failed compilation makes no difference exactly if these
  joins can be bound in one way for every record that is listed.
* `Shop.numberOne_repeated`: a failed compilation that makes a difference.
-/

namespace EntityFilter

open Query

/-! ## Up to the comparison that fails -/

namespace Context

variable {ctx : Context} {fs : List Filter} {p p' : Progress} {aside aside' : List Shared}
  {c : Comparison}

/-- **The comparisons of a filter that are compiled before one fails.** -/
def completed (ctx : Context) (f : Filter) : List Comparison :=
  f.comparisons.takeWhile fun c => (ctx.schema.plan ctx.model c).2.isOk

/-- **What comes before a comparison is a run of its own**, cut off within the connectives that
the comparison stands in. -/
theorem Begins.compiles (h : ctx.Begins fs p aside c p' aside') :
    ∃ before ps done after, ctx.Compiles before p ps done ∧ done.query = p'.query ∧
      Filter.comparisonsOfAll fs = Filter.comparisonsOfAll before ++ c :: after := by
  -- a connective that the comparison stands in is closed early, which touches what is shared only
  induction h with
  | @here c rest p _ => exact ⟨[], [], p, Filter.comparisonsOfAll rest, .nil, rfl, rfl⟩
  | @and children rest p p' _ _ c _ ih =>
    obtain ⟨before, ps, done, after, hrun, hquery, hcomparisons⟩ := ih
    refine ⟨[.and before], [.all ps], { done with reuse := p.reuse },
      after ++ Filter.comparisonsOfAll rest, .and hrun .nil, hquery, ?_⟩
    simp [Filter.comparisonsOfAll, Filter.comparisons, hcomparisons]
  | @or children rest p p' _ _ c _ ih =>
    obtain ⟨before, ps, done, after, hrun, hquery, hcomparisons⟩ := ih
    refine ⟨[.or before], [.any ps], { done with reuse := p.reuse },
      after ++ Filter.comparisonsOfAll rest, .or hrun .nil, hquery, ?_⟩
    simp [Filter.comparisonsOfAll, Filter.comparisons, hcomparisons]
  | @later f rest p p' p'' ps _ _ c hf _ ih =>
    obtain ⟨before, qs, done, after, hrun, hquery, hcomparisons⟩ := ih
    refine ⟨f :: before, ps ++ qs, done, after, hf.append hrun, hquery, ?_⟩
    simp [Filter.comparisonsOfAll, hcomparisons]

/-- A comparison that fails ends what is completed. -/
theorem completed_eq {f : Filter} {before after : List Comparison} {e : FilterError}
    (h : f.comparisons = before ++ c :: after)
    (hbefore : ∀ c ∈ before, ∃ clause, (ctx.schema.plan ctx.model c).2 = .ok clause)
    (hc : (ctx.schema.plan ctx.model c).2 = .error e) : ctx.completed f = before := by
  have hok : ∀ c ∈ before, (ctx.schema.plan ctx.model c).2.isOk = true := by
    intro c hmem
    obtain ⟨clause, hclause⟩ := hbefore c hmem
    rw [hclause]
    rfl
  have hstop : (c :: after).takeWhile (fun c => (ctx.schema.plan ctx.model c).2.isOk) = [] :=
    List.takeWhile_cons_of_neg (by rw [hc]; exact Bool.false_ne_true)
  rw [completed, h, List.takeWhile_append_of_pos hok, hstop, List.append_nil]

end Context

namespace Query

variable {st : Store} {q failed : Query} {ctx : Context} {f : Filter} {e : FilterError}
  {s t : SourceId} {b : Binding}

/-- **A failed compilation leaves what the run of the comparisons before leaves**, and joins that
are not marked. A filter for another entity leaves nothing. -/
theorem compile_error (h : q.compile ctx f = (.error e, failed)) :
    failed = q ∨ q.entity = ctx.schema.entity ∧ ∃ before ps done,
      ctx.Compiles before ⟨q, none, false⟩ ps done ∧
      Filter.comparisonsOfAll before = ctx.completed f ∧ done.query.Grows failed ∧
      ∀ t, failed.Marked t → done.query.Marked t := by
  unfold compile at h
  split at h
  · exact Or.inl (Prod.mk.inj h).2.symm
  · rename_i he
    have he : q.entity = ctx.schema.entity := Classical.not_not.1 he
    split at h
    · cases h
    · rename_i e' p hrun
      obtain ⟨-, rfl⟩ := Prod.mk.inj h
      obtain ⟨c, p₁, aside, hbegins, hc, rfl⟩ := Context.begins_of_error f hrun [] []
      obtain ⟨before, ps, done, after, hbefore, hquery, hcomparisons⟩ := hbegins.compiles
      rw [Filter.comparisonsOfAll, Filter.comparisonsOfAll, List.append_nil] at hcomparisons
      have hcompleted := Context.completed_eq hcomparisons hbefore.planned hc
      -- the path of the comparison that fails is joined as well, and joining marks nothing
      refine Or.inr ⟨he, before, ps, done, hbefore, hcompleted.symm, ?_, fun t ht => ?_⟩
      · rw [hquery]
        exact Progress.grows_joinAll rfl
      · rw [hquery]
        exact Progress.marked_joinAll rfl ht

/-! ## What stays -/

/-- **The joins that a compilation has added** to those that stay. -/
def residue (q failed : Query) : List SourceId :=
  failed.lasting.filter (q.nextSource ≤ ·)

theorem mem_residue (hs : failed.Sound) :
    s ∈ q.residue failed ↔ s ≠ root ∧ failed.Marked s ∧ q.nextSource ≤ s := by
  rw [residue, List.mem_filter, mem_lasting hs, and_assoc, decide_eq_true_eq]

/-- **How often a record is listed for once**: how many ways there are to bind the joins that a
compilation has added. -/
def repeats (st : Store) (q failed : Query) (b : Binding) : Nat :=
  (failed.ways st (q.residue failed) (Env.empty.set root b)).card

theorem failed_sound (hq : q.Sound) (h : q.compile ctx f = (.error e, failed)) :
    failed.Sound ∧ q.Grows failed := by
  obtain ⟨hs, hg, -⟩ := compile_sound hq ctx f
  rw [h] at hs hg
  exact ⟨hs, hg⟩

/-- **What a failed compilation has marked** lies on paths of new sources from the root. -/
theorem failed_marks (hq : q.Sound) (h : q.compile ctx f = (.error e, failed))
    (ht : failed.Marked t) : q.Marked t ∨ ∃ s, t ∈ failed.lineage s ∧
      ∀ u ∈ failed.lineage s, u = root ∨ q.nextSource ≤ u := by
  rcases compile_error h with rfl | ⟨he, before, ps, done, hrun, -, hgrows, hmarked⟩
  · exact Or.inl ht
  · have hstart := ready_start ctx.model hq
    obtain ⟨hready, -, hsafe⟩ := hrun.run hstart he
    refine (hrun.accounted hstart he t (hmarked t ht)).imp id ?_
    rintro ⟨predicate, hmem, s, hs, hlin⟩
    obtain ⟨src, hsrc, -⟩ := (hsafe predicate hmem).reads s hs s (self_mem_lineage _ s)
    rw [← hgrows.lineage hready.sound.toArena (source?_lt hsrc)] at hlin
    refine ⟨s, hlin, fun u hu => ?_⟩
    rw [hgrows.lineage hready.sound.toArena (source?_lt hsrc)] at hu
    have hparted := (hrun.proceeds hstart he).parted
    exact hparted.within _ (Nat.le_refl _) (by simp [Progress.entries]) predicate hmem u ⟨s, hs, hu⟩

/-- The joins that a failed compilation has added hang below the root and each other. -/
theorem hangs_residue (hq : q.Sound) (h : q.compile ctx f = (.error e, failed)) {D : Set SourceId}
    (hroot : root ∈ D) (hD : ∀ t ∈ D, t < q.nextSource) :
    failed.Hangs D (q.residue failed) := by
  obtain ⟨hs, -⟩ := failed_sound hq h
  refine hangs_of_ascending hs.toArena (failed.lasting_ascending.filter _) (fun s hmem ht => ?_)
    fun s hmem src parent hsrc hp => ?_
  · exact Nat.lt_irrefl _ (Nat.lt_of_lt_of_le (hD s ht) ((mem_residue hs).1 hmem).2.2)
  · obtain ⟨-, hmarked, hle⟩ := (mem_residue hs).1 hmem
    by_cases hpr : parent = root
    · exact Or.inl (hpr ▸ hroot)
    · rcases failed_marks hq h hmarked with ⟨src', hold, -⟩ | ⟨t, hlin, hnew⟩
      · exact absurd (source?_lt hold) (Nat.not_lt.2 hle)
      · have hparent := mem_lineage_parent hs.toArena hlin hsrc hp
        exact Or.inr ((mem_residue hs).2 ⟨hpr, hmarked.parent hs hsrc hp,
          (hnew parent hparent).resolve_left hpr⟩)

/-- The joins that stay after a failed compilation are those of before and those that it has
added. -/
theorem lasting_failed (hq : q.Sound) (h : q.compile ctx f = (.error e, failed)) :
    failed.Hangs {root} (q.lasting ++ q.residue failed) ∧
      failed.lasting.Perm (q.lasting ++ q.residue failed) := by
  obtain ⟨hs, hg⟩ := failed_sound hq h
  have hold : ∀ t ∈ ({root} ∪ {t | t ∈ q.lasting} : Set SourceId), t < q.nextSource := by
    rintro t (rfl | ht)
    · obtain ⟨r, hr⟩ := hq.root
      exact source?_lt hr
    · exact lt_of_mem_lasting hq ht
  have hhangs : failed.Hangs {root} (q.lasting ++ q.residue failed) :=
    (hangs_lasting hq hs hg).append (hangs_residue hq h (Or.inl rfl) hold)
  refine ⟨hhangs, (List.perm_ext_iff_of_nodup (failed.lasting_ascending.imp Nat.ne_of_lt)
    hhangs.nodup).2 fun t => ?_⟩
  rw [List.mem_append, mem_residue hs, mem_lasting hs, mem_lasting hq]
  constructor
  · rintro ⟨hne, ht⟩
    rcases failed_marks hq h ht with hmarked | ⟨s, hlin, hnew⟩
    · exact Or.inl ⟨hne, hmarked⟩
    · exact Or.inr ⟨hne, ht, (hnew t hlin).resolve_left hne⟩
  · rintro (⟨hne, ht⟩ | ⟨hne, ht, -⟩)
    · exact ⟨hne, hg.marked ht⟩
    · exact ⟨hne, ht⟩

/-- **A failed compilation multiplies the ways to bind what stays** by the ways to bind the joins
that it has added. -/
theorem copies_failed (hq : q.Sound) (h : q.compile ctx f = (.error e, failed)) :
    failed.copies st b = q.repeats st failed b * q.copies st b := by
  obtain ⟨hs, hg⟩ := failed_sound hq h
  obtain ⟨hhangs, hperm⟩ := lasting_failed hq h
  obtain ⟨r, hr⟩ := hq.root
  have hresidue : failed.Hangs {root} (q.residue failed) :=
    hangs_residue hq h rfl fun t ht => ht ▸ source?_lt hr
  have hold := hangs_lasting hq hs hg
  -- the new joins hang below the root, so it does not matter what the old ones are bound to
  have hcard : ∀ env ∈ failed.ways st q.lasting (Env.empty.set root b),
      (failed.ways st (q.residue failed) env).card = q.repeats st failed b := by
    intro env henv
    refine card_ways_congr hresidue fun t ht => ?_
    rw [Set.mem_singleton_iff.1 ht]
    exact eq_of_mem_ways henv fun hmem => hold.not_mem _ hmem rfl
  rw [copies, ways_perm (hangs_lasting hs hs (.refl failed)) hhangs hperm, ways_append,
    Multiset.card_bind, Function.comp_def, Multiset.map_congr rfl hcard, Multiset.map_const',
    Multiset.sum_replicate, hg.ways fun s => lt_of_mem_lasting hq]
  exact Nat.mul_comm _ _

/-- What a failed compilation has added can be bound. -/
theorem repeats_ne_zero (hq : q.Sound) (h : q.compile ctx f = (.error e, failed)) :
    q.repeats st failed b ≠ 0 := by
  obtain ⟨hs, -⟩ := failed_sound hq h
  unfold repeats
  rw [ne_eq, Multiset.card_eq_zero]
  refine ways_ne_zero fun s hmem => ?_
  obtain ⟨hne, ⟨src, hsrc, hsc, -⟩, -⟩ := (mem_residue hs).1 hmem
  cases hp : src.parent? with
  | none => exact absurd (hs.outerRoot hsrc hsc hp) hne
  | some parent =>
    obtain ⟨relation, kind, hk⟩ := Source.exists_join hp
    obtain rfl := hs.left hsrc hk
    exact ⟨src, parent, relation, hsrc, hk⟩

/-- **Comparisons that need no join add none.** -/
theorem repeats_of_joinFree (hq : q.Sound) (h : q.compile ctx f = (.error e, failed))
    (hfree : ∀ c ∈ ctx.completed f, ctx.JoinFree c) : q.repeats st failed b = 1 := by
  obtain ⟨hs, -⟩ := failed_sound hq h
  have hnone : q.residue failed = [] := by
    refine List.eq_nil_iff_forall_not_mem.2 fun t ht => ?_
    obtain ⟨hne, hmarked, hle⟩ := (mem_residue hs).1 ht
    have hnew : ¬ q.Marked t := by
      rintro ⟨src, hsrc, -⟩
      exact Nat.not_lt.2 hle (source?_lt hsrc)
    rcases compile_error h with rfl | ⟨he, before, ps, done, hrun, hbefore, -, hback⟩
    · exact hnew hmarked
    · have hstart := ready_start ctx.model hq
      obtain ⟨predicate, hmem, s, hread, hlin⟩ :=
        (hrun.accounted hstart he t (hback t hmarked)).resolve_left hnew
      have hroot := hrun.readsRoot hstart he (hbefore ▸ hfree) predicate hmem s hread
      rw [hroot, lineage_root (hrun.run hstart he).ready.sound.toArena] at hlin
      exact hne (List.mem_singleton.1 hlin)
  rw [repeats, hnone, ways_nil, Multiset.card_singleton]

end Query

/-! ## Later selections -/

theorem count_flatMap_replicate {α : Type} {l : List (Int × α)} (hl : (l.map Prod.fst).Nodup)
    (n : Int × α → Nat) {entry : Int × α} (he : entry ∈ l) :
    (l.flatMap fun e => List.replicate (n e) e.1).count entry.1 = n entry := by
  induction l with
  | nil => cases he
  | cons first l ih =>
    rw [List.map_cons, List.nodup_cons] at hl
    obtain ⟨hfirst, hl⟩ := hl
    rw [List.flatMap_cons, List.count_append, List.count_replicate]
    rcases List.mem_cons.1 he with rfl | he
    · have hrest : entry.1 ∉ l.flatMap fun e => List.replicate (n e) e.1 := by
        intro hmem
        obtain ⟨e, he, hmem⟩ := List.mem_flatMap.1 hmem
        exact hfirst (List.mem_map.2 ⟨e, he, (List.eq_of_mem_replicate hmem).symm⟩)
      rw [List.count_eq_zero_of_not_mem hrest]
      simp
    · have hne : first.1 ≠ entry.1 := fun heq => hfirst (heq ▸ List.mem_map_of_mem he)
      rw [ih hl he]
      simp [hne]

/-- Listing every key more often makes no difference exactly if those that are listed at all are
listed once for each time. -/
theorem flatMap_replicate_mul_eq_iff {α : Type} {l : List (Int × α)} (hl : (l.map Prod.fst).Nodup)
    (k n : Int × α → Nat) :
    (l.flatMap fun e => List.replicate (k e * n e) e.1) =
        (l.flatMap fun e => List.replicate (n e) e.1) ↔
      ∀ e ∈ l, e.1 ∈ (l.flatMap fun e => List.replicate (n e) e.1) → k e = 1 := by
  constructor
  · intro heq e he hlisted
    have hpos := List.count_pos_iff.2 hlisted
    have hcount := congrArg (List.count e.1) heq
    rw [count_flatMap_replicate hl _ he] at hpos
    rw [count_flatMap_replicate hl _ he, count_flatMap_replicate hl _ he] at hcount
    refine Nat.eq_of_mul_eq_mul_right hpos ?_
    rw [hcount, Nat.one_mul]
  · intro h
    refine List.flatMap_congr fun e he => ?_
    rcases Nat.eq_zero_or_pos (n e) with hzero | hpos
    · rw [hzero, Nat.mul_zero]
    · have hlisted : e.1 ∈ l.flatMap fun e => List.replicate (n e) e.1 := by
        rw [← count_flatMap_replicate hl n he] at hpos
        exact List.count_pos_iff.1 hpos
      rw [h e he hlisted, Nat.one_mul]

theorem Store.nodup_entries (st : Store) (entity : String) :
    ((st.table entity).entries.map Prod.fst).Nodup := by
  refine List.pairwise_map.2 ((st.table entity).ascending.imp fun hlt heq => ?_)
  rw [heq, Std.compare_self] at hlt
  cases hlt

namespace Query

variable {m : Model} {st : Store} {q failed alone after : Query} {ctx ctx' : Context}
  {f g : Filter} {e : FilterError} {predicate : Predicate}

/-- **A selection after a failed compilation** lists a record as often as before, for each way to
bind the joins that were added. -/
theorem select_failed (hq : q.Sound) (ht : q.Typed ctx'.model) (hst : st.WellFormed ctx'.model)
    (hm : ctx.model = ctx'.model) (hf : q.compile ctx f = (.error e, failed))
    (hg : failed.compile ctx' g = (.ok predicate, after)) :
    Store.select ctx'.model st after predicate =
      .ok ((st.table q.entity).entries.flatMap fun r =>
        List.replicate (q.repeats st failed (.row q.entity r.1 r.2) *
          (q.copies st (.row q.entity r.1 r.2) *
            ctx'.frequency st g (.row q.entity r.1 r.2))) r.1) := by
  obtain ⟨hs, hgrows⟩ := failed_sound hq hf
  have ht' : failed.Typed ctx'.model := by
    have hcompiled := compile_typed hq (hm ▸ ht) f
    rwa [hf, hm] at hcompiled
  rw [Context.select_onto hs ht' hst hg]
  simp only [hgrows.entity, copies_failed hq hf, Nat.mul_assoc]

/-- **What a failed compilation does to a selection.** A filter that compiles onto a query also
compiles onto what a failed compilation has left of it, and the two selections list the same
records. They list each record as often exactly if, for every record that is listed, the joins that
the failed compilation has added can be bound in one way. So it is if the comparisons before the one
that has failed need no join. -/
theorem Succession.select_after_failure {log : List (Query × Predicate)} (h : Succession m q log)
    (hst : st.WellFormed m) (hm : ctx.model = m) (hm' : ctx'.model = m)
    (hf : q.compile ctx f = (.error e, failed))
    (hg : q.compile ctx' g = (.ok predicate, alone)) :
    ∃ predicate' after ids ids', failed.compile ctx' g = (.ok predicate', after) ∧
      Store.select m st alone predicate = .ok ids ∧
      Store.select m st after predicate' = .ok ids' ∧
      (∀ id, id ∈ ids' ↔ id ∈ ids) ∧
      (ids' = ids ↔ ∀ id ∈ ids, ∀ record, st.record? q.entity id = some record →
        q.repeats st failed (.row q.entity id record) = 1) ∧
      ((∀ c ∈ ctx.completed f, ctx.JoinFree c) → ids' = ids) := by
  subst hm'
  obtain ⟨hq, ht, -, -⟩ := h.standing
  obtain ⟨-, hgrows⟩ := failed_sound hq hf
  obtain ⟨he, o, p, hrun, -⟩ := Context.compile_ok (congrArg Prod.fst hg)
  have hplanned : ∀ c ∈ g.comparisons,
      ∃ clause, (ctx'.schema.plan ctx'.model c).2 = .ok clause :=
    fun c hc => hrun.planned c (List.mem_append_left _ hc)
  obtain ⟨predicate', hok⟩ := Context.compile_planned (hgrows.entity.trans he) hplanned
  have hafter : failed.compile ctx' g = (.ok predicate', (failed.compile ctx' g).2) :=
    Prod.ext hok rfl
  have hiff := flatMap_replicate_mul_eq_iff (st.nodup_entries q.entity)
    (fun r => q.repeats st failed (.row q.entity r.1 r.2)) fun r =>
      q.copies st (.row q.entity r.1 r.2) * ctx'.frequency st g (.row q.entity r.1 r.2)
  refine ⟨predicate', _, _, _, hafter, Context.select_onto hq ht hst hg,
    select_failed hq ht hst hm hf hafter, fun id => ?_, hiff.trans ⟨?_, ?_⟩, fun hfree => ?_⟩
  · simp only [List.mem_flatMap, List.mem_replicate, ne_eq, Nat.mul_eq_zero,
      repeats_ne_zero hq hf, false_or]
  · intro hone id hid record hrecord
    exact hone (id, record) (OrderedMap.mem_of_find? hrecord) hid
  · intro hone r hr hid
    exact hone r.1 hid r.2 (OrderedMap.find?_of_mem hr)
  · exact hiff.2 fun r _ _ => repeats_of_joinFree hq hf hfree

end Query

namespace Shop

open Query

/-- The number of an order is compared, and then its items with an operator that there is not. -/
def oneThenUnknown : Filter := .and [.compareOne .equal "number" "1", failing]

/-- What its compilation leaves. -/
def oneFailed : Query := ((recordsOf "Order").compile numbered oneThenUnknown).2

/-- What the comparison of an item leads to. -/
def twoAlone : Query := ((recordsOf "Order").compile numbered two).2

theorem two_after_failure :
    (recordsOf "Order").compile numbered oneThenUnknown =
        (.error (.unknownOperator "=~"), oneFailed) ∧
      ∃ predicate' after ids, oneFailed.compile numbered two = (.ok predicate', after) ∧
        Store.select model store twoAlone (.equal (.column 1 "qty") (.text "2")) = .ok ids ∧
        Store.select model store after predicate' = .ok ids := by
  have hf : (recordsOf "Order").compile numbered oneThenUnknown =
      (.error (.unknownOperator "=~"), oneFailed) := by decide +kernel
  have hg : (recordsOf "Order").compile numbered two =
      (.ok (.equal (.column 1 "qty") (.text "2")), twoAlone) := by decide +kernel
  have hfree : ∀ c ∈ numbered.completed oneThenUnknown, numbered.JoinFree c := by
    have hcompleted : numbered.completed oneThenUnknown = [⟨"number", "==", ["1"]⟩] := by
      decide +kernel
    rw [hcompleted, List.forall_mem_singleton]
    exact .basic (r := ⟨⟨⟨"number", "id", [], false, none, "id", none⟩, ["id"], none⟩, [], none⟩)
      (a := ⟨"id", .basic .int⟩) (by rfl) (by rfl) (by rfl) (by rfl)
  obtain ⟨predicate', after, ids, ids', hafter, hids, hids', -, -, hsame⟩ :=
    (Succession.start "Order").select_after_failure store_wellFormed rfl rfl hf hg
  exact ⟨hf, predicate', after, ids, hafter, hids, hsame hfree ▸ hids'⟩

/-- The items of an order are compared, and then again with an operator that there is not. -/
def twoThenUnknown : Filter := .and [two, failing]

/-- What its compilation leaves. -/
def twoFailed : Query := ((recordsOf "Order").compile numbered twoThenUnknown).2

/-- The first order is asked for. -/
def numberOne : Filter := .compareOne .equal "number" "1"

/-- **The first order is listed twice after a failed compilation.** It has an item twice, and the
join to the items stays that the first comparison has made, though no predicate was returned. -/
theorem numberOne_repeated :
    Succession model (recordsOf "Order") [] ∧ store.WellFormed model ∧
      (recordsOf "Order").compile numbered twoThenUnknown =
        (.error (.unknownOperator "=~"), twoFailed) ∧
      (recordsOf "Order").compile numbered numberOne =
        (.ok (.equal (.column 0 "id") (.text "1")), recordsOf "Order") ∧
      (twoFailed.compile numbered numberOne).1 = .ok (.equal (.column 0 "id") (.text "1")) ∧
      Store.select model store (recordsOf "Order") (.equal (.column 0 "id") (.text "1")) =
        .ok [1] ∧
      Store.select model store (twoFailed.compile numbered numberOne).2
        (.equal (.column 0 "id") (.text "1")) = .ok [1, 1] := by
  refine ⟨.start "Order", store_wellFormed, ?_, ?_, ?_, ?_, ?_⟩ <;> decide +kernel

end Shop

end EntityFilter
