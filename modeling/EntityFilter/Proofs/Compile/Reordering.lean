import EntityFilter.Proofs.Compile.Outcomes

/-!
# The order of clauses

What comparisons bind, later comparisons may find bound. All the same it makes no difference which
of two clauses comes first: either they bind different joins, or they go through one join, and then
the one that comes first binds it to the same things.

* `Course.Commute`: courses that may come in any order.
* `Course.Through.commute`: courses that bind joins of the root may.
* `Context.outcomes_commute`: so what filters come to does not depend on their order.
* `Filter.Reorders`: a filter with its clauses in another order.
* `Context.select_reorders`: such filters list the same records, each as often.
-/

namespace EntityFilter

open Query

/-! ## Courses in any order -/

namespace Course

variable {F G : Course} {st : Store} {b : Binding} {r r' : Attribute}

theorem seq_assoc (F G H : Course) : (F.seq G).seq H = F.seq (G.seq H) := by
  funext held
  simp only [seq, Multiset.bind_assoc, Multiset.bind_map, Multiset.map_bind, Multiset.map_map,
    Function.comp_def, add_assoc]

/-- Two courses that may come in any order. -/
def Commute (F G : Course) : Prop := F.seq G = G.seq F

/-- **A course that has nothing to do with what is held.** -/
def Apart (F : Course) : Prop :=
  ∃ values : Multiset (Multiset Prop), ∀ held, F held = values.map (·, held)

/-- **A course that binds a join of the root**, or takes it bound, and goes on from there. -/
def Through (st : Store) (b : Binding) (r : Attribute) (F : Course) : Prop :=
  ∃ values : Binding → Multiset (Multiset Prop), ∀ held,
    F held = (b.hold st r held).bind fun w => (values w.1).map (·, w.2)

theorem apart_within (F : Course) (inner : Held) (verdict : Multiset Prop → Prop) :
    (F.within inner verdict).Apart := by
  refine ⟨(F inner).map fun w => {verdict w.1}, fun held => ?_⟩
  rw [within, Multiset.map_map]
  rfl

theorem apart_single (values : Multiset Prop) : Apart fun held => {(values, held)} :=
  ⟨{values}, fun _ => rfl⟩

theorem Apart.commute (h : F.Apart) (G : Course) : F.Commute G := by
  obtain ⟨values, h⟩ := h
  funext held
  have hright : ∀ held, (G.seq F) held =
      (G held).bind fun u => values.map fun v => (u.1 + v, u.2) := by
    intro held
    simp only [seq, h, Multiset.map_map, Function.comp_def]
  rw [hright, seq, h, Multiset.bind_map, Multiset.bind_map_comm]
  simp only [add_comm]

end Course

namespace Binding

variable {st : Store} {b : Binding} {r r' : Attribute} {held : Held}

/-- What a join of the root is bound to where joins may be shared. -/
def found (st : Store) (b : Binding) (r : Attribute) (held : Held) : Multiset Binding :=
  match held.bind (· r.name) with
  | some c => {c}
  | none => b.joined st r

/-- What is held after a join of the root is bound. -/
def keep (r : Attribute) (c : Binding) (held : Held) : Held :=
  held.map fun bound => Function.update bound r.name (some c)

theorem hold_eq : b.hold st r held = (b.found st r held).map fun c => (c, keep r c held) := by
  cases hc : held.bind (· r.name) with
  | none => simp only [hold, found, keep, hc]
  | some c =>
    obtain ⟨bound, rfl, hbound⟩ := Option.bind_eq_some_iff.1 hc
    have hsame : Function.update bound r.name (some c) = bound := by
      rw [← hbound, Function.update_eq_self]
    simp [hold, found, keep, hbound, hsame]

theorem found_keep (c : Binding) : b.found st r' (keep r c held) =
    if held.isSome ∧ r'.name = r.name then {c} else b.found st r' held := by
  cases held with
  | none => simp [found, keep]
  | some bound =>
    by_cases hname : r'.name = r.name
    · simp [found, keep, hname]
    · simp [found, keep, hname]

theorem keep_keep (hne : ¬ (held.isSome ∧ r'.name = r.name)) (c c' : Binding) :
    keep r' c' (keep r c held) = keep r c (keep r' c' held) := by
  cases held with
  | none => rfl
  | some bound =>
    have hname : r.name ≠ r'.name := fun h => hne ⟨rfl, h.symm⟩
    exact congrArg some (Function.update_comm hname _ _ _)

end Binding

namespace Course

variable {F G : Course} {st : Store} {b : Binding} {r r' : Attribute}

theorem seq_through (values values' : Binding → Multiset (Multiset Prop))
    (hF : ∀ held, F held = (b.hold st r held).bind fun w => (values w.1).map (·, w.2))
    (hG : ∀ held, G held = (b.hold st r' held).bind fun w => (values' w.1).map (·, w.2))
    (held : Held) : F.seq G held = (b.found st r held).bind fun c =>
      (b.found st r' (Binding.keep r c held)).bind fun c' =>
        (values c).bind fun v => (values' c').map fun v' =>
          (v + v', Binding.keep r' c' (Binding.keep r c held)) := by
  simp only [seq, hF, hG, Binding.hold_eq, Multiset.bind_map, Multiset.bind_assoc,
    Multiset.map_bind, Multiset.map_map, Function.comp_def]
  refine Multiset.bind_congr fun c _ => ?_
  rw [Multiset.bind_bind]

/-- **Courses that bind joins of the root may come in any order.** -/
theorem Through.commute (hF : Through st b r F) (hG : Through st b r' G)
    (hsame : r.name = r'.name → r = r') : F.Commute G := by
  obtain ⟨values, hF⟩ := hF
  obtain ⟨values', hG⟩ := hG
  funext held
  rw [seq_through values values' hF hG, seq_through values' values hG hF]
  have hswap : ∀ (c c' : Binding) (held' : Held),
      ((values c).bind fun v => (values' c').map fun v' => (v + v', held')) =
        (values' c').bind fun v' => (values c).map fun v => (v' + v, held') := by
    intro c c' held'
    rw [Multiset.bind_map_comm]
    simp only [add_comm]
  by_cases hname : held.isSome ∧ r'.name = r.name
  · -- whichever comes later finds the join bound
    obtain rfl := hsame hname.2.symm
    simp only [Binding.found_keep, hname, and_self, if_true, Multiset.singleton_bind, hswap]
  · -- neither has anything to do with what the other one binds
    have hname' : ¬ (held.isSome ∧ r.name = r'.name) := fun h => hname ⟨h.1, h.2.symm⟩
    simp only [Binding.found_keep, hname, hname', if_false, Binding.keep_keep hname, hswap]
    rw [Multiset.bind_bind]

end Course

namespace Context

variable {ctx : Context} {st : Store} {b : Binding} {f g : Filter} {fs gs : List Filter}

/-- **A comparison binds the first join of its path**, if it binds any. -/
theorem compared_cases (c : Comparison) : (ctx.compared st b c).Apart ∨
    ∃ r, (ctx.model.entity ctx.schema.entity).attribute? r.name = some r ∧
      (ctx.compared st b c).Through st b r := by
  have hch := ctx.schema.chained_plan ctx.model c
  unfold compared
  split
  · exact Or.inl (Course.apart_single 0)
  · split
    · rename_i test _
      generalize (ctx.schema.plan ctx.model c).1 = joins at hch
      cases hch with
      | nil => simpa [Binding.follow] using Or.inl (Course.apart_single _)
      | @cons _ r rest ha _ _ =>
        refine Or.inr ⟨r, ha, fun c => (c.along st rest).map fun e =>
          {test.Holds ctx.model st.dialect e}, fun held => ?_⟩
        simp only [Binding.follow, Multiset.map_bind, Multiset.map_map, Function.comp_def]
    · exact Or.inl (Course.apart_single _)

theorem outcomes_cases (ctx : Context) (st : Store) (b : Binding) (f : Filter) :
    (ctx.outcomes st b f).Apart ∨
      ∃ r, (ctx.model.entity ctx.schema.entity).attribute? r.name = some r ∧
        (ctx.outcomes st b f).Through st b r := by
  cases f with
  | comparison c => exact compared_cases c
  | and children => exact Or.inl (Course.apart_within _ _ _)
  | or children => exact Or.inl (Course.apart_within _ _ _)
  | unrecognized text => exact Or.inl (Course.apart_single 0)

/-- **What two filters come to does not depend on which of them comes first.** -/
theorem outcomes_commute (f g : Filter) :
    (ctx.outcomes st b f).Commute (ctx.outcomes st b g) := by
  rcases outcomes_cases ctx st b f with hf | ⟨r, hr, hf⟩
  · exact hf.commute _
  · rcases outcomes_cases ctx st b g with hg | ⟨r', hr', hg⟩
    · exact (hg.commute _).symm
    · refine hf.commute hg fun hname => ?_
      rw [hname, hr'] at hr
      exact (Option.some.inj hr).symm

theorem outcomesOf_append :
    ctx.outcomesOf st b (fs ++ gs) = (ctx.outcomesOf st b fs).seq (ctx.outcomesOf st b gs) := by
  induction fs with
  | nil => rw [List.nil_append, outcomesOf, Course.done_seq]
  | cons f fs ih => rw [List.cons_append, outcomesOf, outcomesOf, ih, Course.seq_assoc]

theorem outcomesOf_perm (h : fs.Perm gs) : ctx.outcomesOf st b fs = ctx.outcomesOf st b gs := by
  induction h with
  | nil => rfl
  | cons f _ ih => rw [outcomesOf, outcomesOf, ih]
  | swap f g fs =>
    simp only [outcomesOf]
    rw [← Course.seq_assoc, ← Course.seq_assoc, outcomes_commute]
  | trans _ _ ih ih' => exact ih.trans ih'

end Context

/-! ## Filters in any order -/

namespace Filter

/-- **The same filter with its clauses in another order**: the parts of conjunctions and of
disjunctions are permuted, at any depth. -/
inductive Reorders : Filter → Filter → Prop
  | refl (f : Filter) : Reorders f f
  | trans {f g h : Filter} (hf : Reorders f g) (hg : Reorders g h) : Reorders f h
  | and {fs gs : List Filter} (h : fs.Perm gs) : Reorders (.and fs) (.and gs)
  | or {fs gs : List Filter} (h : fs.Perm gs) : Reorders (.or fs) (.or gs)
  | andPart {before after : List Filter} {f g : Filter} (h : Reorders f g) :
      Reorders (.and (before ++ f :: after)) (.and (before ++ g :: after))
  | orPart {before after : List Filter} {f g : Filter} (h : Reorders f g) :
      Reorders (.or (before ++ f :: after)) (.or (before ++ g :: after))

variable {f g : Filter} {fs gs before after : List Filter}

theorem comparisonsOfAll_append :
    comparisonsOfAll (fs ++ gs) = comparisonsOfAll fs ++ comparisonsOfAll gs := by
  induction fs with
  | nil => rfl
  | cons f fs ih => rw [List.cons_append, comparisonsOfAll, comparisonsOfAll, ih, List.append_assoc]

theorem comparisonsOfAll_perm (h : fs.Perm gs) :
    (comparisonsOfAll fs).Perm (comparisonsOfAll gs) := by
  induction h with
  | nil => exact .refl _
  | cons f _ ih => exact ih.append_left _
  | swap f g fs =>
    simp only [comparisonsOfAll, ← List.append_assoc]
    exact List.perm_append_comm.append_right _
  | trans _ _ ih ih' => exact ih.trans ih'

theorem comparisonsOfAll_part (h : f.comparisons.Perm g.comparisons) :
    (comparisonsOfAll (before ++ f :: after)).Perm (comparisonsOfAll (before ++ g :: after)) := by
  rw [comparisonsOfAll_append, comparisonsOfAll_append, comparisonsOfAll, comparisonsOfAll]
  exact (h.append_right _).append_left _

/-- The comparisons are the same, in another order. -/
theorem Reorders.comparisons_perm (h : f.Reorders g) : f.comparisons.Perm g.comparisons := by
  induction h with
  | refl f => exact .refl _
  | trans _ _ ih ih' => exact ih.trans ih'
  | and h => exact comparisonsOfAll_perm h
  | or h => exact comparisonsOfAll_perm h
  | andPart _ ih => exact comparisonsOfAll_part ih
  | orPart _ ih => exact comparisonsOfAll_part ih

end Filter

namespace Context

variable {ctx : Context} {st : Store} {b : Binding} {f g : Filter}
  {fs gs before after : List Filter} {predicate : Predicate}

theorem outcomesOf_part (h : ctx.outcomes st b f = ctx.outcomes st b g) :
    ctx.outcomesOf st b (before ++ f :: after) = ctx.outcomesOf st b (before ++ g :: after) := by
  rw [outcomesOf_append, outcomesOf_append, outcomesOf, outcomesOf, h]

/-- **A filter comes to the same in every order of its clauses.** -/
theorem outcomes_reorders (h : f.Reorders g) : ctx.outcomes st b f = ctx.outcomes st b g := by
  induction h with
  | refl f => rfl
  | trans _ _ ih ih' => exact ih.trans ih'
  | and h => rw [outcomes, outcomes, outcomesOf_perm h]
  | or h => rw [outcomes, outcomes, outcomesOf_perm h]
  | andPart _ ih => rw [outcomes, outcomes, outcomesOf_part ih]
  | orPart _ ih => rw [outcomes, outcomes, outcomesOf_part ih]

/-- **The order of clauses makes no difference to the rows**, multiplicities included. If a filter
compiles onto the query of all records, then so does the filter with its clauses in any other order,
and on every well-formed store the two selections list the same records, each as often, in the same
order. This is so whichever comparison makes a join that others share, and whichever joins are
dropped on the way. -/
theorem select_reorders {entity : String} (h : ((recordsOf entity).compile ctx f).1 = .ok predicate)
    (hr : f.Reorders g) :
    ∃ predicate', ((recordsOf entity).compile ctx g).1 = .ok predicate' ∧
      ∀ st : Store, st.WellFormed ctx.model → ∃ ids,
        Store.select ctx.model st ((recordsOf entity).compile ctx f).2 predicate = .ok ids ∧
        Store.select ctx.model st ((recordsOf entity).compile ctx g).2 predicate' = .ok ids := by
  obtain ⟨hentity, o, p, hrun, -⟩ := compile_ok h
  obtain rfl : entity = ctx.schema.entity := hentity
  have hplanned : ∀ c ∈ g.comparisons, ∃ clause, (ctx.schema.plan ctx.model c).2 = .ok clause := by
    intro c hc
    have hmem : c ∈ Filter.comparisonsOfAll [f] :=
      List.mem_append_left _ (hr.comparisons_perm.mem_iff.2 hc)
    exact hrun.planned c hmem
  obtain ⟨predicate', h'⟩ := compile_planned (q := recordsOf ctx.schema.entity) rfl hplanned
  refine ⟨predicate', h', fun st hst => ⟨_, select_compile hst (Prod.ext h rfl), ?_⟩⟩
  rw [select_compile hst (Prod.ext h' rfl)]
  simp only [frequency, outcomes_reorders hr]

end Context

namespace Shop

open Query

/-- Items of two pieces are asked for, or none of three and one of one. -/
def twoOrOneNotThree : Filter :=
  .or [.compareOne .equal "item.qty" "2",
    .and [.compareOne .equal "item.qty" "1", .compareOne .notEqual "item.qty" "3"]]

/-- The same clauses in the opposite order. -/
def notThreeOneOrTwo : Filter :=
  .or [.and [.compareOne .notEqual "item.qty" "3", .compareOne .equal "item.qty" "1"],
    .compareOne .equal "item.qty" "2"]

/-- What the first one compiles to. -/
def twoOrOneTests : Predicate :=
  .or [.equal (.column 1 "qty") (.text "2"),
    .and [.equal (.column 2 "qty") (.text "1"), .not (.hasRow 0)]]

theorem twoOrOneNotThree_alike :
    ((recordsOf "Order").compile context twoOrOneNotThree).1 = .ok twoOrOneTests ∧
      twoOrOneNotThree.Reorders notThreeOneOrTwo ∧
      ∃ predicate ids,
        ((recordsOf "Order").compile context notThreeOneOrTwo).1 = .ok predicate ∧
        Store.select context.model store ((recordsOf "Order").compile context twoOrOneNotThree).2
          twoOrOneTests = .ok ids ∧
        Store.select context.model store ((recordsOf "Order").compile context notThreeOneOrTwo).2
          predicate = .ok ids := by
  have h : ((recordsOf "Order").compile context twoOrOneNotThree).1 = .ok twoOrOneTests := by rfl
  -- first the parts of the conjunction change places, and then those of the disjunction
  have hinner : (Filter.or ([.compareOne .equal "item.qty" "2"] ++
        .and [.compareOne .equal "item.qty" "1",
          .compareOne .notEqual "item.qty" "3"] :: [])).Reorders
      (.or ([.compareOne .equal "item.qty" "2"] ++
        .and [.compareOne .notEqual "item.qty" "3", .compareOne .equal "item.qty" "1"] :: [])) :=
    .orPart (.and (.swap _ _ []))
  have hr : twoOrOneNotThree.Reorders notThreeOneOrTwo := hinner.trans (.or (.swap _ _ []))
  obtain ⟨predicate, h', hselect⟩ := Context.select_reorders h hr
  obtain ⟨ids, hids, hids'⟩ := hselect store store_wellFormed
  exact ⟨h, hr, predicate, ids, h', hids, hids'⟩

end Shop

end EntityFilter
