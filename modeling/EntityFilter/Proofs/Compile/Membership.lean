import EntityFilter.Proofs.Compile.Checks
import EntityFilter.Proofs.Compile.Values

/-!
# Membership in a list of values

A list of values is tested as a whole: if there are texts in it, its other values do not count. So a
list is found by its members, each taken alone, only as far as the members that do not count find
nothing more.

* `Settings.holds_isInTest`: the test for a list is passed by what a value that counts is found by.
* `Context.isIn_distributes_iff`: a list of arguments selects what its members select exactly if its
  texts find all.
* `Shop.pairOrThree_missed`: an argument that is not found any more with another one beside it.
* `Context.isNotIn_complements`: an exclusion through a relation selects exactly the other records.
-/

namespace EntityFilter

open Query

/-! ## The test for a list -/

namespace Value

/-- NULL is equal to nothing. -/
theorem null_equals (v : Value) : null.equals v = .unknown := by
  cases v <;> rfl

/-- A value is one of a list if it is equal to a member. -/
theorem isOneOf_eq_yes {a : Value} {vs : List Value} :
    a.isOneOf vs = .yes ↔ ∃ v ∈ vs, a.equals v = .yes := by
  have hfold : vs.foldr (fun v t => (a.equals v).disj t) .no = .yes ↔
      ∃ v ∈ vs, a.equals v = .yes := by
    induction vs with
    | nil => simp
    | cons v vs ih => simp [Truth.disj_eq_yes, ih]
  unfold isOneOf
  cases a with
  | null => simp [isNull, null_equals]
  | _ => exact hfold

/-- **The values of a list that count** when it is tested: the texts if there are any, else all. -/
def Counts (vs : List Value) (v : Value) : Prop :=
  v ∈ vs ∧ (v.text?.isSome ∨ ∀ w ∈ vs, w.text? = none)

theorem exists_text {vs : List Value} (h : ¬ ∀ w ∈ vs, w.text? = none) : ∃ t, .text t ∈ vs := by
  obtain ⟨w, hw, htext⟩ : ∃ w ∈ vs, ¬ w.text? = none := by simpa using h
  cases w with
  | text t => exact ⟨t, hw⟩
  | _ => exact absurd rfl htext

/-- If there is a text, the values that count are the texts. -/
theorem counts_iff_of_text {vs : List Value} {t : String} {v : Value} (ht : .text t ∈ vs) :
    Counts vs v ↔ ∃ t', .text t' ∈ vs ∧ .text t' = v := by
  constructor
  · rintro ⟨hv, htext | hall⟩
    · cases v with
      | text t' => exact ⟨t', hv, rfl⟩
      | _ => cases htext
    · exact nomatch hall _ ht
  · rintro ⟨t', ht', rfl⟩
    exact ⟨ht', Or.inl rfl⟩

end Value

namespace Settings

variable {m : Model} {d : Dialect} {b : Binding} {e : Expr} {vs : List Value} (s : Settings)

/-- A list without texts is compared as it stands. -/
theorem isInTest_native (e : Expr) (h : ∀ w ∈ vs, w.text? = none) :
    s.isInTest e vs = .isIn e vs := by
  rw [isInTest, List.filterMap_eq_nil_iff.2 h]
  rfl

/-- Of a list with texts only these are compared. -/
theorem isInTest_texts (e : Expr) {t : String} (h : .text t ∈ vs) :
    s.isInTest e vs =
      .isIn (s.caseExpr e) ((vs.filterMap Value.text?).map fun t => .text (s.caseText t)) := by
  have hne : (vs.filterMap Value.text?).isEmpty = false :=
    List.isEmpty_eq_false_iff_exists_mem.2 ⟨t, List.mem_filterMap.2 ⟨_, h, rfl⟩⟩
  rw [isInTest, hne]
  rfl

theorem holds_isIn : (Predicate.isIn e vs).Holds m d b ↔
    ∃ v ∈ vs, (e.valueIn m b).equals v = .yes :=
  Value.isOneOf_eq_yes

/-- A list without texts is passed by what is equal to a member. -/
theorem holds_isInTest_native (h : ∀ w ∈ vs, w.text? = none) :
    (s.isInTest e vs).Holds m d b ↔ ∃ v ∈ vs, (e.valueIn m b).equals v = .yes := by
  rw [s.isInTest_native e h, holds_isIn]

/-- A list with texts is passed by what is equal to one of these, in upper case where case is
ignored. -/
theorem holds_isInTest_texts {t : String} (ht : .text t ∈ vs) :
    (s.isInTest e vs).Holds m d b ↔
      ∃ t', .text t' ∈ vs ∧
        ((s.caseExpr e).valueIn m b).equals (.text (s.caseText t')) = .yes := by
  rw [s.isInTest_texts e ht, holds_isIn]
  constructor
  · rintro ⟨v, hv, heq⟩
    obtain ⟨t', hmem, rfl⟩ := List.mem_map.1 hv
    obtain ⟨w, hw, htext⟩ := List.mem_filterMap.1 hmem
    cases w with
    | text t'' =>
      obtain rfl := Option.some.inj htext
      exact ⟨t'', hw, heq⟩
    | _ => cases htext
  · rintro ⟨t', ht', heq⟩
    exact ⟨_, List.mem_map.2 ⟨t', List.mem_filterMap.2 ⟨_, ht', rfl⟩, rfl⟩, heq⟩

/-- **The test for a list** is passed if the test for a value that counts is passed. -/
theorem holds_isInTest : (s.isInTest e vs).Holds m d b ↔
    ∃ v, Value.Counts vs v ∧ (s.isInTest e [v]).Holds m d b := by
  by_cases hall : ∀ w ∈ vs, w.text? = none
  · -- without a text every value counts
    rw [s.holds_isInTest_native hall]
    refine exists_congr fun v => ?_
    rw [Value.Counts, and_iff_left (Or.inr hall)]
    refine and_congr_right fun hv => ?_
    rw [s.holds_isInTest_native (List.forall_mem_singleton.2 (hall v hv))]
    simp
  · -- with a text the texts count, each compared as it is among the others
    obtain ⟨t, ht⟩ := Value.exists_text hall
    rw [s.holds_isInTest_texts ht]
    simp only [Value.counts_iff_of_text ht, exists_exists_and_eq_and]
    refine exists_congr fun t' => and_congr_right fun _ => ?_
    rw [s.holds_isInTest_texts (List.mem_singleton_self _)]
    simp

end Settings

/-! ## What lists find -/

/-- A field without a conversion reads all its arguments as values of one kind, so that if one of
them is a text, all are. -/
theorem Field.readArgument_texts {m : Model} {f : Field} {selector raw raw' t : String}
    {type : Option ScalarType} {v : Value} (hf : f.converter = none)
    (htext : f.readArgument m selector type raw = .ok (.text t))
    (h : f.readArgument m selector type raw' = .ok v) : v.text?.isSome := by
  rcases type with _ | _ | _ | _ | name <;> simp only [readArgument, hf, Except.ok.injEq] at htext h
  case some.bool => split at htext <;> cases htext
  case some.enumeration => split at htext <;> cases htext
  all_goals exact h ▸ rfl

namespace Context

variable {ctx : Context} {st : Store} {clause : Clause} {joins : List Attribute} {b : Binding}
  {selector : String} {arguments : List String} {vs : List Value}

/-- **One of some values is found** for a record of the root: something related passes the test for
the list of them. -/
def FindsOneOf (ctx : Context) (st : Store) (clause : Clause) (joins : List Attribute)
    (vs : List Value) (b : Binding) : Prop :=
  clause.Passes ctx.model st ctx.settings joins (ctx.settings.isInTest clause.compared vs) b

/-- **The texts of a list find all**: in a list with texts, whatever record one of the other values
is found for, one of the texts is found for it too. -/
def TextsFindAll (ctx : Context) (st : Store) (clause : Clause) (joins : List Attribute) : Prop :=
  (∃ t, .text t ∈ clause.values) → ∀ v ∈ clause.values, v.text? = none →
    ∀ b ∈ st.rows ctx.schema.entity, ctx.FindsOneOf st clause joins [v] b →
      ∃ t, .text t ∈ clause.values ∧ ctx.FindsOneOf st clause joins [.text t] b

/-- Without a conversion there is nothing beside the texts of a list. -/
theorem textsFindAll_of_unconverted {c : Comparison}
    (hplan : ctx.schema.plan ctx.model c = (joins, .ok clause))
    (hconv : clause.selector.field.converter = none) : ctx.TextsFindAll st clause joins := by
  rintro ⟨t, ht⟩ v hv hnone
  have hchecks := (Schema.plan_eq_ok_iff.1 hplan).2
  obtain ⟨raw, -, hraw⟩ := hchecks.exists_argument ht
  obtain ⟨raw', -, hraw'⟩ := hchecks.exists_argument hv
  have hsome := Field.readArgument_texts hconv hraw hraw'
  rw [hnone] at hsome
  cases hsome

/-- One of some values is found where one that counts is. -/
theorem findsOneOf_iff : ctx.FindsOneOf st clause joins vs b ↔
    ∃ v, Value.Counts vs v ∧ ctx.FindsOneOf st clause joins [v] b := by
  constructor
  · rintro ⟨c, hrelated, htest⟩
    obtain ⟨v, hv, hone⟩ := (ctx.settings.holds_isInTest).1 htest
    exact ⟨v, hv, c, hrelated, hone⟩
  · rintro ⟨v, hv, c, hrelated, hone⟩
    exact ⟨c, hrelated, (ctx.settings.holds_isInTest).2 ⟨v, hv, hone⟩⟩

/-- The texts of a list find all exactly if the list finds what its values find. -/
theorem textsFindAll_iff : ctx.TextsFindAll st clause joins ↔ ∀ b ∈ st.rows ctx.schema.entity,
    (∃ v ∈ clause.values, ctx.FindsOneOf st clause joins [v] b) →
      ctx.FindsOneOf st clause joins clause.values b := by
  constructor
  · rintro h b hb ⟨v, hv, hfinds⟩
    by_cases hall : v.text?.isSome ∨ ∀ w ∈ clause.values, w.text? = none
    · exact findsOneOf_iff.2 ⟨v, ⟨hv, hall⟩, hfinds⟩
    · -- the value does not count, but then there is a text that is found
      obtain ⟨hnone, hall⟩ := not_or.1 hall
      obtain ⟨t, ht⟩ := Value.exists_text hall
      obtain ⟨t', ht', hfinds'⟩ :=
        h ⟨t, ht⟩ v hv (Option.not_isSome_iff_eq_none.1 hnone) b hb hfinds
      exact findsOneOf_iff.2 ⟨_, ⟨ht', Or.inl rfl⟩, hfinds'⟩
  · rintro h ⟨t, ht⟩ v hv - b hb hfinds
    obtain ⟨w, hw, hfinds'⟩ := findsOneOf_iff.1 (h b hb ⟨v, hv, hfinds⟩)
    obtain ⟨t', ht', rfl⟩ := (Value.counts_iff_of_text ht).1 hw
    exact ⟨t', ht', hfinds'⟩

/-- **A membership selects the records for which one of its values is found.** -/
theorem answers_isIn (hst : st.WellFormed ctx.model)
    (hplan : ctx.schema.plan ctx.model ⟨selector, Operator.isIn.symbol, arguments⟩ =
      (joins, .ok clause)) :
    ∃ ids, ctx.Answers st (.compareMany .isIn selector arguments) ids ∧ ∀ id, id ∈ ids ↔
      st.Where ctx.schema.entity (ctx.FindsOneOf st clause joins clause.values) id := by
  have hop : clause.operator = .isIn := (Schema.plan_operator .isIn hplan).1
  obtain ⟨ids, hids, hmem⟩ := answers_of_plan hst hplan
  refine ⟨ids, hids, fun id => (hmem id).trans (Store.where_congr (fun b _ => ?_) id)⟩
  simp only [Asks, Clause.lower, hop, Settings.holds_withKey, FindsOneOf, Clause.Passes,
    Clause.Related, and_assoc]
  rfl

/-- **Every argument of a membership that passes its check can be asked for alone.** -/
theorem answers_alone (hst : st.WellFormed ctx.model)
    (hplan : ctx.schema.plan ctx.model ⟨selector, Operator.isIn.symbol, arguments⟩ =
      (joins, .ok clause)) {raw : String} (hraw : raw ∈ arguments) :
    ∃ found, ctx.Answers st (.compareMany .isIn selector [raw]) found ∧ ∃ v ∈ clause.values,
      clause.selector.field.readArgument ctx.model selector
        (ctx.model.comparedType? clause.selector.shape clause.terminal) raw = .ok v ∧
      ∀ id, id ∈ found ↔ st.Where ctx.schema.entity (ctx.FindsOneOf st clause joins [v]) id := by
  obtain ⟨hjoins, hchecks⟩ := Schema.plan_eq_ok_iff.1 hplan
  obtain ⟨v, hv, hread⟩ := hchecks.exists_value hraw
  have halone : ctx.schema.plan ctx.model ⟨selector, Operator.isIn.symbol, [raw]⟩ =
      (joins, .ok { clause with raw := raw, value := v, values := [v] }) :=
    Schema.plan_eq_ok_iff.2 ⟨hjoins, hchecks.alone hread⟩
  obtain ⟨found, hfound, hmem⟩ := answers_isIn hst halone
  exact ⟨found, hfound, v, hv, hread, hmem⟩

/-- **A list of arguments selects what its members select, each taken alone, exactly if its texts
find all.** On a well-formed store the list and every member of it select some records, and what the
list selects is selected by a member. What a member selects is selected by the list, unless the
member is converted to a value that is no text and another one to a text: then only texts count. -/
theorem isIn_distributes_iff (hst : st.WellFormed ctx.model)
    (hplan : ctx.schema.plan ctx.model ⟨selector, Operator.isIn.symbol, arguments⟩ =
      (joins, .ok clause)) :
    ∃ ids, ∃ alone : String → List Int,
      ctx.Answers st (.compareMany .isIn selector arguments) ids ∧
      (∀ raw ∈ arguments, ctx.Answers st (.compareMany .isIn selector [raw]) (alone raw)) ∧
      (∀ id ∈ ids, ∃ raw ∈ arguments, id ∈ alone raw) ∧
      ((∀ id, id ∈ ids ↔ ∃ raw ∈ arguments, id ∈ alone raw) ↔
        ctx.TextsFindAll st clause joins) := by
  have hchecks := (Schema.plan_eq_ok_iff.1 hplan).2
  obtain ⟨ids, hids, hmem⟩ := answers_isIn hst hplan
  choose! alone halone using fun raw (hraw : raw ∈ arguments) => answers_alone hst hplan hraw
  -- the values are those of the arguments, so together they find what the arguments select
  have hfinds : ∀ id, (∃ raw ∈ arguments, id ∈ alone raw) ↔
      st.Where ctx.schema.entity
        (fun b => ∃ v ∈ clause.values, ctx.FindsOneOf st clause joins [v] b) id := by
    intro id
    constructor
    · rintro ⟨raw, hraw, hid⟩
      obtain ⟨-, v, hv, -, hmem⟩ := halone raw hraw
      obtain ⟨record, hrecord, hfinds⟩ := (hmem id).1 hid
      exact ⟨record, hrecord, v, hv, hfinds⟩
    · rintro ⟨record, hrecord, v, hv, hfinds⟩
      obtain ⟨raw, hraw, hread⟩ := hchecks.exists_argument hv
      obtain ⟨-, v', -, hread', hmem⟩ := halone raw hraw
      obtain rfl := Except.ok.inj (hread.symm.trans hread')
      exact ⟨raw, hraw, (hmem id).2 ⟨record, hrecord, hfinds⟩⟩
  have hsub : ∀ id ∈ ids, ∃ raw ∈ arguments, id ∈ alone raw := by
    intro id hid
    obtain ⟨record, hrecord, hone⟩ := (hmem id).1 hid
    obtain ⟨v, ⟨hv, -⟩, hone⟩ := findsOneOf_iff.1 hone
    exact (hfinds id).2 ⟨record, hrecord, v, hv, hone⟩
  refine ⟨ids, alone, hids, fun raw hraw => (halone raw hraw).1, hsub, ?_⟩
  rw [textsFindAll_iff, ← Store.where_imp_iff]
  constructor
  · exact fun h id hwhere => (hmem id).1 ((h id).2 ((hfinds id).2 hwhere))
  · exact fun h id => ⟨hsub id, fun hid => (hmem id).2 (h id ((hfinds id).1 hid))⟩

end Context

namespace Shop

theorem twoOrThree_distributes :
    ∃ ids, ∃ alone : String → List Int,
      context.Answers store (.compareMany .isIn "item.qty" ["2", "3"]) ids ∧
      (∀ raw ∈ ["2", "3"],
        context.Answers store (.compareMany .isIn "item.qty" [raw]) (alone raw)) ∧
      ∀ id, id ∈ ids ↔ ∃ raw ∈ ["2", "3"], id ∈ alone raw := by
  have hplan : context.schema.plan context.model
      ⟨"item.qty", Operator.isIn.symbol, ["2", "3"]⟩ = ([items], .ok
        { quantity "2" with operator := .isIn, values := [.text "2", .text "3"] }) := by
    rfl
  obtain ⟨ids, alone, hids, halone, -, h⟩ := Context.isIn_distributes_iff store_wellFormed hplan
  exact ⟨ids, alone, hids, halone, h.2 (Context.textsFindAll_of_unconverted hplan rfl)⟩

/-- In the quantity of items a pair is the number two, and other texts stand for themselves. -/
def pairs : Converter :=
  ⟨fun raw => some (if raw = "pair" then .int 2 else .text raw), ["pair"]⟩

/-- The field of items with that conversion. -/
def ofPairs : Field :=
  ⟨"item", "items", ["qty"], false, none, "id", some pairs⟩

/-- Orders may be filtered by the quantity of their items, in pairs. -/
def paired : Context :=
  { context with schema := ⟨"Order", [⟨ofPairs, ["items"], none⟩]⟩ }

/-- The clause for a list of quantities. -/
def pairOrThree : Clause :=
  ⟨⟨⟨ofPairs, ["items"], none⟩, ["qty"], none⟩, ⟨"qty", .basic .int⟩, .isIn, "pair", .int 2,
    [.int 2, .text "3"]⟩

/-- **The first order has a pair of items, but no pair or three items.** Beside the text `3` the
number two is not looked for. -/
theorem pairOrThree_missed :
    store.WellFormed paired.model ∧
      Schema.register paired.model "Order" [ofPairs] = .ok paired.schema ∧
      paired.schema.plan paired.model ⟨"item.qty", Operator.isIn.symbol, ["pair", "3"]⟩ =
        ([items], .ok pairOrThree) ∧
      paired.Answers store (.compareMany .isIn "item.qty" ["pair", "3"]) [] ∧
      paired.Answers store (.compareMany .isIn "item.qty" ["pair"]) [1] ∧
      paired.Answers store (.compareMany .isIn "item.qty" ["3"]) [] ∧
      ¬ ∀ id : Int, id ∈ [] ↔ id ∈ [1] ∨ id ∈ [] := by
  refine ⟨store_wellFormed, by rfl, by rfl, ?_, ?_, ?_, fun h => ?_⟩
  · refine ⟨.isIn (.column 1 "qty") [.text "3"], withItems, Prod.ext (by rfl) ?_, by rfl⟩
    decide +kernel
  · refine ⟨.isIn (.column 1 "qty") [.int 2], withItems, Prod.ext (by rfl) ?_, by rfl⟩
    decide +kernel
  · refine ⟨.isIn (.column 1 "qty") [.text "3"], withItems, Prod.ext (by rfl) ?_, by rfl⟩
    decide +kernel
  · exact absurd ((h 1).2 (Or.inl List.mem_cons_self)) List.not_mem_nil

end Shop

/-! ## Exclusion through a relation -/

namespace Context

variable {ctx : Context} {st : Store} {clause : Clause} {joins : List Attribute} {b : Binding}
  {selector : String} {arguments : List String}

/-- An exclusion through a relation asks that none of the values be found. -/
theorem asks_isNotIn (hop : clause.operator = .isNotIn) (hb : b ∈ st.rows ctx.schema.entity)
    (hnav : 2 ≤ clause.selector.navigation.length)
    (hid : clause.selector.field.identifier = (ctx.model.entity ctx.schema.entity).primaryKey) :
    ctx.Asks st clause joins b ↔ ¬ ctx.FindsOneOf st clause joins clause.values b := by
  have hsimple : clause.selector.isSimple ≠ true := by
    simp only [ResolvedSelector.isSimple, ne_eq, beq_iff_eq]
    omega
  simp only [Asks, Clause.lower, hop, Clause.lowerNotIn, if_neg hsimple, finds_iff hb hid]
  rfl

/-- **An exclusion through a relation is the complement of the membership.** On a well-formed store
both select some records. Where the sub-query is tied by the primary key, the exclusion selects the
stored records that the membership does not select, whatever the values, what is related and the
key of a map. -/
theorem isNotIn_complements (hst : st.WellFormed ctx.model)
    (hplan : ctx.schema.plan ctx.model ⟨selector, Operator.isIn.symbol, arguments⟩ =
      (joins, .ok clause))
    (hnav : 2 ≤ clause.selector.navigation.length)
    (hid : clause.selector.field.identifier = (ctx.model.entity ctx.schema.entity).primaryKey) :
    ∃ inside outside, ctx.Answers st (.compareMany .isIn selector arguments) inside ∧
      ctx.Answers st (.compareMany .isNotIn selector arguments) outside ∧
      ∀ id, id ∈ outside ↔ (st.record? ctx.schema.entity id).isSome ∧ id ∉ inside := by
  obtain ⟨inside, hinside, hmem⟩ := answers_isIn hst hplan
  obtain ⟨outside, houtside, hmem'⟩ := answers_of_plan hst (Schema.plan_operator .isNotIn hplan).2
  have hout : ∀ id, id ∈ outside ↔ st.Where ctx.schema.entity
      (fun b => ¬ ctx.FindsOneOf st clause joins clause.values b) id := by
    intro id
    refine (hmem' id).trans (Store.where_congr (fun b hb => ?_) id)
    exact asks_isNotIn rfl hb hnav hid
  exact ⟨inside, outside, hinside, houtside, (complements_iff hmem hout).2 fun _ _ => Iff.rfl⟩

end Context

namespace Shop

theorem twoOrThree_complemented :
    ∃ inside outside,
      anyCase.Answers store (.compareMany .isIn "item.qty" ["2", "3"]) inside ∧
      anyCase.Answers store (.compareMany .isNotIn "item.qty" ["2", "3"]) outside ∧
      ∀ id, id ∈ outside ↔ (store.record? "Order" id).isSome ∧ id ∉ inside := by
  have hplan : anyCase.schema.plan anyCase.model
      ⟨"item.qty", Operator.isIn.symbol, ["2", "3"]⟩ = ([items], .ok
        { quantity "2" with operator := .isIn, values := [.text "2", .text "3"] }) := by
    rfl
  exact Context.isNotIn_complements store_wellFormed hplan (by decide) (by decide)

end Shop

end EntityFilter
