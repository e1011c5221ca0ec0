import EntityFilter.Proofs.Compile.Answers
import EntityFilter.Proofs.Compile.Declared

/-!
# Negations through a relation

A negation through a relation looks for the value in a sub-query, with a test of its own. It is the
complement of the comparison if that test and the test of the comparison find the value for the same
records.

* `Schema.plan_operator`: the operator makes no difference to the check of a comparison.
* `Settings.demandTest_equal`: the two tests are one, save for numerals where case is ignored.
* `Clause.Related`, `Context.NumeralsAlike`: what a clause compares, and what is asked of numerals.
* `Context.notEqual_complements_iff`: exactly then a negation is the complement.
* `Shop.zeroTwo_overlap`: a numeral for which it is not, where case is ignored.
-/

namespace EntityFilter

open Query

/-! ## Two tests of a value -/

namespace Schema

variable {m : Model} {s : Schema} {selector : String} {op : Operator} {arguments : List String}
  {clause : Clause}

theorem clause_operator {r : ResolvedSelector} {route : Route} (op' : Operator)
    (h : Schema.clause m ⟨selector, op.symbol, arguments⟩ r route = .ok clause) :
    clause.operator = op ∧ Schema.clause m ⟨selector, op'.symbol, arguments⟩ r route =
      .ok { clause with operator := op' } := by
  obtain ⟨terminal, hending, h⟩ := bind_eq_ok.1 h
  obtain ⟨values, hvalues, h⟩ := bind_eq_ok.1 h
  simp only [Operator.ofSymbol?_symbol] at h
  cases arguments with
  | nil => cases h
  | cons raw rest =>
    cases values with
    | nil => cases h
    | cons value values =>
      obtain rfl := Except.ok.inj h
      refine ⟨rfl, bind_eq_ok.2 ⟨terminal, hending, bind_eq_ok.2 ⟨_, hvalues, ?_⟩⟩⟩
      rw [Operator.ofSymbol?_symbol]
      rfl

/-- **Comparisons that differ in the operator alone** are checked alike. -/
theorem plan_operator {joins : List Attribute} (op' : Operator)
    (h : s.plan m ⟨selector, op.symbol, arguments⟩ = (joins, .ok clause)) :
    clause.operator = op ∧ s.plan m ⟨selector, op'.symbol, arguments⟩ =
      (joins, .ok { clause with operator := op' }) := by
  unfold plan at h ⊢
  cases hr : s.resolve selector with
  | error e =>
    simp [hr] at h
  | ok r =>
    simp only [hr, Prod.mk.injEq] at h ⊢
    obtain ⟨hop, hclause⟩ := clause_operator op' h.2
    exact ⟨hop, h.1, hclause⟩

end Schema

namespace Settings

variable {m : Model} {d : Dialect} {b : Binding} (s : Settings)

/-- A test in place with a map key is passed if the entry has the key and passes the test. -/
theorem holds_withKey (r : Reading) (key : Option String) (p : Predicate) :
    (s.withKey r key p).Holds m d b ↔
      (∀ test ∈ s.keyTest r key, test.Holds m d b) ∧ p.Holds m d b := by
  unfold withKey
  split
  · rename_i hnil
    simp [hnil]
  · simp only [Predicate.Holds, Predicate.value, Predicate.valueOfAll_eq_yes,
      List.forall_mem_append, List.forall_mem_singleton]

/-- **The test of a negation is that of the comparison**, save for numerals where case is
ignored. -/
theorem demandTest_equal {e : Expr} {v : Value} (hnull : v ≠ .null) (hempty : v ≠ .text "")
    (h : ∀ t, s.ignoreCase = true → v = .text t → Text.isNumeral t = false) :
    s.demandTest e (.equal v) = s.equalTest e v := by
  cases v with
  | null => exact absurd rfl hnull
  | text t =>
    have ht : t ≠ "" := fun ht => hempty (ht ▸ rfl)
    simp only [demandTest, equalTest, if_neg ht]
    cases hn : Text.isNumeral t with
    | false => rfl
    | true =>
      have hcase : s.ignoreCase ≠ true := fun hc => by simp [h t hc rfl] at hn
      simp [caseExpr, caseText, hcase]
  | _ => rfl

end Settings

section Tests

variable {m : Model} {d : Dialect} {b : Binding}

theorem Predicate.holds_equal (e : Expr) (v : Value) :
    (Predicate.equal e v).Holds m d b ↔ (e.valueIn m b).equals v = .yes := Iff.rfl

theorem Value.equals_text_upper {e : Expr} {t : String} :
    ((Expr.upper e).valueIn m b).equals (.text t) = .yes ↔
      e.valueIn m b ≠ .null ∧ Text.upper (e.valueIn m b).asText = t := by
  have texts : ∀ s : String, (Value.text s).equals (.text t) = .yes ↔ s = t := by
    intro s
    simp [equals, order?, orderWithText?, Truth.ofOption]
  cases hv : e.valueIn m b with
  | null => simp [Expr.valueIn, hv, equals, order?, orderWithText?, Truth.ofOption]
  | _ => simp [Expr.valueIn, hv, texts]

end Tests

/-! ## What is found -/

/-- **What a clause compares for a record of the root**: what stands at the end of its path, of a
map the entries with its key. -/
def Clause.Related (m : Model) (st : Store) (settings : Settings) (clause : Clause)
    (joins : List Attribute) (b c : Binding) : Prop :=
  Ends st b joins c ∧
    ∀ test ∈ settings.keyTest (Reading.ofSource clause.selector.shape clause.terminal root)
      clause.selector.mapKey, test.Holds m st.dialect c

/-- Something that a clause compares for a record of the root passes a test. -/
def Clause.Passes (m : Model) (st : Store) (settings : Settings) (clause : Clause)
    (joins : List Attribute) (test : Predicate) (b : Binding) : Prop :=
  ∃ c, clause.Related m st settings joins b c ∧ test.Holds m st.dialect c

/-- The expression that a clause compares, read from the end of its path. -/
def Clause.compared (clause : Clause) : Expr :=
  (Reading.ofSource clause.selector.shape clause.terminal root).value

namespace Context

variable {ctx : Context} {st : Store} {clause : Clause} {joins : List Attribute} {b : Binding}
  {c : Comparison}

/-- **Numerals are found alike** in either way: if case is ignored and the value is a numeral, then
something related to a record equals the numeral as it stands if and only if something related to
the record has the text of the numeral in upper case. -/
def NumeralsAlike (ctx : Context) (st : Store) (clause : Clause) (joins : List Attribute) : Prop :=
  ctx.settings.ignoreCase = true → ∀ t, clause.value = .text t → Text.isNumeral t = true →
    ∀ b ∈ st.rows ctx.schema.entity,
      (∃ c, clause.Related ctx.model st ctx.settings joins b c ∧
        (clause.compared.valueIn ctx.model c).equals (.text t) = .yes) ↔
      ∃ c, clause.Related ctx.model st ctx.settings joins b c ∧
        clause.compared.valueIn ctx.model c ≠ .null ∧
        Text.upper (clause.compared.valueIn ctx.model c).asText = Text.upper t

/-- The answer of a comparison that passes its check has the records that meet it. -/
theorem answers_of_plan (hst : st.WellFormed ctx.model)
    (h : ctx.schema.plan ctx.model c = (joins, .ok clause)) :
    ∃ ids, ctx.Answers st (.comparison c) ids ∧
      ∀ id, id ∈ ids ↔ ∃ record, st.record? ctx.schema.entity id = some record ∧
        ctx.Asks st clause joins (.row ctx.schema.entity id record) := by
  obtain ⟨predicate, hok⟩ := compile_comparison (congrArg Prod.snd h)
  obtain ⟨ids, hids, -, hmem⟩ := answers_of_ok hst hok
  refine ⟨ids, hids, fun id => (hmem id).trans ?_⟩
  refine exists_congr fun record => and_congr_right fun _ => ?_
  simp [Filter.Reading, Meets, h]

/-- A comparison asks for something related that is equal. -/
theorem asks_equal (hop : clause.operator = .equal) : ctx.Asks st clause joins b ↔
    clause.Passes ctx.model st ctx.settings joins
      (ctx.settings.equalTest clause.compared clause.value) b := by
  simp only [Asks, Clause.lower, hop, Settings.holds_withKey, Clause.Passes, Clause.Related,
    and_assoc]
  rfl

/-- The record of the root is the one with its identifier, if the sub-query is tied by that. -/
theorem finds_iff {demand : Demand} (hb : b ∈ st.rows ctx.schema.entity)
    (hid : clause.selector.field.identifier = (ctx.model.entity ctx.schema.entity).primaryKey) :
    clause.Finds ctx.model st ctx.settings ctx.schema.entity joins demand b ↔
      clause.Passes ctx.model st ctx.settings joins
        (ctx.settings.demandTest clause.compared demand) b := by
  obtain ⟨id, record, rfl, hrecord⟩ := Store.record?_of_mem_rows hb
  have identifier : ∀ (id : Int) (record : Record),
      (Expr.column root clause.selector.field.identifier).valueIn ctx.model
        (.row ctx.schema.entity id record) = .int id := by
    intro id record
    simp [Expr.valueIn, Model.attributeValue, hid]
  -- two stored records of an entity with the same identifier are one record
  have tied : ∀ {b'}, b' ∈ st.rows ctx.schema.entity →
      (((Expr.column root clause.selector.field.identifier).valueIn ctx.model
        (.row ctx.schema.entity id record)).equals
          ((Expr.column root clause.selector.field.identifier).valueIn ctx.model b') = .yes ↔
        b' = .row ctx.schema.entity id record) := by
    intro b' hb'
    obtain ⟨id', record', rfl, hrecord'⟩ := Store.record?_of_mem_rows hb'
    rw [identifier, identifier]
    simp only [Value.equals, Value.order?, Option.map_some, Truth.ofOption, Truth.ofBool_eq_yes,
      beq_iff_eq, Std.LawfulEqCmp.compare_eq_iff_eq, Binding.row.injEq, true_and]
    constructor
    · rintro rfl
      exact ⟨rfl, Option.some.inj (hrecord'.symm.trans hrecord)⟩
    · rintro ⟨rfl, -⟩
      rfl
  constructor
  · rintro ⟨b', hb', hid', c, hends, htests⟩
    obtain rfl := (tied hb').1 hid'
    obtain ⟨hkeys, htest⟩ := List.forall_mem_append.1 htests
    exact ⟨c, ⟨hends, hkeys⟩, htest _ (List.mem_singleton_self _)⟩
  · rintro ⟨c, ⟨hends, hkeys⟩, htest⟩
    refine ⟨_, hb, (tied hb).2 rfl, c, hends, List.forall_mem_append.2 ⟨hkeys, ?_⟩⟩
    exact List.forall_mem_singleton.2 htest

/-- A negation through a relation asks that nothing related be found. -/
theorem asks_notEqual (hop : clause.operator = .notEqual) (hb : b ∈ st.rows ctx.schema.entity)
    (hnav : 2 ≤ clause.selector.navigation.length)
    (hid : clause.selector.field.identifier = (ctx.model.entity ctx.schema.entity).primaryKey)
    (hnull : clause.value ≠ .null) (hempty : clause.value ≠ .text "") :
    ctx.Asks st clause joins b ↔ ¬ clause.Passes ctx.model st ctx.settings joins
      (ctx.settings.demandTest clause.compared (.equal clause.value)) b := by
  have hsimple : clause.selector.isSimple ≠ true := by
    simp only [ResolvedSelector.isSimple, ne_eq, beq_iff_eq]
    omega
  simp only [Asks, Clause.lower, hop, Clause.lowerNotEqual, if_neg hnull, if_neg hempty,
    if_neg hsimple, finds_iff hb hid]

/-- Two tests find the same records exactly if what one finds and what the other does not find make
up all records. -/
theorem complements_iff {entity : String} {equal unequal : List Int} {A B : Binding → Prop}
    (hequal : ∀ id, id ∈ equal ↔
      ∃ record, st.record? entity id = some record ∧ A (.row entity id record))
    (hunequal : ∀ id, id ∈ unequal ↔
      ∃ record, st.record? entity id = some record ∧ ¬ B (.row entity id record)) :
    (∀ id, id ∈ unequal ↔ (st.record? entity id).isSome ∧ id ∉ equal) ↔
      ∀ b ∈ st.rows entity, A b ↔ B b := by
  constructor
  · intro h b hb
    obtain ⟨id, record, rfl, hrecord⟩ := Store.record?_of_mem_rows hb
    have := h id
    rw [hunequal, hequal, hrecord] at this
    simp only [Option.some.injEq, exists_eq_left', Option.isSome_some, true_and] at this
    exact (not_iff_not.1 this).symm
  · intro h id
    rw [hunequal, hequal]
    cases hrecord : st.record? entity id with
    | none => simp
    | some record => simp [h _ (Store.mem_rows.2 hrecord)]

/-- Numerals are found alike if the two tests of the value are passed for the same records. -/
theorem numeralsAlike_iff (hnull : clause.value ≠ .null) (hempty : clause.value ≠ .text "") :
    (∀ b ∈ st.rows ctx.schema.entity,
      clause.Passes ctx.model st ctx.settings joins
        (ctx.settings.equalTest clause.compared clause.value) b ↔
      clause.Passes ctx.model st ctx.settings joins
        (ctx.settings.demandTest clause.compared (.equal clause.value)) b) ↔
      ctx.NumeralsAlike st clause joins := by
  by_cases hnumeral : ∃ t, ctx.settings.ignoreCase = true ∧ clause.value = .text t ∧
      Text.isNumeral t = true
  · -- the tests differ: one compares the value as it stands, the other one its upper case
    obtain ⟨t, hcase, hvalue, ht⟩ := hnumeral
    have alike : ctx.NumeralsAlike st clause joins ↔ ∀ b ∈ st.rows ctx.schema.entity,
        (∃ c, clause.Related ctx.model st ctx.settings joins b c ∧
          (clause.compared.valueIn ctx.model c).equals (.text t) = .yes) ↔
        ∃ c, clause.Related ctx.model st ctx.settings joins b c ∧
          clause.compared.valueIn ctx.model c ≠ .null ∧
          Text.upper (clause.compared.valueIn ctx.model c).asText = Text.upper t := by
      refine ⟨fun h => h hcase t hvalue ht, fun h _ t' ht' _ => ?_⟩
      obtain rfl := Value.text.inj (hvalue.symm.trans ht')
      exact h
    rw [alike, hvalue]
    simp only [Clause.Passes, Settings.equalTest, Settings.demandTest, Settings.caseExpr,
      Settings.caseText, ht, hcase, if_true, Predicate.holds_equal, Value.equals_text_upper]
  · -- the tests are one, and of other values nothing is asked
    have alike : ctx.NumeralsAlike st clause joins := fun hcase t hvalue ht =>
      absurd ⟨t, hcase, hvalue, ht⟩ hnumeral
    have same := ctx.settings.demandTest_equal (e := clause.compared) hnull hempty
      fun t hcase hvalue => Bool.eq_false_iff.2 fun ht => hnumeral ⟨t, hcase, hvalue, ht⟩
    simp [same, alike]

/-- **A negation through a relation is the complement of the comparison exactly if numerals are
found alike.** On a well-formed store both comparisons select some records. Where the sub-query is
tied by the primary key and the value is neither NULL nor the empty text, the negation selects the
stored records that the comparison does not select, for every kind of value, with wildcards or
without, in either case and in either dialect, but for numerals where case is ignored. -/
theorem notEqual_complements_iff {selector argument : String} (hst : st.WellFormed ctx.model)
    (hplan : ctx.schema.plan ctx.model ⟨selector, Operator.equal.symbol, [argument]⟩ =
      (joins, .ok clause))
    (hnav : 2 ≤ clause.selector.navigation.length)
    (hid : clause.selector.field.identifier = (ctx.model.entity ctx.schema.entity).primaryKey)
    (hnull : clause.value ≠ .null) (hempty : clause.value ≠ .text "") :
    ∃ equal unequal, ctx.Answers st (.compareOne .equal selector argument) equal ∧
      ctx.Answers st (.compareOne .notEqual selector argument) unequal ∧
      ((∀ id, id ∈ unequal ↔ (st.record? ctx.schema.entity id).isSome ∧ id ∉ equal) ↔
        ctx.NumeralsAlike st clause joins) := by
  obtain ⟨hop, hplan'⟩ := Schema.plan_operator .notEqual hplan
  obtain ⟨equal, hequal, hmem⟩ := answers_of_plan hst hplan
  obtain ⟨unequal, hunequal, hmem'⟩ := answers_of_plan hst hplan'
  refine ⟨equal, unequal, hequal, hunequal, ?_⟩
  have found : ∀ id, id ∈ equal ↔ ∃ record, st.record? ctx.schema.entity id = some record ∧
      clause.Passes ctx.model st ctx.settings joins
        (ctx.settings.equalTest clause.compared clause.value)
        (.row ctx.schema.entity id record) := by
    intro id
    rw [hmem]
    exact exists_congr fun record => and_congr_right fun _ => asks_equal hop
  have kept : ∀ id, id ∈ unequal ↔ ∃ record, st.record? ctx.schema.entity id = some record ∧
      ¬ clause.Passes ctx.model st ctx.settings joins
        (ctx.settings.demandTest clause.compared (.equal clause.value))
        (.row ctx.schema.entity id record) := by
    intro id
    rw [hmem']
    refine exists_congr fun record => and_congr_right fun hrecord => ?_
    exact asks_notEqual rfl (Store.mem_rows.2 hrecord) hnav hid hnull hempty
  exact (complements_iff found kept).trans (numeralsAlike_iff hnull hempty)

end Context

namespace Shop

/-- The relation that orders are filtered by. -/
def items : Attribute := ⟨"items", .collection "Item"⟩

/-- The clause for the quantity of items. -/
def quantity (argument : String) : Clause :=
  ⟨⟨⟨⟨"item", "items", ["qty"], false, none, "id", none⟩, ["items"], none⟩, ["qty"], none⟩,
    ⟨"qty", .basic .int⟩, .equal, argument, .text argument, [.text argument]⟩

theorem two_complements :
    ∃ equal unequal, context.Answers store (.compareOne .equal "item.qty" "2") equal ∧
      context.Answers store (.compareOne .notEqual "item.qty" "2") unequal ∧
      ∀ id, id ∈ unequal ↔ (store.record? "Order" id).isSome ∧ id ∉ equal := by
  have hplan : context.schema.plan context.model ⟨"item.qty", Operator.equal.symbol, ["2"]⟩ =
      ([items], .ok (quantity "2")) := by rfl
  obtain ⟨equal, unequal, hequal, hunequal, h⟩ := Context.notEqual_complements_iff store_wellFormed
    hplan (by decide) (by decide) (by decide) (by decide)
  exact ⟨equal, unequal, hequal, hunequal, h.2 fun hcase => by cases hcase⟩

/-- Orders may be filtered by the quantity of their items, in either case. -/
def anyCase : Context := { context with settings := ⟨true, .standard⟩ }

/-- Orders with a join to their items. -/
def withItems : Query :=
  ⟨"Order", [⟨.root "Order", .outer, true, true⟩, ⟨.join 0 items .left, .outer, true, true⟩], []⟩

/-- Orders with a sub-query for their items. -/
def asideItems : Query :=
  ⟨"Order", [⟨.root "Order", .outer, true, true⟩, ⟨.join 0 items .left, .outer, false, false⟩,
    ⟨.root "Order", .subquery 0, true, true⟩, ⟨.join 2 items .left, .subquery 0, true, false⟩],
    [⟨2, .and [.equalExpr (.column 0 "id") (.column 2 "id"),
      .equal (.upper (.column 3 "qty")) (.text "02")]⟩]⟩

/-- **The first order has an item of quantity `02` and is not without one.** The number two equals
the numeral, but its text does not, and the negation compares texts where case is ignored. -/
theorem zeroTwo_overlap :
    store.WellFormed anyCase.model ∧
      anyCase.schema.plan model ⟨"item.qty", Operator.equal.symbol, ["02"]⟩ =
        ([items], .ok (quantity "02")) ∧
      (quantity "02").selector.navigation.length = 2 ∧
      (quantity "02").selector.field.identifier = (model.entity "Order").primaryKey ∧
      anyCase.Answers store (.compareOne .equal "item.qty" "02") [1] ∧
      anyCase.Answers store (.compareOne .notEqual "item.qty" "02") [1, 2] ∧
      ¬ ∀ id, id ∈ [1, 2] ↔ (store.record? "Order" id).isSome ∧ id ∉ [1] := by
  refine ⟨store_wellFormed, by rfl, by decide, by decide, ?_, ?_, fun h => ?_⟩
  · refine ⟨.equal (.column 1 "qty") (.text "02"), withItems, Prod.ext (by rfl) ?_, by rfl⟩
    decide +kernel
  · refine ⟨.not (.hasRow 0), asideItems, Prod.ext (by rfl) ?_, by rfl⟩
    decide +kernel
  · exact ((h 1).1 List.mem_cons_self).2 List.mem_cons_self

end Shop

end EntityFilter
