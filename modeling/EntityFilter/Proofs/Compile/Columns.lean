import EntityFilter.Proofs.Compile.Elements
import EntityFilter.Proofs.Compile.Failures

/-!
# Columns of the root

An attribute of the root that holds one scalar is read in place. What a comparison of it lists is
decided record by record, by the value in the column, on every store.

* `Value.OfType`, `Store.ColumnOf`: the values of a type, and a column that holds no others.
* `Value.equals_ofType`: between values of one type, to be equal is to be the same.
* `Clause.OfColumn`, `Context.lists_column`: what a comparison of a column lists.
* `Clause.takes_negation_iff`: a value passes a test or the negation of it.
* `Context.negation_partitions`: so a comparison and its negation part the records.
-/

namespace EntityFilter

open Query

/-! ## Values of a type -/

/-- **The values of a type**, of an enumeration its own constants. NULL has no type. -/
inductive Value.OfType : ScalarType → Value → Prop
  | bool (b : Bool) : OfType .bool (.bool b)
  | int (n : Int) : OfType .int (.int n)
  | text (t : String) : OfType .text (.text t)
  | constant (variant name : String) : OfType (.enumeration name) (.constant variant name)

/-- **A column holds values of a type, or NULL.** -/
def Store.ColumnOf (st : Store) (m : Model) (entity name : String) (type : ScalarType) : Prop :=
  ∀ id record, st.record? entity id = some record →
    m.attributeValue entity id record name = .null ∨
      Value.OfType type (m.attributeValue entity id record name)

namespace Value

variable {type : ScalarType} {v w : Value} {vs : List Value}

theorem isNull_iff : v.isNull = true ↔ v = .null := by
  cases v <;> simp [isNull]

theorem OfType.ne_null (h : OfType type v) : v ≠ .null := by
  rintro rfl
  cases h

/-- **Between values of one type, to be equal is to be the same**, and it is never unknown. -/
theorem equals_ofType (hv : OfType type v) (hw : OfType type w) :
    v.equals w = .ofBool (decide (v = w)) := by
  have same : ∀ {κ : Type} [Ord κ] [Std.LawfulEqOrd κ] [DecidableEq κ] (a b : κ),
      (Ord.compare a b == .eq) = decide (a = b) := by
    intro κ _ _ _ a b
    rw [Bool.eq_iff_iff, beq_iff_eq, decide_eq_true_eq, Std.LawfulEqCmp.compare_eq_iff_eq]
  cases hv <;> cases hw <;>
    simp [equals, order?, orderWithText?, Truth.ofOption, same]

/-- A value is one of a list of values of its type, or it is not. -/
theorem isOneOf_ofType (hv : OfType type v) (hvs : ∀ w ∈ vs, OfType type w) :
    v.isOneOf vs = .ofBool (decide (v ∈ vs)) := by
  have hfold : vs.foldr (fun w t => (v.equals w).disj t) .no = .ofBool (decide (v ∈ vs)) := by
    induction vs with
    | nil => rfl
    | cons w vs ih =>
      obtain ⟨hw, hvs⟩ := List.forall_mem_cons.1 hvs
      rw [List.foldr_cons, ih hvs, equals_ofType hv hw]
      by_cases h : v = w <;> by_cases h' : v ∈ vs <;> simp [h, h', Truth.ofBool, Truth.disj]
  unfold isOneOf
  cases hv <;> exact hfold

end Value

/-! ## Tests and their negations -/

theorem Truth.ofBool_ne_unknown {b : Bool} : Truth.ofBool b ≠ .unknown := by
  cases b <;> exact nofun

/-- What is known is either true or false. -/
theorem Truth.not_eq_yes {t : Truth} (h : t ≠ .unknown) : t.not = .yes ↔ t ≠ .yes := by
  cases t with
  | unknown => exact absurd rfl h
  | no => simp [not]
  | yes => simp [not]

namespace Predicate

variable {m : Model} {d : Dialect} {b : Binding} {e : Expr} {p p' : Predicate}
  {f : Value → Truth}

/-- **A negated test holds where the test does not**, if its outcome is known. -/
theorem holds_negated (h : test? d p = some (e, f))
    (h' : test? d p' = some (e, fun v => (f v).not)) (hknown : f (e.valueIn m b) ≠ .unknown) :
    p'.Holds m d b ↔ ¬ p.Holds m d b := by
  rw [holds_of_test? h', holds_of_test? h]
  exact Truth.not_eq_yes hknown

theorem holds_not (h : test? d p = some (e, f)) (hknown : f (e.valueIn m b) ≠ .unknown) :
    (Predicate.not p).Holds m d b ↔ ¬ p.Holds m d b := by
  have hvalue : p.value m d (fun _ _ => false) (fun _ => some b) = f (e.valueIn m b) := by
    rw [value_of_test? h, Expr.value_eq rfl]
  rw [Holds, Holds, value, hvalue]
  exact Truth.not_eq_yes hknown

/-- A disjunction with the test for NULL. -/
theorem holds_or_isNull :
    (Predicate.or [.isNull e, p]).Holds m d b ↔ e.valueIn m b = .null ∨ p.Holds m d b := by
  have hnull : (Predicate.isNull e).Holds m d b ↔ e.valueIn m b = .null := by
    rw [holds_of_test? rfl, Truth.ofBool_eq_yes, Value.isNull_iff]
  rw [← hnull]
  simp only [Holds, value, valueOfAny_eq_yes, List.mem_cons, List.not_mem_nil, or_false,
    exists_eq_or_imp, exists_eq_left]

/-- A conjunction with the negated test for NULL. -/
theorem holds_and_isNotNull :
    (Predicate.and [.isNotNull e, p]).Holds m d b ↔ e.valueIn m b ≠ .null ∧ p.Holds m d b := by
  have hnull : (Predicate.isNotNull e).Holds m d b ↔ e.valueIn m b ≠ .null := by
    rw [holds_of_test? rfl, Truth.ofBool_eq_yes, Bool.not_eq_true', ← Bool.not_eq_true,
      Value.isNull_iff]
  rw [← hnull]
  simp only [Holds, value, valueOfAll_eq_yes, List.forall_mem_cons, List.not_mem_nil,
    false_imp_iff, implies_true, and_true]

end Predicate

namespace Settings

variable {m : Model} {d : Dialect} {b : Binding} {e : Expr} {type : ScalarType} {v : Value}
  {vs : List Value} (s : Settings)

/-- A text is compared as a text. -/
theorem valueIn_caseExpr_text {t : String} (h : e.valueIn m b = .text t) :
    (s.caseExpr e).valueIn m b = .text (s.caseText t) := by
  unfold caseExpr caseText
  split
  · rw [Expr.valueIn_upper, h]
    rfl
  · exact h

/-- **A text passes the test for a text or the negated one.** -/
theorem holds_notTextTest {t w : String} (h : e.valueIn m b = .text t) :
    (s.notTextTest e w).Holds m d b ↔ ¬ (s.textTest e w).Holds m d b := by
  have hcase := s.valueIn_caseExpr_text h
  unfold notTextTest textTest
  split
  · refine Predicate.holds_negated rfl rfl ?_
    rw [hcase]
    exact Truth.ofBool_ne_unknown
  · refine Predicate.holds_negated rfl rfl ?_
    rw [hcase, Value.equals_ofType (.text _) (.text _)]
    exact Truth.ofBool_ne_unknown

/-- **A value passes the test for a value of its type or the negated one**, unless a numeral is
compared as it stands by the one and in upper case by the other. -/
theorem holds_notEqualTest {w : Value} (hv : Value.OfType type (e.valueIn m b))
    (hw : Value.OfType type w) (hempty : w ≠ .text "")
    (hnum : ∀ t, s.ignoreCase = true → w = .text t → Text.isNumeral t = false) :
    (s.notEqualTest e w).Holds m d b ↔ ¬ (s.equalTest e w).Holds m d b := by
  have hknown : (e.valueIn m b).equals w ≠ .unknown := by
    rw [Value.equals_ofType hv hw]
    exact Truth.ofBool_ne_unknown
  cases hw with
  | text w =>
    have hne : w ≠ "" := fun h => hempty (h ▸ rfl)
    simp only [notEqualTest, equalTest, if_neg hne]
    split
    · -- a numeral is compared as it stands
      rename_i hw
      have hcase : s.ignoreCase ≠ true := fun hc => by simp [hnum w hc rfl] at hw
      have hexpr : s.caseExpr e = e := if_neg hcase
      have htext : s.caseText w = w := if_neg hcase
      rw [hexpr, htext]
      exact Predicate.holds_negated rfl rfl hknown
    · generalize hx : e.valueIn m b = x at hv
      cases hv
      exact s.holds_notTextTest hx
  | _ => exact Predicate.holds_negated rfl rfl hknown

/-- NULL passes the test for nothing but NULL and the empty text. -/
theorem not_holds_equalTest_null {w : Value} (h : e.valueIn m b = .null) (hnull : w ≠ .null)
    (hempty : w ≠ .text "") : ¬ (s.equalTest e w).Holds m d b := by
  cases w with
  | null => exact absurd rfl hnull
  | text t => exact s.not_holds_equalTest (fun ht => hempty (ht ▸ rfl)) h
  | _ =>
    intro hholds
    have hequal := (Predicate.holds_equal e _).1 hholds
    rw [h, Value.null_equals] at hequal
    cases hequal

/-- The empty text is not told apart from NULL. -/
theorem holds_not_empty (hv : e.valueIn m b = .null ∨ Value.OfType .text (e.valueIn m b)) :
    (Predicate.and [.isNotNull e, .notEqual e (.text "")]).Holds m d b ↔
      ¬ (s.equalTest e (.text "")).Holds m d b := by
  have htest : s.equalTest e (.text "") = .or [.isNull e, .equal e (.text "")] := rfl
  rw [htest, Predicate.holds_and_isNotNull, Predicate.holds_or_isNull, not_or]
  refine and_congr_right fun hne => Predicate.holds_negated rfl rfl ?_
  rw [Value.equals_ofType (hv.resolve_left hne) (.text _)]
  exact Truth.ofBool_ne_unknown

/-- **A value passes the test for a list of values of its type or the negated one.** -/
theorem holds_not_isInTest (hv : Value.OfType type (e.valueIn m b))
    (hvs : ∀ w ∈ vs, Value.OfType type w) :
    (Predicate.not (s.isInTest e vs)).Holds m d b ↔ ¬ (s.isInTest e vs).Holds m d b := by
  by_cases hall : ∀ w ∈ vs, w.text? = none
  · rw [s.isInTest_native e hall]
    refine Predicate.holds_not rfl ?_
    rw [Value.isOneOf_ofType hv hvs]
    exact Truth.ofBool_ne_unknown
  · -- with a text in the list, the column is one of texts
    obtain ⟨t, ht⟩ := Value.exists_text hall
    rw [s.isInTest_texts e ht]
    refine Predicate.holds_not rfl ?_
    have htype := hvs _ ht
    generalize hx : e.valueIn m b = x at hv
    cases htype
    cases hv
    rw [s.valueIn_caseExpr_text hx, Value.isOneOf_ofType (.text _) fun w hw => ?_]
    · exact Truth.ofBool_ne_unknown
    · obtain ⟨t', -, rfl⟩ := List.mem_map.1 hw
      exact .text _

end Settings

namespace Clause

variable {c : Clause} {s : Settings} {replace : String → String} {d : Dialect} {op neg : Operator}
  {type : ScalarType} {v : Value}

/-- **A value passes a test or the negation of it**, and NULL too. -/
theorem takes_negation_iff (hneg : op.Negates neg) (hop : c.operator = op)
    (hvalue : Value.OfType type c.value) (hvalues : ∀ w ∈ c.values, Value.OfType type w)
    (hnum : op = .equal → ∀ t, s.ignoreCase = true → c.value = .text t → Text.isNumeral t = false)
    (hv : v = .null ∨ Value.OfType type v) :
    ({ c with operator := neg } : Clause).Takes s replace d v ↔ ¬ c.Takes s replace d v := by
  have hread : (Expr.element root).valueIn default (.element v) = v := rfl
  unfold Takes test
  cases hneg with
  | isIn =>
    rw [hop]
    simp only
    rw [Predicate.holds_or_isNull, hread]
    rcases hv with rfl | hv
    · exact iff_of_true (Or.inl rfl) (s.not_holds_isInTest hread)
    · rw [s.holds_not_isInTest hv hvalues, or_iff_right hv.ne_null]
  | equal =>
    rw [hop]
    simp only
    unfold testNotEqual
    rw [if_neg hvalue.ne_null]
    split
    · rename_i hempty
      rw [hempty] at hvalue ⊢
      cases hvalue
      exact s.holds_not_empty hv
    · rename_i hempty
      rw [Predicate.holds_or_isNull, hread]
      rcases hv with rfl | hv
      · exact iff_of_true (Or.inl rfl) (s.not_holds_equalTest_null hread hvalue.ne_null hempty)
      · rw [s.holds_notEqualTest hv hvalue hempty (hnum rfl), or_iff_right hv.ne_null]

end Clause

/-! ## What is listed -/

/-- An argument for a type other than that of numbers is a value of the type. -/
theorem Field.readArgument_ofType {m : Model} {f : Field} {selector raw : String}
    {type : ScalarType} {v : Value} (hconv : f.converter = none) (hint : type ≠ .int)
    (h : f.readArgument m selector (some type) raw = .ok v) : Value.OfType type v := by
  unfold readArgument at h
  rw [hconv] at h
  cases type with
  | int => exact absurd rfl hint
  | text =>
    obtain rfl := Except.ok.inj h
    exact .text raw
  | bool =>
    simp only at h
    split at h
    · obtain rfl := Except.ok.inj h
      exact .bool _
    · cases h
  | enumeration name =>
    simp only at h
    split at h
    · obtain rfl := Except.ok.inj h
      exact .constant _ name
    · cases h

/-- **A clause compares a column of the root**: its path is a basic attribute. -/
structure Clause.OfColumn (clause : Clause) : Prop where
  basic : clause.terminal.kind.isBasic = true
  simple : clause.selector.isSimple = true
  shape : clause.selector.shape = none
  key : clause.selector.mapKey = none

namespace Context

variable {ctx : Context} {st : Store} {clause : Clause} {joins : List Attribute} {c : Comparison}
  {f : Filter} {ids : List Int} {op neg : Operator} {selector : String} {arguments : List String}
  {type : ScalarType}

/-- **A filter lists some records**, on a query of its own, as often as they are found. -/
def Lists (ctx : Context) (st : Store) (f : Filter) (ids : List Int) : Prop :=
  ∃ predicate q, (recordsOf ctx.schema.entity).compile ctx f = (.ok predicate, q) ∧
    Store.select ctx.model st q predicate = .ok ids

theorem Lists.answers (h : ctx.Lists st f ids) : ctx.Answers st f (distinct ids) := by
  obtain ⟨predicate, q, hcompile, hselect⟩ := h
  exact ⟨predicate, q, hcompile, congrArg (Except.map distinct) hselect⟩

/-- A comparison with a path of one basic attribute compares a column, and joins nothing. -/
theorem ofColumn_of_plan {entity : String} {fields : List Field}
    (hreg : Schema.register ctx.model entity fields = .ok ctx.schema)
    (hplan : ctx.schema.plan ctx.model c = (joins, .ok clause))
    (hsimple : clause.selector.isSimple = true) (hbasic : clause.terminal.kind.isBasic = true) :
    clause.OfColumn ∧ joins = [] := by
  obtain ⟨hjoins, hchecks⟩ := Schema.plan_eq_ok_iff.1 hplan
  have hroute := (hchecks.simple hsimple).2
  rw [hbasic] at hroute
  have hplain : clause.selector.shape = none ∧ clause.selector.mapKey = none := by
    cases Schema.ending_of_plan hreg (congrArg Prod.snd hplan) with
    | plain hs hkey => exact ⟨hs, hkey⟩
    | native _ _ hk => simp [hk, Kind.isBasic] at hbasic
    | entries _ _ hk => simp [hk] at hbasic
  exact ⟨⟨hbasic, hsimple, hplain.1, hplain.2⟩, hjoins.trans hroute⟩

/-- **A comparison of a column lists the records whose value passes its test**, each once, on every
store. -/
theorem lists_column (st : Store) (hc : clause.OfColumn)
    (hplan : ctx.schema.plan ctx.model c = ([], .ok clause)) :
    ∃ ids, ctx.Lists st (.comparison c) ids ∧
      ids.Sublist ((st.table ctx.schema.entity).entries.map Prod.fst) ∧
      ∀ id record, st.record? ctx.schema.entity id = some record →
        (id ∈ ids ↔ clause.Takes ctx.settings ctx.replace st.dialect
          (ctx.model.attributeValue ctx.schema.entity id record clause.terminal.name)) := by
  obtain ⟨type, hk⟩ := (Kind.isBasic_iff _).1 hc.basic
  have hreading : Reading.ofSource clause.selector.shape clause.terminal root =
      ⟨.column root clause.terminal.name, none⟩ := by
    simp only [hc.shape, Reading.ofSource, hk]
  have hlower : clause.lower ctx.settings ctx.replace
      (Reading.ofSource clause.selector.shape clause.terminal root) =
        .inPlace (clause.test ctx.settings ctx.replace (.column root clause.terminal.name)) := by
    rw [Clause.lower_simple _ _ _ hc.simple, hreading]
    rfl
  have hlocal := Clause.local_of_inPlace (Reading.ofSource_at _ _ root) hlower
  obtain ⟨ids, hselect, hsub, hids⟩ :=
    Store.select_local (m := ctx.model) (s := st) (e := ctx.schema.entity) hlocal
  refine ⟨ids, ⟨_, _, compile_local hplan hlower, hselect⟩, hsub, fun id record hrecord => ?_⟩
  rw [hids id record hrecord, Clause.holds_test]
  rfl

/-- The values of a comparison of a column without conversion are of the type of the column, and a
text is the first argument as written. -/
theorem values_ofType (hplan : ctx.schema.plan ctx.model c = (joins, .ok clause))
    (hshape : clause.selector.shape = none) (hk : clause.terminal.kind = .basic type)
    (hint : type ≠ .int) (hconv : clause.selector.field.converter = none) :
    Value.OfType type clause.value ∧ (∀ w ∈ clause.values, Value.OfType type w) ∧
      ∀ t, clause.value = .text t → t = clause.raw := by
  have hchecks := (Schema.plan_eq_ok_iff.1 hplan).2
  have htype : ctx.model.comparedType? clause.selector.shape clause.terminal = some type := by
    simp only [hshape, Model.comparedType?, hk, Kind.scalarType?]
  have hvalues : ∀ w ∈ clause.values, Value.OfType type w := by
    intro w hw
    obtain ⟨raw, -, hread⟩ := hchecks.exists_argument hw
    rw [htype] at hread
    exact Field.readArgument_ofType hconv hint hread
  refine ⟨hvalues _ (List.mem_of_head? hchecks.value), hvalues, fun t ht => ?_⟩
  obtain ⟨rest, hrest⟩ := List.head?_eq_some_iff.1 hchecks.raw
  obtain ⟨more, hmore⟩ := List.head?_eq_some_iff.1 hchecks.value
  have hread := hchecks.values
  rw [hrest, hmore, List.forall₂_cons, htype, ht] at hread
  have htext := Field.readArgument_ofType hconv hint hread.1
  cases htext
  rw [Field.readArgument_text (Or.inl rfl) hconv] at hread
  exact (Value.text.inj (Except.ok.inj hread.1)).symm

/-- **A comparison and its negation part the records.** The path is a basic attribute of the root of
any type but that of numbers, and the field has no conversion. Then on every store whose column holds
values of the type or NULL, whatever the settings, the two list every record once, either the one or
the other, but for an equality with a numeral where case is ignored. -/
theorem negation_partitions {entity : String} {fields : List Field}
    (hreg : Schema.register ctx.model entity fields = .ok ctx.schema) (hneg : op.Negates neg)
    (hplan : ctx.schema.plan ctx.model ⟨selector, op.symbol, arguments⟩ = (joins, .ok clause))
    (hsimple : clause.selector.isSimple = true) (hk : clause.terminal.kind = .basic type)
    (hint : type ≠ .int) (hconv : clause.selector.field.converter = none)
    (hcolumn : st.ColumnOf ctx.model ctx.schema.entity clause.terminal.name type)
    (hnum : op = .equal → ctx.settings.ignoreCase = true → Text.isNumeral clause.raw = false) :
    ∃ selected negated, ctx.Lists st (.compareMany op selector arguments) selected ∧
      ctx.Lists st (.compareMany neg selector arguments) negated ∧ (selected ++ negated).Nodup ∧
      ∀ id, id ∈ selected ++ negated ↔ (st.record? ctx.schema.entity id).isSome := by
  have hbasic : clause.terminal.kind.isBasic = true := by rw [hk]; rfl
  obtain ⟨hc, rfl⟩ := ofColumn_of_plan hreg hplan hsimple hbasic
  have hc' : ({ clause with operator := neg } : Clause).OfColumn :=
    ⟨hc.basic, hc.simple, hc.shape, hc.key⟩
  obtain ⟨hop, hplan'⟩ := Schema.plan_operator neg hplan
  obtain ⟨hvalue, hvalues, hraw⟩ := values_ofType hplan hc.shape hk hint hconv
  obtain ⟨selected, hselected, hsub, hmem⟩ := lists_column st hc hplan
  obtain ⟨negated, hnegated, hsub', hmem'⟩ := lists_column st hc' hplan'
  -- a record is listed by the negation if and only if the comparison does not list it
  have hparts : ∀ id record, st.record? ctx.schema.entity id = some record →
      (id ∈ negated ↔ id ∉ selected) := by
    intro id record hrecord
    rw [hmem id record hrecord, hmem' id record hrecord]
    refine Clause.takes_negation_iff hneg hop hvalue hvalues (fun hequal t hcase ht => ?_)
      (hcolumn id record hrecord)
    rw [hraw t ht]
    exact hnum hequal hcase
  have hstored : ∀ {ids : List Int}, ids.Sublist ((st.table ctx.schema.entity).entries.map
      Prod.fst) → ∀ id ∈ ids, ∃ record, st.record? ctx.schema.entity id = some record := by
    intro ids hids id hid
    obtain ⟨⟨_, record⟩, hentry, rfl⟩ := List.mem_map.1 (hids.subset hid)
    exact ⟨record, OrderedMap.find?_of_mem hentry⟩
  have hnodup := st.nodup_entries ctx.schema.entity
  refine ⟨selected, negated, hselected, hnegated, ?_, fun id => ?_⟩
  · refine List.nodup_append.2 ⟨hsub.nodup hnodup, hsub'.nodup hnodup, ?_⟩
    rintro id hid _ hid' rfl
    obtain ⟨record, hrecord⟩ := hstored hsub id hid
    exact (hparts id record hrecord).1 hid' hid
  · rw [List.mem_append, Option.isSome_iff_exists]
    constructor
    · rintro (hid | hid)
      · exact hstored hsub id hid
      · exact hstored hsub' id hid
    · rintro ⟨record, hrecord⟩
      rw [hparts id record hrecord]
      exact Classical.em _

end Context

namespace Shop

/-- The names of the customers of the store. -/
theorem namedCustomers_names {id : Int} {record : Record}
    (h : namedCustomers.record? "Customer" id = some record) :
    named.model.attributeValue "Customer" id record "name" ∈
      [Value.null, .text "5star_hotel", .text "5*_hotel"] := by
  simp only [namedCustomers, Store.record?_insert] at h
  split at h
  · obtain rfl := Option.some.inj h
    exact .head _
  · split at h
    · obtain rfl := Option.some.inj h
      exact .tail _ (.head _)
    · split at h
      · obtain rfl := Option.some.inj h
        exact .tail _ (.tail _ (.head _))
      · cases h

theorem namedCustomers_column : namedCustomers.ColumnOf named.model "Customer" "name" .text := by
  intro id record hrecord
  have hname := namedCustomers_names hrecord
  simp only [List.mem_cons, List.not_mem_nil, or_false] at hname
  rcases hname with h | h | h <;> rw [h]
  · exact Or.inl rfl
  · exact Or.inr (.text _)
  · exact Or.inr (.text _)

/-- Customers may be filtered by their names, in either case. -/
def namedAnyCase : Context :=
  { named with settings := ⟨true, .standard⟩ }

/-- The clause for a name. -/
def nameIs (name : String) : Clause :=
  ⟨⟨⟨byName, ["name"], none⟩, [], none⟩, ⟨"name", .basic .text⟩, .equal, name, .text name,
    [.text name]⟩

theorem customers_partitioned :
    ∃ selected negated,
      namedAnyCase.Lists namedCustomers (.compareMany .equal "name" ["5STAR_hotel"]) selected ∧
      namedAnyCase.Lists namedCustomers (.compareMany .notEqual "name" ["5STAR_hotel"]) negated ∧
      (selected ++ negated).Nodup ∧
      ∀ id, id ∈ selected ++ negated ↔ (namedCustomers.record? "Customer" id).isSome := by
  have hreg : Schema.register namedAnyCase.model "Customer" [byName] = .ok namedAnyCase.schema := by
    rfl
  have hplan : namedAnyCase.schema.plan namedAnyCase.model
      ⟨"name", Operator.equal.symbol, ["5STAR_hotel"]⟩ = ([], .ok (nameIs "5STAR_hotel")) := by rfl
  have hnum : Text.isNumeral "5STAR_hotel" = false := by decide
  exact Context.negation_partitions hreg .equal hplan rfl rfl (by decide) rfl namedCustomers_column
    fun _ _ => hnum

end Shop

end EntityFilter
