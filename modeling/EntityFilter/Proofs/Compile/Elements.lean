import EntityFilter.Proofs.Compile.Membership
import EntityFilter.Proofs.Compile.Texts
import EntityFilter.Proofs.Store.Contents

/-!
# Negations over the elements of an attribute

An attribute of the root may hold many elements. A path that is this attribute alone counts as no
way through a relation, so a negation is tested on one element after the other, and one element that
passes is enough.

* `Operator.Negates`: the operators that have a negation.
* `Clause.not_takes_null`: NULL does not pass a test together with its negation.
* `Context.asks_elements`: what a comparison of elements asks for.
* `Context.negation_excludes_iff`: a negation excludes what the comparison selects exactly if no
  record has elements that pass the one and elements that pass the other.
* `Shop.mixed_overlap`: an order with two items that is selected by both.
-/

namespace EntityFilter

open Query

/-! ## Tests of NULL -/

/-- **An operator with its negation.** -/
inductive Operator.Negates : Operator → Operator → Prop
  | equal : Negates .equal .notEqual
  | isIn : Negates .isIn .isNotIn

/-- NULL is NULL in upper case. -/
theorem Settings.valueIn_caseExpr {m : Model} {b : Binding} {e : Expr} (s : Settings)
    (h : e.valueIn m b = .null) : (s.caseExpr e).valueIn m b = .null := by
  unfold caseExpr
  split
  · rw [Expr.valueIn, h]
  · exact h

/-- NULL is in no list. -/
theorem Settings.not_holds_isInTest {m : Model} {d : Dialect} {b : Binding} {e : Expr}
    {vs : List Value} (s : Settings) (h : e.valueIn m b = .null) :
    ¬ (s.isInTest e vs).Holds m d b := by
  intro hholds
  by_cases hall : ∀ w ∈ vs, w.text? = none
  · obtain ⟨w, -, hw⟩ := (s.holds_isInTest_native hall).1 hholds
    rw [h, Value.null_equals] at hw
    cases hw
  · obtain ⟨t, ht⟩ := Value.exists_text hall
    obtain ⟨t', -, hw⟩ := (s.holds_isInTest_texts ht).1 hholds
    rw [s.valueIn_caseExpr h, Value.null_equals] at hw
    cases hw

namespace Clause

variable {c : Clause} {s : Settings} {replace : String → String} {d : Dialect} {op neg : Operator}

/-- **NULL does not pass a test together with its negation.** -/
theorem not_takes_null (hneg : op.Negates neg) (hop : c.operator = op)
    (h : c.Takes s replace d .null) :
    ¬ ({ c with operator := neg } : Clause).Takes s replace d .null := by
  have hnull : (Expr.element root).valueIn default (.element .null) = .null := rfl
  unfold Takes test at h ⊢
  cases hneg with
  | isIn =>
    rw [hop] at h
    exact absurd h (s.not_holds_isInTest hnull)
  | equal =>
    rw [hop] at h
    simp only at h ⊢
    unfold testNotEqual
    split
    · exact nofun
    · split
      · exact nofun
      · -- the value is neither NULL nor the empty text, so that NULL is not equal to it
        rename_i hne hempty
        cases hv : c.value with
        | null => exact absurd hv hne
        | text t =>
          rw [hv] at h
          exact absurd h (s.not_holds_equalTest (fun ht => hempty (ht ▸ hv)) hnull)
        | _ =>
          rw [hv] at h
          cases h

end Clause

/-! ## Elements -/

/-- At an attribute with elements these are read. -/
theorem Reading.ofSource_elements {a : Attribute} (hmany : a.kind.holdsMany = true) (s : SourceId) :
    Reading.ofSource none a s = ⟨.element s, none⟩ := by
  obtain ⟨name, kind⟩ := a
  cases kind with
  | elements | collection => rfl
  | _ => cases hmany

/-- **A clause compares the elements of an attribute of the root**: its path is that attribute,
which holds many, and it is no map. -/
structure Clause.OfElements (ctx : Context) (clause : Clause) : Prop where
  declared : (ctx.model.entity ctx.schema.entity).attribute? clause.terminal.name =
    some clause.terminal
  many : clause.terminal.kind.holdsMany = true
  simple : clause.selector.isSimple = true
  shape : clause.selector.shape = none
  key : clause.selector.mapKey = none

namespace Context

variable {ctx : Context} {st : Store} {clause : Clause} {joins : List Attribute}
  {op neg : Operator} {selector : String} {arguments : List String}

/-- A comparison of a field that is no map, with a path of one attribute that holds many, compares
the elements of that attribute, and joins it. -/
theorem ofElements_of_plan {entity : String} {fields : List Field} {c : Comparison}
    (hreg : Schema.register ctx.model entity fields = .ok ctx.schema)
    (hplan : ctx.schema.plan ctx.model c = (joins, .ok clause))
    (hmap : clause.selector.field.isMap = false) (hsimple : clause.selector.isSimple = true)
    (hmany : clause.terminal.kind.holdsMany = true) :
    clause.OfElements ctx ∧ joins = [clause.terminal] := by
  have hbasic : clause.terminal.kind.isBasic = false := by
    obtain ⟨type, hk⟩ | ⟨target, hk⟩ := Kind.holdsMany_iff.1 hmany <;> rw [hk] <;> rfl
  obtain ⟨hjoins, hchecks⟩ := Schema.plan_eq_ok_iff.1 hplan
  obtain ⟨hdeclared, hroute⟩ := hchecks.simple hsimple
  have hkey : clause.selector.mapKey.isSome = false :=
    (Schema.mapKey_of_resolve hchecks.resolve).trans hmap
  refine ⟨⟨hdeclared, hmany, hsimple, ?_, by simpa using hkey⟩, ?_⟩
  · cases Schema.ending_of_plan hreg (congrArg Prod.snd hplan) with
    | plain hs => exact hs
    | native _ h => simp [h] at hkey
    | entries _ h => simp [h] at hkey
  · rw [hjoins, hroute, hbasic]
    rfl

/-- **A comparison of elements asks for an element that passes its test**, or for NULL to pass it if
there are none. -/
theorem asks_elements (hst : st.WellFormed ctx.model) (hc : clause.OfElements ctx) {id : Int}
    {record : Record} (hr : st.record? ctx.schema.entity id = some record) :
    ctx.Asks st clause [clause.terminal] (.row ctx.schema.entity id record) ↔
      (∃ x ∈ record.elements clause.terminal.name,
        clause.Takes ctx.settings ctx.replace st.dialect x) ∨
      record.elements clause.terminal.name = [] ∧
        clause.Takes ctx.settings ctx.replace st.dialect .null := by
  have hcompared : clause.compared = .element root := by
    rw [Clause.compared, hc.shape, Reading.ofSource_elements hc.many]
  have hreached := Binding.reached_elements hst hr hc.declared hc.many root
  simp only [asks_simple hc.simple, hcompared, Clause.related_of_keyless hc.key, ends_single_iff,
    ← hreached]
  constructor
  · rintro ⟨c, hc | ⟨hnil, rfl⟩, htakes⟩
    · exact Or.inl ⟨_, List.mem_map_of_mem hc, htakes⟩
    · exact Or.inr ⟨by rw [hnil]; rfl, htakes⟩
  · rintro (⟨x, hx, htakes⟩ | ⟨hnil, htakes⟩)
    · obtain ⟨c, hc, rfl⟩ := List.mem_map.1 hx
      exact ⟨c, Or.inl hc, htakes⟩
    · exact ⟨.missing, Or.inr ⟨List.map_eq_nil_iff.1 hnil, rfl⟩, htakes⟩

/-- **No record has elements for both**: one that passes the test of a clause, and one that passes
the test of the clause with another operator. -/
def ElementsPart (ctx : Context) (st : Store) (clause : Clause) (neg : Operator) : Prop :=
  ∀ id record, st.record? ctx.schema.entity id = some record →
    ∀ x ∈ record.elements clause.terminal.name,
      clause.Takes ctx.settings ctx.replace st.dialect x →
    ∀ y ∈ record.elements clause.terminal.name,
      ¬ ({ clause with operator := neg } : Clause).Takes ctx.settings ctx.replace st.dialect y

/-- That is, no record is asked for by both. -/
theorem elementsPart_iff (hst : st.WellFormed ctx.model) (hneg : op.Negates neg)
    (hop : clause.operator = op) (hc : clause.OfElements ctx) :
    ctx.ElementsPart st clause neg ↔ ∀ b ∈ st.rows ctx.schema.entity,
      ctx.Asks st clause [clause.terminal] b →
        ¬ ctx.Asks st { clause with operator := neg } [clause.terminal] b := by
  have hc' : ({ clause with operator := neg } : Clause).OfElements ctx :=
    ⟨hc.declared, hc.many, hc.simple, hc.shape, hc.key⟩
  constructor
  · intro h b hb hasks hasks'
    obtain ⟨id, record, rfl, hr⟩ := Store.record?_of_mem_rows hb
    -- without elements it would be NULL that passes both tests
    rcases (asks_elements hst hc hr).1 hasks with ⟨x, hx, htakes⟩ | ⟨hnil, htakes⟩ <;>
      rcases (asks_elements hst hc' hr).1 hasks' with ⟨y, hy, htakes'⟩ | ⟨hnil', htakes'⟩
    · exact h id record hr x hx htakes y hy htakes'
    · exact List.ne_nil_of_mem hx hnil'
    · exact List.ne_nil_of_mem hy hnil
    · exact Clause.not_takes_null hneg hop htakes htakes'
  · intro h id record hr x hx htakes y hy htakes'
    exact h _ (Store.mem_rows.2 hr) ((asks_elements hst hc hr).2 (Or.inl ⟨x, hx, htakes⟩))
      ((asks_elements hst hc' hr).2 (Or.inl ⟨y, hy, htakes'⟩))

/-- **A negation over elements excludes what the comparison selects exactly if no record has
elements for both.** On a well-formed store both select some records. The field is no map, and its
path is a single attribute of the root, which holds scalars or refers to records. -/
theorem negation_excludes_iff {entity : String} {fields : List Field}
    (hreg : Schema.register ctx.model entity fields = .ok ctx.schema)
    (hst : st.WellFormed ctx.model) (hneg : op.Negates neg)
    (hplan : ctx.schema.plan ctx.model ⟨selector, op.symbol, arguments⟩ = (joins, .ok clause))
    (hmap : clause.selector.field.isMap = false) (hsimple : clause.selector.isSimple = true)
    (hmany : clause.terminal.kind.holdsMany = true) :
    ∃ selected negated, ctx.Answers st (.compareMany op selector arguments) selected ∧
      ctx.Answers st (.compareMany neg selector arguments) negated ∧
      ((∀ id ∈ selected, id ∉ negated) ↔ ctx.ElementsPart st clause neg) := by
  obtain ⟨hc, rfl⟩ := ofElements_of_plan hreg hplan hmap hsimple hmany
  obtain ⟨hop, hplan'⟩ := Schema.plan_operator neg hplan
  obtain ⟨selected, hselected, hmem⟩ := answers_of_plan hst hplan
  obtain ⟨negated, hnegated, hmem'⟩ := answers_of_plan hst hplan'
  refine ⟨selected, negated, hselected, hnegated, ?_⟩
  rw [elementsPart_iff hst hneg hop hc, ← Store.where_disjoint_iff]
  exact forall_congr' fun id => imp_congr (hmem id) (not_congr (hmem' id))

end Context

namespace Shop

/-- The field of items as such. -/
def ofItems : Field :=
  ⟨"item", "items", [], false, none, "id", none⟩

/-- Orders may be filtered by their items. -/
def byItem : Context :=
  ⟨model, ⟨"Order", [⟨ofItems, ["items"], none⟩]⟩, .standard, id⟩

/-- The clause for an item. -/
def itemSeven : Clause :=
  ⟨⟨⟨ofItems, ["items"], none⟩, [], none⟩, items, .equal, "7", .text "7", [.text "7"]⟩

/-- In the store the items of an order are one item. -/
theorem seven_excluded :
    ∃ selected negated, byItem.Answers store (.compareMany .equal "item" ["7"]) selected ∧
      byItem.Answers store (.compareMany .notEqual "item" ["7"]) negated ∧
      ∀ id ∈ selected, id ∉ negated := by
  have hreg : Schema.register byItem.model "Order" [ofItems] = .ok byItem.schema := by rfl
  have hplan : byItem.schema.plan byItem.model ⟨"item", Operator.equal.symbol, ["7"]⟩ =
      ([items], .ok itemSeven) := by rfl
  obtain ⟨selected, negated, hselected, hnegated, h⟩ := Context.negation_excludes_iff hreg
    store_wellFormed .equal hplan rfl rfl rfl
  refine ⟨selected, negated, hselected, hnegated, h.2 ?_⟩
  intro id record hr x hx _ y hy
  have hseven : ∀ y ∈ [Value.int 7, .int 7], ¬ ({ itemSeven with operator := .notEqual } :
      Clause).Takes byItem.settings byItem.replace store.dialect y := by
    intro y hy
    obtain rfl : y = .int 7 := by simpa using hy
    exact nofun
  simp only [store, Store.record?_insert] at hr
  split at hr
  · obtain rfl := Option.some.inj hr
    exact absurd hx List.not_mem_nil
  · split at hr
    · obtain rfl := Option.some.inj hr
      exact hseven y hy
    · rw [if_neg fun h => absurd h.1 (by decide)] at hr
      cases hr

/-- An order with two items. -/
def mixed : Store :=
  (((Store.empty .standard).insert "Item" 7 OrderedMap.empty).insert "Item" 8
    OrderedMap.empty).insert "Order" 1 (OrderedMap.ofList [("items", .collection [7, 8])])

theorem mixed_wellFormed : mixed.WellFormed model := by
  refine ((Store.WellFormed.empty.insert fun hc _ => ?_).insert fun hc _ => ?_).insert
    fun hc ha => ?_
  · cases hc
  · cases hc
  · obtain ⟨rfl, rfl⟩ := Prod.mk.inj (List.mem_singleton.1 (OrderedMap.mem_of_find?_ofList hc))
    obtain rfl := Option.some.inj ha
    exact .collection (by decide)

/-- **The order has item seven and is not excluded for it**: the other item is not the seventh. -/
theorem mixed_overlap :
    mixed.WellFormed byItem.model ∧
      Schema.register byItem.model "Order" [ofItems] = .ok byItem.schema ∧
      byItem.schema.plan byItem.model ⟨"item", Operator.equal.symbol, ["7"]⟩ =
        ([items], .ok itemSeven) ∧
      byItem.Answers mixed (.compareMany .equal "item" ["7"]) [1] ∧
      byItem.Answers mixed (.compareMany .notEqual "item" ["7"]) [1] ∧
      byItem.Answers mixed (.compareMany .isIn "item" ["7"]) [1] ∧
      byItem.Answers mixed (.compareMany .isNotIn "item" ["7"]) [1] ∧
      ¬ ∀ id ∈ [(1 : Int)], id ∉ [1] := by
  refine ⟨mixed_wellFormed, by rfl, by rfl, ?_, ?_, ?_, ?_, by decide⟩
  · refine ⟨.equal (.element 1) (.text "7"), withItems, Prod.ext (by rfl) ?_, by rfl⟩
    decide +kernel
  · refine ⟨.or [.isNull (.element 1), .notEqual (.element 1) (.text "7")], withItems,
      Prod.ext (by rfl) ?_, by rfl⟩
    decide +kernel
  · refine ⟨.isIn (.element 1) [.text "7"], withItems, Prod.ext (by rfl) ?_, by rfl⟩
    decide +kernel
  · refine ⟨.or [.isNull (.element 1), .not (.isIn (.element 1) [.text "7"])], withItems,
      Prod.ext (by rfl) ?_, by rfl⟩
    decide +kernel

end Shop

end EntityFilter
