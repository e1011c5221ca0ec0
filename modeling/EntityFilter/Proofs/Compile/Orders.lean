import EntityFilter.Proofs.Compile.Columns
import EntityFilter.Proofs.Compile.Widening

/-!
# Order and equality

An equality where case is ignored compares texts in upper case. An order relation compares them as
they stand, whatever the settings. So a text that equals an argument may come before or after it.

* `Value.equals_iff_inOrder`: a value equals another one if it is at most and at least that.
* `Settings.holds_equalTest_plain`: what equals an argument without wildcards.
* `Context.ordering_agrees_iff`: what equals an argument is ordered as the argument exactly if it is
  spelled like it where texts are put into upper case.
* `Shop.star_disagrees`: a name that equals an argument and comes after it.
-/

namespace EntityFilter

open Query

/-! ## Values -/

namespace Value

variable {v w : Value}

/-- **A value equals another one** if it is at most and at least that, and neither less nor
greater. -/
theorem equals_iff_inOrder : v.equals w = .yes ↔
    v.inOrder .lessOrEqual w = .yes ∧ v.inOrder .greaterOrEqual w = .yes ∧
      v.inOrder .less w ≠ .yes ∧ v.inOrder .greater w ≠ .yes := by
  simp only [equals, inOrder]
  cases v.order? w with
  | none => simp [Truth.ofOption]
  | some o => cases o <;> simp [Truth.ofOption, Truth.ofBool, OrderTest.accepts]

end Value

/-! ## Arguments without wildcards -/

/-- Without an asterisk there is no wildcard, and nothing to be taken out. -/
theorem Wildcard.plain_of_not_mem {v : List Char} (h : '*' ∉ v) :
    hasWildcard v = false ∧ literalChars v = v := by
  fun_induction literalChars v with
  | case1 => exact ⟨rfl, rfl⟩
  | case2 rest ih => exact absurd (List.mem_cons_of_mem _ List.mem_cons_self) h
  | case3 c rest hpair ih =>
    obtain ⟨hc, hrest⟩ := not_or.1 (mt List.mem_cons.2 h)
    obtain ⟨hnone, hself⟩ := ih hrest
    refine ⟨?_, congrArg (c :: ·) hself⟩
    rw [hasWildcard]
    · simp [hnone, wildcardMark, Ne.symm hc]
    · exact hpair

namespace Settings

variable {m : Model} {d : Dialect} {b : Binding} {e : Expr} {v : String} (s : Settings)

/-- **What equals an argument without wildcards**: what is equal to it as a value if it is a numeral
or case is heeded, and else what has the same text in upper case. -/
theorem holds_equalTest_plain (hv : v ≠ "") (hplain : '*' ∉ v.toList) :
    (s.equalTest e (.text v)).Holds m d b ↔
      if s.ignoreCase = true ∧ Text.isNumeral v = false then
        e.valueIn m b ≠ .null ∧ Text.upper (e.valueIn m b).asText = Text.upper v
      else (e.valueIn m b).equals (.text v) = .yes := by
  obtain ⟨hnone, hself⟩ := Wildcard.plain_of_not_mem hplain
  have hliteral : Wildcard.literal v = v := by
    rw [Wildcard.literal, hself, String.ofList_toList]
  by_cases hnum : Text.isNumeral v = true
  · rw [equalTest, if_pos hnum, if_neg (by simp [hnum]), Predicate.holds_equal]
  · have htest : s.equalTest e (.text v) = .equal (s.caseExpr e) (.text (s.caseText v)) := by
      rw [equalTest, if_neg hnum, if_neg hv, textTest, Wildcard.isPattern, hnone,
        if_neg Bool.false_ne_true, hliteral]
    rw [htest, Predicate.holds_equal, caseExpr, caseText]
    cases hcase : s.ignoreCase with
    | true =>
      rw [if_pos rfl, if_pos rfl, if_pos ⟨rfl, eq_false_of_ne_true hnum⟩, Value.equals_text_upper]
    | false =>
      rw [if_neg Bool.false_ne_true, if_neg Bool.false_ne_true, if_neg (by simp)]

end Settings

/-- **What passes the test for an argument equals the argument**, but for texts that are spelled in
another way and are the same in upper case. -/
theorem Settings.equals_of_equalTest_iff {m : Model} {d : Dialect} {b : Binding} {e : Expr}
    {v : String} {type : ScalarType} (s : Settings) (hv : v ≠ "") (hplain : '*' ∉ v.toList)
    (htype : type = .text ∨ type = .int)
    (hvalue : e.valueIn m b = .null ∨ Value.OfType type (e.valueIn m b)) :
    ((s.equalTest e (.text v)).Holds m d b → (e.valueIn m b).equals (.text v) = .yes) ↔
      (s.ignoreCase = true → Text.isNumeral v = false →
        ∀ t, e.valueIn m b = .text t → Text.upper t = Text.upper v → t = v) := by
  rw [s.holds_equalTest_plain hv hplain]
  by_cases hcase : s.ignoreCase = true ∧ Text.isNumeral v = false
  · rw [if_pos hcase, forall_prop_of_true hcase.1, forall_prop_of_true hcase.2]
    generalize e.valueIn m b = x at hvalue
    obtain rfl | hx := hvalue
    · refine iff_of_true (fun h => absurd rfl h.1) fun t ht => ?_
      cases ht
    · cases hx with
      | text t => simp [Value.asText, Value.equals_text]
      | int n =>
        refine iff_of_true (fun h => ?_) fun t ht => ?_
        · -- an argument whose upper case writes a number is a numeral
          have hupper : Text.upper v = toString n := by
            rw [← h.2]
            exact Text.upper_eq_number.2 rfl
          have hnumeral := Text.isNumeral_toString n
          rw [← Text.upper_eq_number.1 hupper, hcase.2] at hnumeral
          cases hnumeral
        · cases ht
      | _ => rcases htype with h | h <;> cases h
  · rw [if_neg hcase]
    exact iff_of_true id fun h h' => absurd ⟨h, h'⟩ hcase

/-! ## Comparisons of a column -/

namespace Context

variable {ctx : Context} {st : Store} {entity selector v : String} {fields : List Field}
  {r : ResolvedSelector} {a : Attribute} {type : ScalarType}

/-- **A text that equals an argument in upper case is spelled like it**, in a column. -/
def SpelledAlike (ctx : Context) (st : Store) (name v : String) : Prop :=
  ∀ id record t, st.record? ctx.schema.entity id = some record →
    ctx.model.attributeValue ctx.schema.entity id record name = .text t →
      Text.upper t = Text.upper v → t = v

/-- **A comparison of a column of texts or numbers** selects the records whose value passes its
test, whatever the argument. -/
theorem answers_column (st : Store) (hreg : Schema.register ctx.model entity fields = .ok ctx.schema)
    (hresolve : ctx.schema.resolve selector = .ok r) (hpath : r.navigation = [a.name])
    (ha : (ctx.model.entity ctx.schema.entity).attribute? a.name = some a)
    (hk : a.kind = .basic type) (htype : type = .text ∨ type = .int)
    (hconv : r.field.converter = none) (op : Operator) (v : String) :
    ∃ ids, ctx.Answers st (.compareOne op selector v) ids ∧ ∀ id, id ∈ ids ↔
      ∃ record, st.record? ctx.schema.entity id = some record ∧
        (⟨r, a, op, v, .text v, [.text v]⟩ : Clause).Takes ctx.settings ctx.replace st.dialect
          (ctx.model.attributeValue ctx.schema.entity id record a.name) := by
  obtain ⟨hplan, hshape, hkey⟩ :=
    Schema.plan_basic (v := v) hreg hresolve hpath ha hk htype hconv op
  have hsimple : r.isSimple = true := by
    rw [ResolvedSelector.isSimple, hpath]
    rfl
  have hbasic : a.kind.isBasic = true := by
    rw [hk]
    rfl
  obtain ⟨ids, hids, hsub, hmem⟩ := lists_column st ⟨hbasic, hsimple, hshape, hkey⟩ hplan
  refine ⟨distinct ids, hids.answers, fun id => mem_distinct.trans ⟨fun hid => ?_, ?_⟩⟩
  · obtain ⟨⟨_, record⟩, hentry, rfl⟩ := List.mem_map.1 (hsub.subset hid)
    have hrecord := OrderedMap.find?_of_mem hentry
    exact ⟨record, hrecord, (hmem _ record hrecord).1 hid⟩
  · rintro ⟨record, hrecord, htakes⟩
    exact (hmem id record hrecord).2 htakes

/-- **What equals an argument is ordered as the argument exactly if it is spelled like it**, where
case is ignored and the argument is no numeral. The path is a basic attribute of texts or numbers of
the root, the field has no conversion, no replacements are made, and the argument is not empty and
has no asterisk. Then on every store whose column holds values of the type or NULL all five
comparisons are answered. What equals the argument is at most and at least the argument, and neither
less nor greater, unless the column holds a text that is spelled in another way than the argument
and is the same in upper case. -/
theorem ordering_agrees_iff
    (hreg : Schema.register ctx.model entity fields = .ok ctx.schema)
    (hresolve : ctx.schema.resolve selector = .ok r) (hpath : r.navigation = [a.name])
    (ha : (ctx.model.entity ctx.schema.entity).attribute? a.name = some a)
    (hk : a.kind = .basic type) (htype : type = .text ∨ type = .int)
    (hconv : r.field.converter = none) (hreplace : ctx.replace = id) (hv : v ≠ "")
    (hplain : '*' ∉ v.toList) (hcolumn : st.ColumnOf ctx.model ctx.schema.entity a.name type) :
    ∃ equal atMost atLeast less greater,
      ctx.Answers st (.compareOne .equal selector v) equal ∧
      ctx.Answers st (.compareOne .lessThanOrEqual selector v) atMost ∧
      ctx.Answers st (.compareOne .greaterThanOrEqual selector v) atLeast ∧
      ctx.Answers st (.compareOne .lessThan selector v) less ∧
      ctx.Answers st (.compareOne .greaterThan selector v) greater ∧
      ((∀ id ∈ equal, id ∈ atMost ∧ id ∈ atLeast ∧ id ∉ less ∧ id ∉ greater) ↔
        (ctx.settings.ignoreCase = true → Text.isNumeral v = false →
          ctx.SpelledAlike st a.name v)) := by
  have hanswer := answers_column st hreg hresolve hpath ha hk htype hconv
  obtain ⟨equal, hequal, hmem⟩ := hanswer .equal v
  obtain ⟨atMost, hatMost, hmemAtMost⟩ := hanswer .lessThanOrEqual v
  obtain ⟨atLeast, hatLeast, hmemAtLeast⟩ := hanswer .greaterThanOrEqual v
  obtain ⟨less, hless, hmemLess⟩ := hanswer .lessThan v
  obtain ⟨greater, hgreater, hmemGreater⟩ := hanswer .greaterThan v
  refine ⟨equal, atMost, atLeast, less, greater, hequal, hatMost, hatLeast, hless, hgreater, ?_⟩
  let value id record := ctx.model.attributeValue ctx.schema.entity id record a.name
  -- a record is ordered as the argument if its value equals the argument as it stands
  have hordered : ∀ id record, st.record? ctx.schema.entity id = some record →
      ((id ∈ atMost ∧ id ∈ atLeast ∧ id ∉ less ∧ id ∉ greater) ↔
        (value id record).equals (.text v) = .yes) := by
    intro id record hrecord
    have hpasses : ∀ {A : Value → Prop}, (∃ record, st.record? ctx.schema.entity id = some record ∧
        A (ctx.model.attributeValue ctx.schema.entity id record a.name)) ↔ A (value id record) := by
      intro A
      rw [hrecord]
      simp [value]
    rw [hmemAtMost, hmemAtLeast, hmemLess, hmemGreater, hpasses, hpasses, hpasses, hpasses,
      Value.equals_iff_inOrder, hreplace]
    exact Iff.rfl
  -- so it matters what passes the test for the argument and does not equal it as it stands
  have hrecords : (∀ id ∈ equal, id ∈ atMost ∧ id ∈ atLeast ∧ id ∉ less ∧ id ∉ greater) ↔
      ∀ id record, st.record? ctx.schema.entity id = some record →
        (ctx.settings.equalTest (.element root) (.text v)).Holds default st.dialect
          (.element (value id record)) → (value id record).equals (.text v) = .yes := by
    constructor
    · intro h id record hrecord htakes
      exact (hordered id record hrecord).1 (h id ((hmem id).2 ⟨record, hrecord, htakes⟩))
    · intro h id hid
      obtain ⟨record, hrecord, htakes⟩ := (hmem id).1 hid
      exact (hordered id record hrecord).2 (h id record hrecord htakes)
  have hspelled := fun id record hrecord => ctx.settings.equals_of_equalTest_iff
    (m := default) (d := st.dialect) (b := .element (value id record)) (e := .element root)
    hv hplain htype (hcolumn id record hrecord)
  rw [hrecords]
  constructor
  · intro h hcase hnum id record t hrecord ht
    exact (hspelled id record hrecord).1 (h id record hrecord) hcase hnum t ht
  · intro h id record hrecord
    exact (hspelled id record hrecord).2 fun hcase hnum t ht =>
      h hcase hnum id record t hrecord ht

end Context

namespace Shop

/-- **A name without an asterisk is spelled like itself alone**, where no other one has its upper
case. -/
theorem hotel_agrees :
    ∃ equal atMost atLeast less greater,
      namedAnyCase.Answers namedCustomers (.compareOne .equal "name" "5star_hotel") equal ∧
      namedAnyCase.Answers namedCustomers (.compareOne .lessThanOrEqual "name" "5star_hotel")
        atMost ∧
      namedAnyCase.Answers namedCustomers (.compareOne .greaterThanOrEqual "name" "5star_hotel")
        atLeast ∧
      namedAnyCase.Answers namedCustomers (.compareOne .lessThan "name" "5star_hotel") less ∧
      namedAnyCase.Answers namedCustomers (.compareOne .greaterThan "name" "5star_hotel") greater ∧
      ∀ id ∈ equal, id ∈ atMost ∧ id ∈ atLeast ∧ id ∉ less ∧ id ∉ greater := by
  have hreg : Schema.register namedAnyCase.model "Customer" [byName] = .ok namedAnyCase.schema := by
    rfl
  have hresolve : namedAnyCase.schema.resolve "name" = .ok ⟨⟨byName, ["name"], none⟩, [], none⟩ := by
    rfl
  let name : Attribute := ⟨"name", .basic .text⟩
  have ha : (namedAnyCase.model.entity "Customer").attribute? name.name = some name := by rfl
  have hplain : '*' ∉ "5star_hotel".toList := by decide
  obtain ⟨equal, atMost, atLeast, less, greater, hequal, hatMost, hatLeast, hless, hgreater, h⟩ :=
    Context.ordering_agrees_iff hreg hresolve rfl ha rfl (Or.inl rfl) rfl rfl (by decide) hplain
      namedCustomers_column
  refine ⟨equal, atMost, atLeast, less, greater, hequal, hatMost, hatLeast, hless, hgreater,
    h.2 fun _ _ id record t hrecord ht hupper => ?_⟩
  have hname := namedCustomers_names hrecord
  have hother : Text.upper "5*_hotel" ≠ Text.upper "5star_hotel" := by decide +kernel
  simp only [List.mem_cons, List.not_mem_nil, or_false] at hname
  rcases hname with hnull | hstar | hwild
  · exact absurd (hnull.symm.trans ht) nofun
  · exact (Value.text.inj (hstar.symm.trans ht)).symm
  · obtain rfl := Value.text.inj (hwild.symm.trans ht)
    exact absurd hupper hother

/-- **The second customer is called `5STAR_hotel` in either case, and comes after it.** -/
theorem star_disagrees :
    Schema.register namedAnyCase.model "Customer" [byName] = .ok namedAnyCase.schema ∧
      namedCustomers.ColumnOf namedAnyCase.model "Customer" "name" .text ∧
      namedAnyCase.Answers namedCustomers (.compareOne .equal "name" "5STAR_hotel") [2] ∧
      namedAnyCase.Answers namedCustomers (.compareOne .lessThanOrEqual "name" "5STAR_hotel") [1] ∧
      namedAnyCase.Answers namedCustomers (.compareOne .greaterThan "name" "5STAR_hotel") [2] ∧
      ¬ ∀ id ∈ [(2 : Int)], id ∈ [(1 : Int)] ∧ id ∉ [(2 : Int)] := by
  have hplan : ∀ op : Operator, namedAnyCase.schema.plan namedAnyCase.model
      ⟨"name", op.symbol, ["5STAR_hotel"]⟩ =
        ([], .ok { nameIs "5STAR_hotel" with operator := op }) := by
    intro op
    cases op <;> rfl
  refine ⟨by rfl, namedCustomers_column, ?_, ?_, ?_, by decide⟩
  · exact ⟨_, _, Context.compile_local (hplan .equal) (by rfl), by decide +kernel⟩
  · exact ⟨_, _, Context.compile_local (hplan .lessThanOrEqual) (by rfl), by decide +kernel⟩
  · exact ⟨_, _, Context.compile_local (hplan .greaterThan) (by rfl), by decide +kernel⟩

end Shop

end EntityFilter
