import EntityFilter.Proofs.Compile.Complement

/-!
# Tests of values

A test in place looks at the value of one expression. Where that value comes from, from a column,
an element or the entry of a map, makes no difference to it.

* `Predicate.Uniform`: tests that depend on the value of the tested expression alone.
* `Clause.test`, `Clause.lower_simple`: the test of a clause whose path is a single attribute.
* `Clause.Takes`, `Clause.holds_test`: the values that pass it.
* `Context.asks_simple`: such a clause asks for something related whose value passes.
* `Store.Where`: the identifiers of the stored records with a property.
-/

namespace EntityFilter

open Query

/-! ## Uniform tests -/

/-- A value in upper case; NULL has none. -/
def Value.upper : Value → Value
  | null => null
  | v => text (Text.upper v.asText)

theorem Value.upper_of_ne_null {v : Value} (h : v ≠ .null) :
    v.upper = .text (Text.upper v.asText) := by
  cases v with
  | null => exact absurd rfl h
  | _ => rfl

theorem Expr.valueIn_upper (m : Model) (b : Binding) (e : Expr) :
    (Expr.upper e).valueIn m b = (e.valueIn m b).upper := by
  cases h : e.valueIn m b <;> simp [valueIn, h, Value.upper]

theorem Expr.value_upper (m : Model) (env : Env) (e : Expr) :
    (Expr.upper e).value m env = (e.value m env).upper := by
  unfold value
  rw [Expr.source]
  cases env e.source with
  | none => rfl
  | some b => exact valueIn_upper m b e

namespace Predicate

/-- **Tests of an expression that depend on its value alone**, and on the dialect. -/
def Uniform (test : Expr → Predicate) : Prop :=
  ∃ f : Dialect → Value → Truth, ∀ m d rows env e,
    (test e).value m d rows env = f d (e.value m env)

variable {test test' : Expr → Predicate}

theorem Uniform.of_test? {f : Dialect → Value → Truth}
    (h : ∀ d e, (test e).test? d = some (e, f d)) : Uniform test :=
  ⟨f, fun _ d _ _ e => value_of_test? (h d e)⟩

theorem Uniform.not (h : Uniform test) : Uniform fun e => .not (test e) := by
  obtain ⟨f, hf⟩ := h
  exact ⟨fun d v => (f d v).not, fun m d rows env e => by rw [value, hf]⟩

theorem Uniform.and (h : Uniform test) (h' : Uniform test') :
    Uniform fun e => .and [test e, test' e] := by
  obtain ⟨f, hf⟩ := h
  obtain ⟨f', hf'⟩ := h'
  refine ⟨fun d v => (f d v).conj ((f' d v).conj .yes), fun m d rows env e => ?_⟩
  rw [value, valueOfAll, valueOfAll, valueOfAll, hf, hf']

theorem Uniform.or (h : Uniform test) (h' : Uniform test') :
    Uniform fun e => .or [test e, test' e] := by
  obtain ⟨f, hf⟩ := h
  obtain ⟨f', hf'⟩ := h'
  refine ⟨fun d v => (f d v).disj ((f' d v).disj .no), fun m d rows env e => ?_⟩
  rw [value, valueOfAny, valueOfAny, valueOfAny, hf, hf']

/-- Tests of the expression in upper case, where case is ignored. -/
theorem Uniform.caseExpr (s : Settings) (test : Expr → Predicate) (h : Uniform test) :
    Uniform fun e => test (s.caseExpr e) := by
  obtain ⟨f, hf⟩ := h
  unfold Settings.caseExpr
  cases s.ignoreCase with
  | false => exact ⟨f, hf⟩
  | true =>
    refine ⟨fun d v => f d v.upper, fun m d rows env e => ?_⟩
    exact (hf m d rows env _).trans (congrArg (f d) (Expr.value_upper m env e))

/-- **A uniform test says the same of equal values**, wherever they are read. -/
theorem Uniform.holds_congr (h : Uniform test) {m m' : Model} {d : Dialect} {b b' : Binding}
    {e e' : Expr} (hv : e.valueIn m b = e'.valueIn m' b') :
    (test e).Holds m d b ↔ (test e').Holds m' d b' := by
  obtain ⟨f, hf⟩ := h
  rw [Holds, Holds, hf, hf, Expr.value_eq rfl, Expr.value_eq rfl, hv]

end Predicate

namespace Settings

open Predicate

variable (s : Settings)

theorem uniform_textTest (t : String) : Uniform fun e => s.textTest e t := by
  unfold textTest
  cases Wildcard.isPattern t with
  | false => exact .caseExpr s (.equal · _) (.of_test? fun _ _ => rfl)
  | true => exact .caseExpr s (.likePattern · _) (.of_test? fun _ _ => rfl)

theorem uniform_notTextTest (t : String) : Uniform fun e => s.notTextTest e t := by
  unfold notTextTest
  cases Wildcard.isPattern t with
  | false => exact .caseExpr s (.notEqual · _) (.of_test? fun _ _ => rfl)
  | true => exact .caseExpr s (.notLikePattern · _) (.of_test? fun _ _ => rfl)

theorem uniform_equalTest (v : Value) : Uniform fun e => s.equalTest e v := by
  cases v with
  | text t =>
    simp only [equalTest]
    split
    · exact .of_test? fun _ _ => rfl
    · split
      · exact .or (.of_test? fun _ _ => rfl) (.of_test? fun _ _ => rfl)
      · exact s.uniform_textTest t
  | _ => exact .of_test? fun _ _ => rfl

theorem uniform_notEqualTest (v : Value) : Uniform fun e => s.notEqualTest e v := by
  cases v with
  | text t =>
    simp only [notEqualTest]
    split
    · exact .caseExpr s (.notEqual · _) (.of_test? fun _ _ => rfl)
    · exact s.uniform_notTextTest t
  | _ => exact .of_test? fun _ _ => rfl

theorem uniform_isInTest (vs : List Value) : Uniform fun e => s.isInTest e vs := by
  simp only [isInTest]
  split
  · exact .of_test? fun _ _ => rfl
  · exact .caseExpr s (.isIn · _) (.of_test? fun _ _ => rfl)

end Settings

/-! ## The test of a clause -/

namespace Clause

variable (c : Clause) (s : Settings) (replace : String → String)

/-- The test of a clause with the operator of inequality. -/
def testNotEqual (e : Expr) : Predicate :=
  if c.value = .null then .isNotNull e
  else if c.value = .text "" then .and [.isNotNull e, .notEqual e (.text "")]
  else .or [.isNull e, s.notEqualTest e c.value]

/-- **The test of a clause whose path is a single attribute**: what becomes of the operator when
nothing lies between the root and what is compared. -/
def test (e : Expr) : Predicate :=
  match c.operator with
  | .equal => s.equalTest e c.value
  | .notEqual => c.testNotEqual s e
  | .greaterThan => .order e .greater (.text (replace c.raw))
  | .greaterThanOrEqual => .order e .greaterOrEqual (.text (replace c.raw))
  | .lessThan => .order e .less (.text (replace c.raw))
  | .lessThanOrEqual => .order e .lessOrEqual (.text (replace c.raw))
  | .isIn => s.isInTest e c.values
  | .isNotIn => .or [.isNull e, .not (s.isInTest e c.values)]

/-- **A clause whose path is a single attribute is tested in place**, a negation too; in a map the
test of the key comes first. -/
theorem lower_simple (hs : c.selector.isSimple = true) (r : Reading) :
    c.lower s replace r = .inPlace (s.withKey r c.selector.mapKey (c.test s replace r.value)) := by
  unfold lower test
  cases c.operator with
  | notEqual =>
    simp only [lowerNotEqual, testNotEqual, hs, if_true]
    split
    · rfl
    · split <;> rfl
  | isNotIn => simp only [lowerNotIn, hs, if_true]
  | _ => rfl

theorem uniform_testNotEqual : Predicate.Uniform (c.testNotEqual s) := by
  unfold testNotEqual
  split
  · exact .of_test? fun _ _ => rfl
  · split
    · exact .and (.of_test? fun _ _ => rfl) (.of_test? fun _ _ => rfl)
    · exact .or (.of_test? fun _ _ => rfl) (s.uniform_notEqualTest _)

theorem uniform_test : Predicate.Uniform (c.test s replace) := by
  unfold test
  cases c.operator with
  | equal => exact s.uniform_equalTest _
  | notEqual => exact c.uniform_testNotEqual s
  | isIn => exact s.uniform_isInTest _
  | isNotIn => exact .or (.of_test? fun _ _ => rfl) (s.uniform_isInTest _).not
  | _ => exact .of_test? fun _ _ => rfl

/-- **The values that pass the test of a clause**, read in a dialect. -/
def Takes (d : Dialect) (v : Value) : Prop :=
  (c.test s replace (.element root)).Holds default d (.element v)

variable {c s replace} {m : Model} {d : Dialect} {b : Binding}

/-- The test of a clause is passed where the value is one that passes. -/
theorem holds_test {e : Expr} :
    (c.test s replace e).Holds m d b ↔ c.Takes s replace d (e.valueIn m b) :=
  (c.uniform_test s replace).holds_congr rfl

/-- The values that pass depend on the operator and on the arguments. -/
theorem takes_congr {c' : Clause} (hop : c'.operator = c.operator) (hraw : c'.raw = c.raw)
    (hvalue : c'.value = c.value) (hvalues : c'.values = c.values) {v : Value} :
    c'.Takes s replace d v ↔ c.Takes s replace d v := by
  unfold Takes test testNotEqual
  rw [hop, hraw, hvalue, hvalues]

end Clause

/-- Without a key no key is tested. -/
theorem Settings.keyTest_none (s : Settings) (r : Reading) : s.keyTest r none = [] := by
  unfold keyTest
  cases r.key <;> rfl

/-- What a clause without a key compares is what stands at the end of its path. -/
theorem Clause.related_of_keyless {m : Model} {st : Store} {s : Settings} {clause : Clause}
    {joins : List Attribute} {b c : Binding} (hkey : clause.selector.mapKey = none) :
    clause.Related m st s joins b c ↔ Ends st b joins c := by
  rw [Related, hkey, s.keyTest_none]
  exact and_iff_left (List.forall_mem_nil _)

namespace Context

variable {ctx : Context} {st : Store} {clause : Clause} {joins : List Attribute} {b : Binding}

/-- **A clause whose path is a single attribute** asks for something related whose value passes. -/
theorem asks_simple (hs : clause.selector.isSimple = true) : ctx.Asks st clause joins b ↔
    ∃ c, clause.Related ctx.model st ctx.settings joins b c ∧
      clause.Takes ctx.settings ctx.replace st.dialect (clause.compared.valueIn ctx.model c) := by
  simp only [Asks, Clause.lower_simple _ _ _ hs, Settings.holds_withKey, Clause.holds_test,
    Clause.Related, and_assoc]
  rfl

end Context

/-! ## Records by identifier -/

/-- **The identifiers of the stored records with a property.** -/
def Store.Where (st : Store) (entity : String) (A : Binding → Prop) (id : Int) : Prop :=
  ∃ record, st.record? entity id = some record ∧ A (.row entity id record)

section Where

variable {st : Store} {entity : String} {A B : Binding → Prop}

theorem Store.where_congr (h : ∀ b ∈ st.rows entity, A b ↔ B b) (id : Int) :
    st.Where entity A id ↔ st.Where entity B id :=
  exists_congr fun _ => and_congr_right fun hrecord => h _ (Store.mem_rows.2 hrecord)

/-- A record has its identifier to itself, so what is so of identifiers is so of records. -/
theorem Store.where_imp_iff : (∀ id, st.Where entity A id → st.Where entity B id) ↔
    ∀ b ∈ st.rows entity, A b → B b := by
  constructor
  · intro h b hb hA
    obtain ⟨id, record, rfl, hrecord⟩ := Store.record?_of_mem_rows hb
    obtain ⟨record', hrecord', hB⟩ := h id ⟨record, hrecord, hA⟩
    exact Option.some.inj (hrecord'.symm.trans hrecord) ▸ hB
  · rintro h id ⟨record, hrecord, hA⟩
    exact ⟨record, hrecord, h _ (Store.mem_rows.2 hrecord) hA⟩

/-- So it is with what is not so of both. -/
theorem Store.where_disjoint_iff : (∀ id, st.Where entity A id → ¬ st.Where entity B id) ↔
    ∀ b ∈ st.rows entity, A b → ¬ B b := by
  constructor
  · intro h b hb hA hB
    obtain ⟨id, record, rfl, hrecord⟩ := Store.record?_of_mem_rows hb
    exact h id ⟨record, hrecord, hA⟩ ⟨record, hrecord, hB⟩
  · rintro h id ⟨record, hrecord, hA⟩ ⟨record', hrecord', hB⟩
    obtain rfl := Option.some.inj (hrecord'.symm.trans hrecord)
    exact h _ (Store.mem_rows.2 hrecord) hA hB

end Where

/-! ## Paths of one attribute -/

section Ends

variable {st : Store} {b c : Binding} {relation : Attribute}

theorem ends_nil_iff : Ends st b [] c ↔ c = b := by
  constructor
  · intro h
    cases h
    rfl
  · rintro rfl
    exact .nil

/-- At the end of one join stands what it reaches, or nothing if it reaches nothing. -/
theorem ends_single_iff : Ends st b [relation] c ↔
    c ∈ b.reached st relation ∨ b.reached st relation = [] ∧ c = .missing := by
  have hends : Ends st b [relation] c ↔ c ∈ JoinKind.left.complete (b.reached st relation) := by
    constructor
    · intro h
      cases h with
      | cons hc hrest => exact ends_nil_iff.1 hrest ▸ hc
    · exact fun h => .cons h .nil
  rw [hends]
  -- only a join that reaches nothing is completed
  cases b.reached st relation with
  | nil => simp [JoinKind.complete]
  | cons b' rest => simp [JoinKind.complete]

end Ends

end EntityFilter
