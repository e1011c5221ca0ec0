import EntityFilter.Proofs.Compile.Complement
import EntityFilter.Proofs.Compile.Confinement
import EntityFilter.Proofs.Compile.Entries
import EntityFilter.Proofs.Compile.Letters
import EntityFilter.Proofs.Compile.Recased

/-!
# Case is ignored

Where case is ignored, no comparison of a text by equality or by membership looks at the case of a
letter: not of its arguments, not of a map key, and not of what is stored.

* `Predicate.CaseBlind`: tests that say the same of what is the same but for letters.
* `Clause.caseBlind_lower`: what comparisons of texts ask for are such tests.
* `Context.frequency_recased`: they list a record as often in stores that are the same but for
  letters.
* `Context.ignores_case`: the case of letters makes no difference, in filters and in stores.
-/

namespace EntityFilter

open Query

/-! ## Tests -/

/-- **A test that case makes no difference to**: it says the same of bindings that are the same but
for letters. -/
def Predicate.CaseBlind (p : Predicate) : Prop :=
  ∀ ⦃m : Model⦄ ⦃d : Dialect⦄ ⦃b b' : Binding⦄, b.Recased b' →
    p.value m d (fun _ _ => false) (fun _ => some b) =
      p.value m d (fun _ _ => false) (fun _ => some b')

namespace Predicate.CaseBlind

variable {p p' : Predicate} {e : Expr} {f : Dialect → Value → Truth} {m : Model} {d : Dialect}
  {b b' : Binding}

theorem holds_iff (h : p.CaseBlind) (hb : b.Recased b') : p.Holds m d b ↔ p.Holds m d b' := by
  rw [Holds, Holds, h hb]

/-- A test of a value that says the same of values that are the same but for letters. -/
theorem of_test? (h : ∀ d, p.test? d = some (e, f d))
    (hf : ∀ ⦃d v v'⦄, Value.Recased v v' → f d v = f d v') : p.CaseBlind := by
  intro m d b b' hb
  rw [value_of_test? (h d), value_of_test? (h d), Expr.value_eq rfl, Expr.value_eq rfl]
  exact hf (hb.valueIn m e)

/-- **Any test of a value in upper case.** -/
theorem of_upper (h : ∀ d, p.test? d = some (.upper e, f d)) : p.CaseBlind := by
  intro m d b b' hb
  rw [value_of_test? (h d), value_of_test? (h d), Expr.value_eq rfl, Expr.value_eq rfl,
    Expr.valueIn_upper, Expr.valueIn_upper, (hb.valueIn m e).upper]

theorem not (h : p.CaseBlind) : CaseBlind (.not p) :=
  fun _ _ _ _ hb => congrArg Truth.not (h hb)

theorem and {ps : List Predicate} (h : ∀ p ∈ ps, p.CaseBlind) : CaseBlind (.and ps) := by
  intro m d b b' hb
  have hparts := valueOfAll_map (f := id) fun p hp => h p hp (m := m) (d := d) hb
  rwa [List.map_id] at hparts

theorem or {ps : List Predicate} (h : ∀ p ∈ ps, p.CaseBlind) : CaseBlind (.or ps) := by
  intro m d b b' hb
  have hparts := valueOfAny_map (f := id) fun p hp => h p hp (m := m) (d := d) hb
  rwa [List.map_id] at hparts

theorem pair (h : p.CaseBlind) (h' : p'.CaseBlind) : ∀ part ∈ [p, p'], part.CaseBlind :=
  List.forall_mem_cons.2 ⟨h, List.forall_mem_singleton.2 h'⟩

/-- NULL has no letters. -/
theorem isNull (e : Expr) : CaseBlind (.isNull e) :=
  of_test? (fun _ => rfl) fun _ _ _ h => congrArg Truth.ofBool h.isNull

theorem isNotNull (e : Expr) : CaseBlind (.isNotNull e) :=
  of_test? (fun _ => rfl) fun _ _ _ h => congrArg (fun null => Truth.ofBool !null) h.isNull

/-- The empty text has none either. -/
theorem equal_empty (e : Expr) : CaseBlind (.equal e (.text "")) :=
  of_test? (fun _ => rfl) fun _ _ _ h => h.equals_empty

theorem notEqual_empty (e : Expr) : CaseBlind (.notEqual e (.text "")) :=
  of_test? (fun _ => rfl) fun _ _ _ h => congrArg Truth.not h.equals_empty

end Predicate.CaseBlind

namespace Settings

open Predicate

variable {s : Settings} {t : String} {vs : List String} {reading : Reading} {key : Option String}
  {p : Predicate}

theorem caseBlind_textTest (hs : s.ignoreCase = true) (e : Expr) (t : String) :
    (s.textTest e t).CaseBlind := by
  rw [textTest, caseExpr_of_ignoreCase hs]
  split <;> exact .of_upper fun _ => rfl

theorem caseBlind_notTextTest (hs : s.ignoreCase = true) (e : Expr) (t : String) :
    (s.notTextTest e t).CaseBlind := by
  rw [notTextTest, caseExpr_of_ignoreCase hs]
  split <;> exact .of_upper fun _ => rfl

/-- **The test for a text that is no numeral.** -/
theorem caseBlind_equalTest (hs : s.ignoreCase = true) (hnum : Text.isNumeral t = false)
    (e : Expr) : (s.equalTest e (.text t)).CaseBlind := by
  simp only [equalTest, hnum, Bool.false_eq_true, if_false]
  split
  · exact .or (.pair (.isNull e) (.equal_empty e))
  · exact caseBlind_textTest hs e t

theorem caseBlind_notEqualTest (hs : s.ignoreCase = true) (hnum : Text.isNumeral t = false)
    (e : Expr) : (s.notEqualTest e (.text t)).CaseBlind := by
  simp only [notEqualTest, hnum, Bool.false_eq_true, if_false]
  exact caseBlind_notTextTest hs e t

/-- **The test for a list of texts.** Numerals are put into upper case too. -/
theorem caseBlind_isInTest (hs : s.ignoreCase = true) (hne : vs ≠ []) (e : Expr) :
    (s.isInTest e (vs.map .text)).CaseBlind := by
  obtain ⟨t, rest, rfl⟩ := List.exists_cons_of_ne_nil hne
  rw [isInTest, caseExpr_of_ignoreCase hs]
  exact .of_upper fun _ => rfl

theorem caseBlind_demandTest (hs : s.ignoreCase = true) (hnum : Text.isNumeral t = false)
    (e : Expr) : (s.demandTest e (.equal (.text t))).CaseBlind := by
  simp only [demandTest, hnum, Bool.false_eq_true, if_false]
  exact caseBlind_textTest hs e t

theorem caseBlind_keyTest (hs : s.ignoreCase = true) (reading : Reading) (key : Option String) :
    ∀ test ∈ s.keyTest reading key, test.CaseBlind := by
  intro test htest
  unfold keyTest at htest
  split at htest
  · obtain rfl := List.mem_singleton.1 htest
    rw [caseExpr_of_ignoreCase hs]
    exact .of_upper fun _ => rfl
  · exact absurd htest List.not_mem_nil

theorem caseBlind_withKey (hs : s.ignoreCase = true) (hp : p.CaseBlind) :
    (s.withKey reading key p).CaseBlind := by
  unfold withKey
  split
  · exact hp
  · refine .and fun part hpart => ?_
    rcases List.mem_append.1 hpart with hpart | hpart
    · exact caseBlind_keyTest hs reading key part hpart
    · exact List.mem_singleton.1 hpart ▸ hp

end Settings

/-- **What is asked for without a look at case.** -/
inductive Lowered.CaseBlind (s : Settings) : Lowered → Prop
  | inPlace {p : Predicate} (h : p.CaseBlind) : CaseBlind s (.inPlace p)
  | noneRelated {d : Demand} (h : ∀ e, (s.demandTest e d).CaseBlind) :
      CaseBlind s (.noneRelated d)

/-- **Comparisons of texts ask without a look at case.** -/
theorem Clause.caseBlind_lower {s : Settings} {r : ResolvedSelector} {terminal : Attribute}
    {op : Operator} {raw : String} {rest : List String} (hs : s.ignoreCase = true)
    (htexts : op.ReadsTexts (raw :: rest)) (replace : String → String) (reading : Reading) :
    Lowered.CaseBlind s ((ofTexts r terminal op raw rest).lower s replace reading) := by
  cases htexts with
  | one hop hnum =>
    rcases hop with rfl | rfl
    · exact .inPlace (s.caseBlind_withKey hs (s.caseBlind_equalTest hs hnum _))
    · simp only [lower, lowerNotEqual, reduceCtorEq, if_false]
      split
      · exact .inPlace (s.caseBlind_withKey hs (.and (.pair (.isNotNull _) (.notEqual_empty _))))
      · split
        · exact .inPlace (s.caseBlind_withKey hs
            (.or (.pair (.isNull _) (s.caseBlind_notEqualTest hs hnum _))))
        · exact .noneRelated (s.caseBlind_demandTest hs hnum)
  | many hop hne =>
    rcases hop with rfl | rfl
    · exact .inPlace (s.caseBlind_withKey hs (s.caseBlind_isInTest hs hne _))
    · simp only [lower, lowerNotIn]
      split
      · exact .inPlace (s.caseBlind_withKey hs
          (.or (.pair (.isNull _) (s.caseBlind_isInTest hs hne _).not)))
      · exact .noneRelated (s.caseBlind_isInTest hs hne)

/-! ## Selections -/

namespace Context

variable {ctx : Context} {st st' : Store} {b b' : Binding} {c : Comparison} {clause : Clause}
  {joins : List Attribute} {p : Predicate}

/-- **What passes a test without a look at case** stands at the end of a path in both stores, or in
none. -/
theorem passes_recased (hs : ctx.settings.ignoreCase = true) (hst : st.Recased st')
    (hb : b.Recased b') (hp : p.CaseBlind)
    (h : clause.Passes ctx.model st ctx.settings joins p b) :
    clause.Passes ctx.model st' ctx.settings joins p b' := by
  obtain ⟨c, ⟨hends, hkeys⟩, htest⟩ := h
  obtain ⟨c', hends', hc⟩ := Multiset.exists_mem_of_rel_of_mem (hb.along hst joins)
    (Binding.mem_along.2 hends)
  have holds : ∀ {test : Predicate}, test.CaseBlind → test.Holds ctx.model st.dialect c →
      test.Holds ctx.model st'.dialect c' := by
    intro test hblind htest
    rw [hst.dialect]
    exact (hblind.holds_iff hc).1 htest
  exact ⟨c', ⟨Binding.mem_along.1 hends', fun test hkey =>
    holds (Settings.caseBlind_keyTest hs _ _ test hkey) (hkeys test hkey)⟩, holds hp htest⟩

/-- **A comparison that does not look at case lists a record as often** in stores that are the same
but for letters. -/
theorem frequency_recased (hs : ctx.settings.ignoreCase = true)
    (hplan : ctx.schema.plan ctx.model c = (joins, .ok clause))
    (hid : clause.selector.field.identifier = (ctx.model.entity ctx.schema.entity).primaryKey)
    (hblind : Lowered.CaseBlind ctx.settings (clause.lower ctx.settings ctx.replace
      (Reading.ofSource clause.selector.shape clause.terminal root)))
    (hst : st.Recased st') (hb : b.Recased b') (hrow : b ∈ st.rows ctx.schema.entity)
    (hrow' : b' ∈ st'.rows ctx.schema.entity) :
    ctx.frequency st (.comparison c) b = ctx.frequency st' (.comparison c) b' := by
  suffices hsame : ((ctx.compared st b c none).map fun w => Conjoins w.1) =
      (ctx.compared st' b' c none).map fun w => Conjoins w.1 by
    rw [frequency, frequency, outcomes, outcomes, hsame]
  generalize hlower : clause.lower ctx.settings ctx.replace
    (Reading.ofSource clause.selector.shape clause.terminal root) = lowered at hblind
  cases hblind with
  | inPlace hp =>
    simp only [compared, hplan, hlower, hst.dialect, Binding.follow_none, Multiset.map_map]
    rw [← Multiset.rel_eq, Multiset.rel_map]
    refine (hb.along hst joins).mono fun c _ c' _ hc => ?_
    simp only [Function.comp_apply, propext (hp.holds_iff hc)]
  | @noneRelated d hd =>
    have hfinds : clause.Finds ctx.model st ctx.settings ctx.schema.entity joins d b ↔
        clause.Finds ctx.model st' ctx.settings ctx.schema.entity joins d b' := by
      rw [finds_iff hrow hid, finds_iff hrow' hid]
      exact ⟨passes_recased hs hst hb (hd _), passes_recased hs hst.symm hb.symm (hd _)⟩
    simp only [compared, hplan, hlower, propext hfinds]

/-- **Case is ignored.** Two selectors name the same, but for the letters of a map key; what they
name holds texts that no converter reads, and the negation of a comparison is tied to its row by the
primary key. They are compared with the same arguments, or with arguments that are the same in upper
case: one that is no numeral for `==` or `!=`, or a list for `=in=` or `=out=`. Then the two
comparisons compile to the same predicate, onto the same query. If the arguments are compared as
texts, then on a well-formed store, and on any store that is the same but for letters, the selection
lists the same records, each as often, in the same order. -/
theorem ignores_case {selector selector' : String} {r r' : ResolvedSelector} {terminal : Attribute}
    {op : Operator} {raws raws' : List String} (hs : ctx.settings.ignoreCase = true)
    (hresolve : ctx.schema.resolve selector = .ok r)
    (hresolve' : ctx.schema.resolve selector' = .ok r') (hr : r.Recased r')
    (hending : (ctx.model.route (some ctx.schema.entity) r.navigation).ending = .ok terminal)
    (htype : ctx.model.comparedType? r.shape terminal = some .text)
    (hconv : r.field.converter = none)
    (hid : r.field.identifier = (ctx.model.entity ctx.schema.entity).primaryKey)
    (hne : raws ≠ []) (hargs : op.Recases raws raws') :
    (∀ q : Query, q.compile ctx (.compareMany op selector' raws') =
      q.compile ctx (.compareMany op selector raws)) ∧
    ∃ predicate q, (recordsOf ctx.schema.entity).compile ctx (.compareMany op selector raws) =
        (.ok predicate, q) ∧
      (op.ReadsTexts raws → ∀ st st' : Store, st.WellFormed ctx.model → st.Recased st' →
        ∃ ids, Store.select ctx.model st q predicate = .ok ids ∧
          Store.select ctx.model st' q predicate = .ok ids) := by
  refine ⟨compile_recased hs hresolve hresolve' hr hending htype hconv hne hargs, ?_⟩
  obtain ⟨raw, rest, rfl⟩ := List.exists_cons_of_ne_nil hne
  have hplan := Schema.plan_texts hresolve hending htype hconv op raw rest
  obtain ⟨predicate, hok⟩ := compile_comparison (congrArg Prod.snd hplan)
  have hcompile : (recordsOf ctx.schema.entity).compile ctx
    (.compareMany op selector (raw :: rest)) = (.ok predicate, _) := Prod.ext hok rfl
  refine ⟨predicate, _, hcompile, fun htexts st st' hst hrecased => ?_⟩
  refine ⟨_, select_compile hst hcompile, ?_⟩
  rw [select_compile (hrecased.wellFormed hst) hcompile]
  refine congrArg Except.ok (flatMap_entries (hrecased.roots _) fun e he e' he' hsame => ?_).symm
  -- both tables have the record, and it is listed as often
  obtain ⟨id, record⟩ := e
  obtain ⟨id', record'⟩ := e'
  obtain rfl : id = id' := hsame
  have hrow : .row ctx.schema.entity id record ∈ st.rows ctx.schema.entity :=
    Store.mem_rows.2 (OrderedMap.find?_of_mem he)
  have hrow' : .row ctx.schema.entity id record' ∈ st'.rows ctx.schema.entity :=
    Store.mem_rows.2 (OrderedMap.find?_of_mem he')
  have hrecord : Record.Recased record record' := by
    obtain ⟨found, hfound, hrecord⟩ := hrecased.found (Store.mem_rows.1 hrow)
    exact Option.some.inj ((Store.mem_rows.1 hrow').symm.trans hfound) ▸ hrecord
  have hfrequency := frequency_recased hs hplan hid
    (Clause.caseBlind_lower hs htexts ctx.replace _) hrecased (.row ctx.schema.entity id hrecord)
    hrow hrow'
  rw [Filter.compareMany, hfrequency]

end Context

namespace Shop

/-- The colors of the first order in other letters, with the key of one. -/
def recolored : Store :=
  (((Store.empty .standard).insert "Attr" 5
    (OrderedMap.ofList [("k", .scalar (.text "COLOR")), ("v", .scalar (.text "Blue"))])).insert
    "Attr" 6
    (OrderedMap.ofList [("k", .scalar (.text "size")), ("v", .scalar (.text "red"))])).insert
    "Order" 1 (OrderedMap.ofList [("attrs", .collection [5, 6]),
      ("props", .map (OrderedMap.ofList [("COLOR", .text "Blue"), ("size", .text "red")]))])

theorem colored_recased : colored.Recased recolored := by
  have hattr : Record.Recased
      (OrderedMap.ofList [("k", .scalar (.text "Color")), ("v", .scalar (.text "blue"))])
      (OrderedMap.ofList [("k", .scalar (.text "COLOR")), ("v", .scalar (.text "Blue"))]) :=
    ((Record.Recased.refl _).insert (.scalar (.text (by decide))) "k").insert
      (.scalar (.text (by decide))) "v"
  have hprops : Cell.Recased
      (.map (OrderedMap.ofList [("Color", .text "blue"), ("size", .text "red")]))
      (.map (OrderedMap.ofList [("COLOR", .text "Blue"), ("size", .text "red")])) :=
    .map (.cons ⟨by decide, .text (by decide)⟩ (.cons ⟨rfl, .refl _⟩ .zero))
  have horder := ((Record.Recased.refl OrderedMap.empty).insert (.refl (.collection [5, 6]))
    "attrs").insert hprops "props"
  exact (((Store.Recased.refl _).insert hattr _ _).insert (.refl _) _ _).insert horder _ _

theorem weiss_ignores_case :
    (∀ q : Query, q.compile keyed (.compareMany .notEqual "prop.COLOR" ["WEISS"]) =
      q.compile keyed (.compareMany .notEqual "prop.color" ["weiß"])) ∧
    ∃ predicate q, (recordsOf "Order").compile keyed
        (.compareMany .notEqual "prop.color" ["weiß"]) = (.ok predicate, q) ∧
      ∃ ids, Store.select keyedModel colored q predicate = .ok ids ∧
        Store.select keyedModel recolored q predicate = .ok ids := by
  have hresolve : keyed.schema.resolve "prop.color" =
    .ok ⟨⟨ofProps, ["props"], some .native⟩, [], some "color"⟩ := by rfl
  have hresolve' : keyed.schema.resolve "prop.COLOR" =
    .ok ⟨⟨ofProps, ["props"], some .native⟩, [], some "COLOR"⟩ := by rfl
  have htexts : Operator.notEqual.ReadsTexts ["weiß"] := .one (Or.inr rfl) (by decide)
  have htexts' : Operator.notEqual.ReadsTexts ["WEISS"] := .one (Or.inr rfl) (by decide)
  obtain ⟨hcompile, predicate, q, hok, hselect⟩ := keyed.ignores_case rfl hresolve hresolve'
    ⟨rfl, rfl, by decide⟩ rfl rfl rfl rfl (by simp) (Or.inr ⟨htexts, htexts', by decide⟩)
  exact ⟨hcompile, predicate, q, hok, hselect htexts _ _ colored_wellFormed colored_recased⟩

end Shop

end EntityFilter
