import EntityFilter.Proofs.Compile.Checks
import EntityFilter.Proofs.Compile.Texts
import EntityFilter.Proofs.Wildcard.Upper

/-!
# Arguments in letters of either case

Where case is ignored, the kind of a test is decided by the argument as it is written, and the text
or the pattern that is compared is put into upper case afterwards. Arguments that are the same in
upper case come to the same test.

* `ResolvedSelector.Recased`, `Operator.Recases`: selectors and arguments that are the same but for
  letters.
* `Settings.textTest_recased`, `Settings.equalTest_recased`, `Settings.demandTest_recased`: tests.
* `Clause.lower_recased`: what clauses ask for.
* `Context.compile_recased`: comparisons compile to the same predicate, onto the same query.
-/

namespace EntityFilter

open Query

/-- **Selectors that are the same but for the letters of a map key.** -/
structure ResolvedSelector.Recased (r r' : ResolvedSelector) : Prop where
  entry : r'.entry = r.entry
  subs : r'.subs = r.subs
  key : r'.mapKey.map Text.upper = r.mapKey.map Text.upper

/-- **Arguments that are compared as texts**: one that is no numeral, by equality or its negation,
or some by membership or its negation. -/
inductive Operator.ReadsTexts : Operator → List String → Prop
  | one {op : Operator} {v : String} (hop : op = .equal ∨ op = .notEqual)
      (hnum : Text.isNumeral v = false) : ReadsTexts op [v]
  | many {op : Operator} {vs : List String} (hop : op = .isIn ∨ op = .isNotIn) (hne : vs ≠ []) :
      ReadsTexts op vs

/-- **Arguments of an operator that are the same but for letters**: arguments that are the same, or
that are compared as texts and are the same in upper case. -/
def Operator.Recases (op : Operator) (raws raws' : List String) : Prop :=
  raws' = raws ∨ (op.ReadsTexts raws ∧ op.ReadsTexts raws' ∧
    raws'.map Text.upper = raws.map Text.upper)

/-! ## Tests -/

namespace Settings

variable {s : Settings} {t t' : String}

/-- Texts are compared in upper case. -/
theorem caseText_of_ignoreCase (hs : s.ignoreCase = true) (t : String) :
    s.caseText t = Text.upper t :=
  if_pos hs

theorem caseExpr_of_ignoreCase (hs : s.ignoreCase = true) (e : Expr) : s.caseExpr e = .upper e :=
  if_pos hs

/-- What a test for a text is built of. -/
theorem parts_recased (hs : s.ignoreCase = true) (h : Text.upper t' = Text.upper t) :
    Wildcard.isPattern t' = Wildcard.isPattern t ∧
      s.caseText (Wildcard.toLike s.dialect t') = s.caseText (Wildcard.toLike s.dialect t) ∧
      s.caseText (Wildcard.literal t') = s.caseText (Wildcard.literal t) := by
  simp only [caseText_of_ignoreCase hs]
  refine ⟨?_, ?_, ?_⟩
  · rw [← Wildcard.isPattern_upper, h, Wildcard.isPattern_upper]
  · rw [Wildcard.toLike_upper, h, Wildcard.toLike_upper]
  · rw [Wildcard.literal_upper, h, Wildcard.literal_upper]

/-- **Texts that are the same in upper case have the same test.** -/
theorem textTest_recased (hs : s.ignoreCase = true) (h : Text.upper t' = Text.upper t) (e : Expr) :
    s.textTest e t' = s.textTest e t := by
  obtain ⟨hpat, hlike, hliteral⟩ := parts_recased hs h
  rw [textTest, textTest, hpat, hlike, hliteral]

theorem notTextTest_recased (hs : s.ignoreCase = true) (h : Text.upper t' = Text.upper t)
    (e : Expr) : s.notTextTest e t' = s.notTextTest e t := by
  obtain ⟨hpat, hlike, hliteral⟩ := parts_recased hs h
  rw [notTextTest, notTextTest, hpat, hlike, hliteral]

/-- One of them is empty if the other one is. -/
theorem eq_empty_recased (h : Text.upper t' = Text.upper t) : t' = "" ↔ t = "" := by
  rw [← Text.upper_eq_empty, h, Text.upper_eq_empty]

/-- **Lists of texts that are the same in upper case have the same test.** -/
theorem isInTest_recased (hs : s.ignoreCase = true) {vs vs' : List String}
    (h : vs'.map Text.upper = vs.map Text.upper) (e : Expr) :
    s.isInTest e (vs'.map .text) = s.isInTest e (vs.map .text) := by
  have htexts : ∀ vs : List String, (vs.map Value.text).filterMap Value.text? = vs := by
    intro vs
    rw [List.filterMap_map]
    exact List.filterMap_some
  have hupper : ∀ vs : List String, (vs.map fun t => Value.text (s.caseText t)) =
      (vs.map Text.upper).map .text := by
    intro vs
    simp only [caseText_of_ignoreCase hs, List.map_map, Function.comp_def]
  have hempty : vs'.isEmpty = vs.isEmpty := by
    rw [← List.isEmpty_map, h, List.isEmpty_map]
  have hnil : vs.isEmpty = true → vs' = vs := by
    intro hvs
    rw [List.isEmpty_iff.1 hvs, List.isEmpty_iff.1 (hempty.trans hvs)]
  simp only [isInTest, htexts, hupper, h, hempty]
  split
  · rw [hnil ‹_›]
  · rfl

variable (hs : s.ignoreCase = true) (hnum : Text.isNumeral t = false)
  (hnum' : Text.isNumeral t' = false) (h : Text.upper t' = Text.upper t)
include hs hnum hnum' h

theorem equalTest_recased (e : Expr) : s.equalTest e (.text t') = s.equalTest e (.text t) := by
  simp only [equalTest, hnum, hnum', Bool.false_eq_true, if_false, eq_empty_recased h,
    textTest_recased hs h]

theorem notEqualTest_recased (e : Expr) :
    s.notEqualTest e (.text t') = s.notEqualTest e (.text t) := by
  simp only [notEqualTest, hnum, hnum', Bool.false_eq_true, if_false, notTextTest_recased hs h]

theorem demandTest_recased (e : Expr) :
    s.demandTest e (.equal (.text t')) = s.demandTest e (.equal (.text t)) := by
  simp only [demandTest, hnum, hnum', Bool.false_eq_true, if_false, textTest_recased hs h]

end Settings

/-! ## Clauses -/

/-- The clause of arguments that are read as the texts that they are written as. -/
abbrev Clause.ofTexts (r : ResolvedSelector) (terminal : Attribute) (op : Operator) (raw : String)
    (rest : List String) : Clause :=
  ⟨r, terminal, op, raw, .text raw, (raw :: rest).map .text⟩

/-- **What a comparison comes to** whose arguments are read as texts. -/
theorem Schema.plan_texts {m : Model} {s : Schema} {r : ResolvedSelector} {terminal : Attribute}
    {selector : String} (hresolve : s.resolve selector = .ok r)
    (hending : (m.route (some s.entity) r.navigation).ending = .ok terminal)
    (htype : m.comparedType? r.shape terminal = some .text) (hconv : r.field.converter = none)
    (op : Operator) (raw : String) (rest : List String) :
    s.plan m ⟨selector, op.symbol, raw :: rest⟩ =
      ((m.route (some s.entity) r.navigation).joins, .ok (.ofTexts r terminal op raw rest)) := by
  refine plan_eq_ok_iff.2 ⟨rfl, hresolve, hending, Operator.ofSymbol?_symbol op, rfl, rfl, ?_⟩
  refine List.forall₂_map_right_iff.2 (List.forall₂_same.2 fun v _ => ?_)
  exact Field.readArgument_text (Or.inl htype) hconv

/-- **What is asked for alike**: the same test, or demands that have the same test. -/
inductive Lowered.Alike (s : Settings) : Lowered → Lowered → Prop
  | inPlace (p : Predicate) : Alike s (.inPlace p) (.inPlace p)
  | noneRelated {d d' : Demand} (h : ∀ e, s.demandTest e d' = s.demandTest e d) :
      Alike s (.noneRelated d) (.noneRelated d')

theorem Lowered.Alike.refl {s : Settings} (lowered : Lowered) : Alike s lowered lowered := by
  cases lowered with
  | inPlace p => exact .inPlace p
  | noneRelated d => exact .noneRelated fun _ => rfl

namespace ResolvedSelector.Recased

variable {r r' : ResolvedSelector} {s : Settings}

theorem navigation (h : r.Recased r') : r'.navigation = r.navigation := by
  rw [ResolvedSelector.navigation, ResolvedSelector.navigation, h.entry, h.subs]

theorem shape (h : r.Recased r') : r'.shape = r.shape := by
  rw [ResolvedSelector.shape, ResolvedSelector.shape, h.entry]

theorem field (h : r.Recased r') : r'.field = r.field := by
  rw [ResolvedSelector.field, ResolvedSelector.field, h.entry]

/-- **Keys that are the same in upper case have the same test.** -/
theorem keyTest (h : r.Recased r') (hs : s.ignoreCase = true) (reading : Reading) :
    s.keyTest reading r'.mapKey = s.keyTest reading r.mapKey := by
  have hkey := h.key
  cases hr' : r'.mapKey with
  | none =>
    rw [hr', Option.map_none, eq_comm, Option.map_eq_none_iff] at hkey
    rw [hkey]
  | some k' =>
    rw [hr', Option.map_some] at hkey
    obtain ⟨k, hr, hupper⟩ := Option.map_eq_some_iff.1 hkey.symm
    rw [hr]
    cases hkey : reading.key with
    | none => simp only [Settings.keyTest, hkey]
    | some e => simp only [Settings.keyTest, hkey, Settings.caseText_of_ignoreCase hs, hupper]

theorem withKey (h : r.Recased r') (hs : s.ignoreCase = true) (reading : Reading)
    (p : Predicate) : s.withKey reading r'.mapKey p = s.withKey reading r.mapKey p := by
  rw [Settings.withKey, Settings.withKey, h.keyTest hs]

end ResolvedSelector.Recased

section Clauses

variable {ctx : Context} {s : Settings} {r r' : ResolvedSelector} {terminal : Attribute}
  {op : Operator} {raw raw' : String} {rest rest' : List String}

section Lowering

variable {replace : String → String} {reading : Reading} (hs : s.ignoreCase = true)
include hs

/-- The key makes no difference beyond its test, which is the same. -/
theorem Clause.lower_rekeyed (hr : r.Recased r') :
    (ofTexts r' terminal op raw rest).lower s replace reading =
      (ofTexts r terminal op raw rest).lower s replace reading := by
  have hsimple : r'.isSimple = r.isSimple := by
    rw [ResolvedSelector.isSimple, ResolvedSelector.isSimple, hr.navigation]
  cases op <;> simp only [lower, lowerNotEqual, lowerNotIn, lowerOrder, hsimple, hr.withKey hs]

/-- One argument for an equality or its negation may be in other letters. -/
theorem Clause.lower_one (hop : op = .equal ∨ op = .notEqual) (hnum : Text.isNumeral raw = false)
    (hnum' : Text.isNumeral raw' = false) (h : Text.upper raw' = Text.upper raw) :
    Lowered.Alike s ((ofTexts r terminal op raw []).lower s replace reading)
      ((ofTexts r terminal op raw' []).lower s replace reading) := by
  rcases hop with rfl | rfl
  · simp only [lower, Settings.equalTest_recased hs hnum hnum' h]
    exact .inPlace _
  · simp only [lower, lowerNotEqual, reduceCtorEq, if_false, Value.text.injEq,
      Settings.eq_empty_recased h, Settings.notEqualTest_recased hs hnum hnum' h]
    by_cases hempty : raw = ""
    · simp only [if_pos hempty]
      exact .inPlace _
    · simp only [if_neg hempty]
      by_cases hsimple : r.isSimple = true
      · simp only [if_pos hsimple]
        exact .inPlace _
      · simp only [if_neg hsimple]
        exact .noneRelated (Settings.demandTest_recased hs hnum hnum' h)

/-- So may the arguments for a membership or its negation. -/
theorem Clause.lower_many (hop : op = .isIn ∨ op = .isNotIn)
    (h : (raw' :: rest').map Text.upper = (raw :: rest).map Text.upper) :
    Lowered.Alike s ((ofTexts r terminal op raw rest).lower s replace reading)
      ((ofTexts r terminal op raw' rest').lower s replace reading) := by
  have htest := Settings.isInTest_recased hs h
  rcases hop with rfl | rfl
  · simp only [lower, htest]
    exact .inPlace _
  · simp only [lower, lowerNotIn, htest]
    by_cases hsimple : r.isSimple = true
    · simp only [if_pos hsimple]
      exact .inPlace _
    · simp only [if_neg hsimple]
      exact .noneRelated htest

/-- **Clauses that are the same but for letters ask for the same.** -/
theorem Clause.lower_recased (hr : r.Recased r')
    (hargs : op.Recases (raw :: rest) (raw' :: rest')) :
    Lowered.Alike s ((ofTexts r terminal op raw rest).lower s replace reading)
      ((ofTexts r' terminal op raw' rest').lower s replace reading) := by
  rw [lower_rekeyed hs hr]
  rcases hargs with hsame | ⟨htexts, htexts', h⟩
  · obtain ⟨rfl, rfl⟩ := List.cons.inj hsame
    exact .refl _
  · cases htexts with
    | many hop _ => exact lower_many hs hop h
    | one hop hnum =>
      cases htexts' with
      | one _ hnum' => exact lower_one hs hop hnum hnum' (List.cons.inj h).1
      | many hop' => rcases hop with rfl | rfl <;> rcases hop' with hop' | hop' <;> cases hop'

end Lowering

/-- What a comparison does after its path is joined depends on what it asks for. -/
theorem Context.finish_alike {clause clause' : Clause} {joins : List Attribute} {last : SourceId}
    {p : Progress} (hs : ctx.settings.ignoreCase = true)
    (hr : clause.selector.Recased clause'.selector) (hop : clause'.operator = clause.operator)
    (hterminal : clause'.terminal = clause.terminal)
    (hlower : ∀ reading, Lowered.Alike ctx.settings
      (clause.lower ctx.settings ctx.replace reading)
      (clause'.lower ctx.settings ctx.replace reading)) :
    ctx.finish clause' joins last p = ctx.finish clause joins last p := by
  simp only [finish, hr.shape, hterminal, hop]
  generalize Reading.ofSource clause.selector.shape clause.terminal last = reading
  have hreading := hlower reading
  generalize clause.lower ctx.settings ctx.replace reading = lowered at hreading
  generalize clause'.lower ctx.settings ctx.replace reading = lowered' at hreading
  cases hreading with
  | inPlace p => rfl
  | noneRelated h =>
    simp only [Progress.excludeRelated, hr.shape, hterminal, hr.field, hr.keyTest hs, h]

/-- **Comparisons that are the same but for letters compile alike** where case is ignored: to the
same predicate, onto the same query, whatever the query is. -/
theorem Context.compile_recased {selector selector' : String} {raws raws' : List String}
    (hs : ctx.settings.ignoreCase = true) (hresolve : ctx.schema.resolve selector = .ok r)
    (hresolve' : ctx.schema.resolve selector' = .ok r') (hr : r.Recased r')
    (hending : (ctx.model.route (some ctx.schema.entity) r.navigation).ending = .ok terminal)
    (htype : ctx.model.comparedType? r.shape terminal = some .text)
    (hconv : r.field.converter = none) (hne : raws ≠ []) (hargs : op.Recases raws raws')
    (q : Query) :
    q.compile ctx (.compareMany op selector' raws') =
      q.compile ctx (.compareMany op selector raws) := by
  have hne' : raws' ≠ [] := by
    rintro rfl
    rcases hargs with hsame | ⟨-, -, h⟩
    · exact hne hsame.symm
    · exact hne (List.map_eq_nil_iff.1 h.symm)
  obtain ⟨raw, rest, rfl⟩ := List.exists_cons_of_ne_nil hne
  obtain ⟨raw', rest', rfl⟩ := List.exists_cons_of_ne_nil hne'
  have hplan := Schema.plan_texts hresolve hending htype hconv op raw rest
  have hplan' := Schema.plan_texts hresolve' (hr.navigation ▸ hending) (hr.shape ▸ htype)
    (hr.field ▸ hconv) op raw' rest'
  rw [hr.navigation] at hplan'
  have hfinish : ∀ {joins last p},
      ctx.finish (.ofTexts r' terminal op raw' rest') joins last p =
        ctx.finish (.ofTexts r terminal op raw rest) joins last p :=
    finish_alike hs hr rfl rfl fun _ => Clause.lower_recased hs hr hargs
  have hrun : ctx.compileComparison ⟨selector', op.symbol, raw' :: rest'⟩ =
      ctx.compileComparison ⟨selector, op.symbol, raw :: rest⟩ := by
    funext p
    have h := ctx.run_compileComparison ⟨selector, op.symbol, raw :: rest⟩ p
    have h' := ctx.run_compileComparison ⟨selector', op.symbol, raw' :: rest'⟩ p
    simp only [hplan] at h
    simp only [hplan', hfinish] at h'
    exact h'.trans h.symm
  simp only [Query.compile, Filter.compareMany, compileFilter, hrun]

end Clauses

end EntityFilter
