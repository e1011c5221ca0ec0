import EntityFilter.Proofs.Compile.Answers
import EntityFilter.Proofs.Compile.Renumbered
import EntityFilter.Proofs.Compile.Trails
import EntityFilter.Proofs.Text.Numeral
import EntityFilter.Proofs.Wildcard.Language
import Mathlib.Data.List.Flatten

/-!
# Comparisons of texts

An argument for a text attribute is tested in one of three ways: as a numeral, as a pattern, or as
the text that is left when the backslashes before asterisks are taken out. Each of them is a test
for the texts that the argument stands for.

* `Settings.holds_equalTest`: the three tests are one, told by `Wildcard.Means`.
* `Schema.plan_text`: what a comparison comes to whose argument is read as a text.
* `Context.compile_inPlace`, `Context.compile_local`: what the query is left with; a test of the
  root needs nothing of it.
* `Store.select_local`: it lists the records that it holds for, on every store.
* `Context.equal_answers_meant`: a text attribute of the root is compared by the language of the
  argument.
-/

namespace EntityFilter

open Query

/-! ## Tests -/

/-- A test of an expression holds if the test of its value is true. -/
theorem Predicate.holds_of_test? {m : Model} {d : Dialect} {p : Predicate} {e : Expr}
    {f : Value → Truth} {b : Binding} (h : test? d p = some (e, f)) :
    p.Holds m d b ↔ f (e.valueIn m b) = .yes := by
  rw [Holds, value_of_test? h, Expr.value_eq rfl]

/-- A text is equal to itself and to no other one. -/
theorem Value.equals_text {t w : String} : (text t).equals (text w) = .yes ↔ t = w := by
  rw [equals, order?, orderWithText?, Option.map_some, Truth.ofOption, Truth.ofBool_eq_yes,
    beq_iff_eq, Std.compare_eq_iff_eq]

namespace Settings

variable {m : Model} {d : Dialect} {e : Expr} {b : Binding} {t w : String}

/-- The kinds of tests for an argument that is not empty. -/
theorem equalTest_cases (s : Settings) (e : Expr) (hw : w ≠ "") :
    (Text.isNumeral w = true ∧ s.equalTest e (.text w) = .equal e (.text w)) ∨
      (Wildcard.isPattern w = true ∧ s.equalTest e (.text w) =
        .likePattern (s.caseExpr e) (s.caseText (Wildcard.toLike s.dialect w))) ∨
      (Wildcard.isPattern w = false ∧ s.equalTest e (.text w) =
        .equal (s.caseExpr e) (.text (s.caseText (Wildcard.literal w)))) := by
  by_cases hnum : Text.isNumeral w = true
  · exact Or.inl ⟨hnum, by rw [equalTest, if_pos hnum]⟩
  · rw [equalTest, if_neg hnum, if_neg hw, textTest]
    by_cases hpat : Wildcard.isPattern w = true
    · exact Or.inr (Or.inl ⟨hpat, if_pos hpat⟩)
    · exact Or.inr (Or.inr ⟨eq_false_of_ne_true hpat, if_neg hpat⟩)

/-- **The test for an argument holds for the texts that the argument stands for**, whichever test it
is. -/
theorem holds_equalTest (hw : w ≠ "") (ht : e.valueIn m b = .text t) :
    (standard.equalTest e (.text w)).Holds m .standard b ↔ Wildcard.Means w.toList t.toList := by
  have hexpr : standard.caseExpr e = e := rfl
  have htext : ∀ text, standard.caseText text = text := fun _ => rfl
  have hcases := equalTest_cases standard e hw
  rw [hexpr, htext, htext] at hcases
  obtain ⟨hnum, htest⟩ | ⟨-, htest⟩ | ⟨hpat, htest⟩ := hcases
  · -- a numeral is not read for wildcards, and has none
    rw [htest, Predicate.holds_of_test? rfl, ht, Value.equals_text,
      Wildcard.means_iff_self (Text.plain_of_isNumeral hnum)]
    exact String.toList_inj.symm
  · rw [htest, Predicate.holds_of_test? rfl, ht, ← Wildcard.matches_standard_iff]
    exact Truth.ofBool_eq_yes
  · rw [htest, Predicate.holds_of_test? rfl, ht, Value.equals_text,
      Wildcard.means_iff_literal hpat, Wildcard.literal, ← String.toList_inj,
      String.toList_ofList]

/-- NULL passes no test for an argument that is not empty. -/
theorem not_holds_equalTest (s : Settings) (hw : w ≠ "") (hnull : e.valueIn m b = .null) :
    ¬(s.equalTest e (.text w)).Holds m d b := by
  have hexpr : (s.caseExpr e).valueIn m b = .null := by
    unfold caseExpr
    split
    · rw [Expr.valueIn, hnull]
    · exact hnull
  obtain ⟨-, htest⟩ | ⟨-, htest⟩ | ⟨-, htest⟩ := equalTest_cases s e hw <;> rw [htest]
  · rw [Predicate.holds_of_test? rfl, hnull]
    intro h
    cases h
  · rw [Predicate.holds_of_test? rfl, hexpr]
    intro h
    cases h
  · rw [Predicate.holds_of_test? rfl, hexpr]
    intro h
    cases h

end Settings

/-! ## Comparisons -/

section Plans

variable {m : Model} {s : Schema} {r : ResolvedSelector} {f : Field} {terminal a : Attribute}
  {selector v root : String} {fields : List Field}

/-- An argument for a text or a number is the text that it is written as. -/
theorem Field.readArgument_text {type : Option ScalarType}
    (htype : type = some .text ∨ type = some .int ∨ type = none) (hconv : f.converter = none) :
    f.readArgument m selector type v = .ok (.text v) := by
  unfold readArgument
  rcases htype with rfl | rfl | rfl <;> rw [hconv]

/-- **What a comparison comes to** whose path does not break and whose argument is read as a
text. -/
theorem Schema.plan_text (hresolve : s.resolve selector = .ok r)
    (hending : (m.route (some s.entity) r.navigation).ending = .ok terminal)
    (hread : r.field.readArgument m selector (m.comparedType? r.shape terminal) v =
      .ok (.text v)) (op : Operator) :
    s.plan m ⟨selector, op.symbol, [v]⟩ =
      ((m.route (some s.entity) r.navigation).joins,
        .ok ⟨r, terminal, op, v, .text v, [.text v]⟩) := by
  have hvalues : [v].mapM (r.field.readArgument m selector (m.comparedType? r.shape terminal)) =
      .ok [.text v] := by
    rw [List.mapM_cons, hread]
    rfl
  unfold plan
  simp only [hresolve, clause, hending]
  refine Prod.ext rfl (bind_eq_ok.2 ⟨terminal, rfl, bind_eq_ok.2 ⟨_, hvalues, ?_⟩⟩)
  rw [Operator.ofSymbol?_symbol]
  rfl

/-- **A comparison of a basic attribute of texts or numbers** of the root entity reads the attribute
from the root and joins nothing. -/
theorem Schema.plan_basic {type : ScalarType} (hreg : Schema.register m root fields = .ok s)
    (hresolve : s.resolve selector = .ok r) (hpath : r.navigation = [a.name])
    (ha : (m.entity s.entity).attribute? a.name = some a) (hk : a.kind = .basic type)
    (htype : type = .text ∨ type = .int) (hconv : r.field.converter = none) (op : Operator) :
    s.plan m ⟨selector, op.symbol, [v]⟩ = ([], .ok ⟨r, a, op, v, .text v, [.text v]⟩) ∧
      r.shape = none ∧ r.mapKey = none := by
  have hroute : m.route (some s.entity) r.navigation = .stop (.ok a) := by
    rw [hpath]
    simp [Model.route, ha, hk, Kind.isBasic]
  have hcompared : m.comparedType? r.shape a = some .text ∨
      m.comparedType? r.shape a = some .int ∨ m.comparedType? r.shape a = none := by
    rcases hshape : r.shape with _ | _ | attributes <;> rcases htype with rfl | rfl <;>
      simp [Model.comparedType?, hk, Kind.target?, Kind.scalarType?]
  have hplan := Schema.plan_text hresolve (congrArg Route.ending hroute)
    (Field.readArgument_text (v := v) hcompared hconv) op
  rw [hroute] at hplan
  refine ⟨hplan, ?_⟩
  obtain ⟨hs, hkey⟩ | ⟨-, -, hmap⟩ | ⟨-, -, hb⟩ := ending_of_plan hreg (congrArg Prod.snd hplan)
  · exact ⟨hs, hkey⟩
  · rw [hk] at hmap
    cases hmap
  · rw [hk] at hb
    cases hb

end Plans

/-! ## The query of all records -/

section Root

variable {ctx : Context} {m : Model} {s : Store} {c : Comparison} {clause : Clause}
  {predicate : Predicate} {e : String}

theorem Query.markReferenced_root : (recordsOf e).markReferenced root = recordsOf e := by
  have hlineage : (recordsOf e).lineage root = [root] := lineage_root (arena_recordsOf e)
  rw [markReferenced, hlineage]
  rfl

/-- **What a comparison compiles to** that asks for a test in place: the test, and the query with
the joins of its path. -/
theorem Context.compile_inPlace {q : Query} {joins : List Attribute} {last : SourceId}
    {p : Progress} (he : q.entity = ctx.schema.entity)
    (hplan : ctx.schema.plan ctx.model c = (joins, .ok clause))
    (hjoined : Progress.joinAll root joins ⟨q, none, false⟩ = (last, p))
    (hlower : clause.lower ctx.settings ctx.replace
      (Reading.ofSource clause.selector.shape clause.terminal last) = .inPlace predicate) :
    q.compile ctx (.comparison c) =
      (.ok predicate, (p.query.markReferenced last).discardUnused) := by
  have hlocal : predicate.Local last :=
    Clause.local_of_inPlace (Reading.ofSource_at _ _ last) hlower
  have hsources : (p.note clause.operator).query.markAll predicate.sources =
      p.query.markReferenced last := by
    rw [hlocal.sources]
    rfl
  have hrun : (ctx.compileComparison c).run ⟨q, none, false⟩ =
      .ok predicate { p.note clause.operator with query := p.query.markReferenced last } := by
    rw [run_compileComparison, hplan]
    simp only [hjoined, finish, hlower, hsources]
  unfold Query.compile
  rw [if_neg (fun hne => hne he), compileFilter, EStateM.run_bind, hrun]
  rfl

/-- A test of the root needs nothing of the query. -/
theorem Context.compile_local (hplan : ctx.schema.plan ctx.model c = ([], .ok clause))
    (hlower : clause.lower ctx.settings ctx.replace
      (Reading.ofSource clause.selector.shape clause.terminal root) = .inPlace predicate) :
    (recordsOf ctx.schema.entity).compile ctx (.comparison c) =
      (.ok predicate, recordsOf ctx.schema.entity) := by
  rw [compile_inPlace rfl hplan rfl hlower, markReferenced_root]
  rfl

/-- A query without joins keeps everything, on every store. -/
theorem Query.steady_recordsOf :
    (recordsOf e).Steady s (fun _ => False) (fun _ _ => True) := by
  refine ⟨fun _ _ _ _ => trivial, fun hsrc _ hk => ?_⟩
  obtain ⟨-, rfl⟩ := source?_recordsOf hsrc
  cases hk

/-- The root of the query of all records is bound to one record after the other. -/
theorem Query.mem_envs_recordsOf {env : Env} :
    env ∈ (recordsOf e).envs s [root] Env.empty ↔
      ∃ id record, s.record? e id = some record ∧
        env = Env.empty.set root (.row e id record) := by
  have hchoices : (recordsOf e).choices s Env.empty root = s.rows e := rfl
  rw [envs, hchoices, List.mem_flatMap]
  constructor
  · rintro ⟨b, hb, henv⟩
    obtain ⟨id, record, rfl, hrecord⟩ := Store.record?_of_mem_rows hb
    exact ⟨id, record, hrecord, List.mem_singleton.1 henv⟩
  · rintro ⟨id, record, hrecord, rfl⟩
    exact ⟨_, Store.mem_rows.2 hrecord, List.mem_singleton_self _⟩

/-- A record is chosen if the test holds for it. -/
theorem Query.mem_chosen_recordsOf (hp : predicate.Local root) {id id' : Int} {record : Record} :
    id' ∈ (recordsOf e).chosen m s predicate (Env.empty.set root (.row e id record)) ↔
      id' = id ∧ predicate.Holds m s.dialect (.row e id record) := by
  have hroot := Env.set_self Env.empty root (.row e id record)
  have hvalue : (recordsOf e).value m s predicate (Env.empty.set root (.row e id record)) = .yes ↔
      predicate.Holds m s.dialect (.row e id record) := hp.value_eq hroot
  rw [chosen_of_root hroot]
  by_cases hholds : predicate.Holds m s.dialect (.row e id record)
  · rw [if_pos (hvalue.2 hholds)]
    simp [hholds]
  · rw [if_neg (fun hyes => hholds (hvalue.1 hyes))]
    simp [hholds]

/-- The root of the query of all records has its identifier chosen, if at all, and no other one. -/
theorem Query.chosen_recordsOf_sublist {id : Int} {record : Record} :
    ((recordsOf e).chosen m s predicate
      (Env.empty.set root (.row e id record))).Sublist [id] := by
  rw [chosen_of_root (Env.set_self _ _ _)]
  split
  · exact .refl _
  · exact List.nil_sublist _

/-- **A test of the root lists the records that it holds for**, each once, whatever the store
holds. -/
theorem Store.select_local (hp : predicate.Local root) :
    ∃ ids, select m s (recordsOf e) predicate = .ok ids ∧
      ids.Sublist ((s.table e).entries.map Prod.fst) ∧
      ∀ id record, s.record? e id = some record →
        (id ∈ ids ↔ predicate.Holds m s.dialect (.row e id record)) := by
  have hactive : (recordsOf e).activeIn .outer = [root] := rfl
  have hreads : ∀ i ∈ predicate.reads, i ∈ (recordsOf e).activeIn .outer := by
    intro i hi
    rw [(hp.reads i).1 hi, hactive]
    exact List.mem_singleton_self root
  have hsteady : (recordsOf e).Steady s (fun _ => False) (fun _ _ => True) := steady_recordsOf
  have hselect := (select_yields (m := m) (arena_recordsOf e) (sound_recordsOf e).parentActive
    hsteady (readsWithin_of_flat hreads hp.flat)).eq_ok
  refine ⟨_, hselect, ?_, fun id record hrecord => ?_⟩
  · have hchoices : (recordsOf e).choices s Env.empty root = s.rows e := rfl
    rw [hactive, envs, hchoices, Store.rows, List.flatMap_assoc, List.flatMap_map,
      List.map_eq_flatMap]
    refine List.Sublist.flatMap_right _ fun entry _ => ?_
    rw [envs, List.flatMap_singleton]
    exact chosen_recordsOf_sublist
  · rw [hactive, List.mem_flatMap]
    constructor
    · rintro ⟨env, henv, hid⟩
      obtain ⟨id', record', hrecord', rfl⟩ := mem_envs_recordsOf.1 henv
      obtain ⟨rfl, hholds⟩ := (mem_chosen_recordsOf hp).1 hid
      obtain rfl := Option.some.inj (hrecord.symm.trans hrecord')
      exact hholds
    · intro hholds
      exact ⟨_, mem_envs_recordsOf.2 ⟨id, record, hrecord, rfl⟩,
        (mem_chosen_recordsOf hp).2 ⟨rfl, hholds⟩⟩

/-- **A test of the root selects the records that it holds for**, whatever the store holds. -/
theorem Store.selectDistinct_local (hp : predicate.Local root) :
    ∃ ids, selectDistinct m s (recordsOf e) predicate = .ok ids ∧
      ∀ id record, s.record? e id = some record →
        (id ∈ ids ↔ predicate.Holds m s.dialect (.row e id record)) := by
  obtain ⟨ids, hselect, -, hmem⟩ := select_local (m := m) (s := s) (e := e) hp
  exact ⟨_, congrArg (Except.map distinct) hselect,
    fun id record hrecord => mem_distinct.trans (hmem id record hrecord)⟩

end Root

/-! ## Answers -/

/-- **A text attribute of the root is compared by the language of the argument.** The argument is
not empty, neither the compiler nor the store is set to anything but the standard, and the attribute
is no primary key and has no conversion. Then on every store the comparison is answered, by the
records that hold a text for which the argument stands, and by no record that holds NULL. -/
theorem Context.equal_answers_meant {ctx : Context} {st : Store} {root selector v : String}
    {fields : List Field} {r : ResolvedSelector} {a : Attribute}
    (hreg : Schema.register ctx.model root fields = .ok ctx.schema)
    (hresolve : ctx.schema.resolve selector = .ok r) (hpath : r.navigation = [a.name])
    (ha : (ctx.model.entity ctx.schema.entity).attribute? a.name = some a)
    (hk : a.kind = .basic .text)
    (hkey : a.name ≠ (ctx.model.entity ctx.schema.entity).primaryKey)
    (hconv : r.field.converter = none) (hs : ctx.settings = .standard)
    (hd : st.dialect = .standard) (hv : v ≠ "") :
    ∃ ids, ctx.Answers st (.compareOne .equal selector v) ids ∧
      ∀ id record, st.record? ctx.schema.entity id = some record →
        (∀ t, record.find? a.name = some (.scalar (.text t)) →
          (id ∈ ids ↔ Wildcard.Means v.toList t.toList)) ∧
        (record.find? a.name = none ∨ record.find? a.name = some (.scalar .null) → id ∉ ids) := by
  obtain ⟨hplan, hshape, hmapKey⟩ :=
    Schema.plan_basic (v := v) hreg hresolve hpath ha hk (Or.inl rfl) hconv .equal
  let clause : Clause := ⟨r, a, .equal, v, .text v, [.text v]⟩
  let e := Expr.column Query.root a.name
  have hreading :
      Reading.ofSource clause.selector.shape clause.terminal Query.root = ⟨e, none⟩ := by
    simp only [clause, Reading.ofSource, hshape, hk, e]
  have hlower : clause.lower ctx.settings ctx.replace
      (Reading.ofSource clause.selector.shape clause.terminal Query.root) =
        .inPlace (ctx.settings.equalTest e (.text v)) := by
    rw [hreading]
    rfl
  have hlocal : (ctx.settings.equalTest e (.text v)).Local Query.root :=
    Clause.local_of_inPlace (Reading.ofSource_at _ _ Query.root) hlower
  obtain ⟨ids, hselect, hids⟩ :=
    Store.selectDistinct_local (m := ctx.model) (s := st) (e := ctx.schema.entity) hlocal
  refine ⟨ids, ⟨_, _, compile_local hplan hlower, hselect⟩, fun id record hrecord => ?_⟩
  rw [hids id record hrecord, hd]
  have hvalue : ∀ {w : Value}, record.find? a.name = some (.scalar w) →
      e.valueIn ctx.model (.row ctx.schema.entity id record) = w := by
    intro w hw
    refine (if_neg hkey).trans ?_
    rw [hw]
  have hnone : record.find? a.name = none →
      e.valueIn ctx.model (.row ctx.schema.entity id record) = .null := by
    intro hmissing
    refine (if_neg hkey).trans ?_
    rw [hmissing]
  constructor
  · intro t ht
    rw [hs]
    exact Settings.holds_equalTest hv (hvalue ht)
  · intro hnull
    refine Settings.not_holds_equalTest ctx.settings hv ?_
    rcases hnull with hmissing | hnull
    · exact hnone hmissing
    · exact hvalue hnull

namespace Shop

/-- Customers have names. -/
def byName : Field := ⟨"name", "name", [], false, none, "id", none⟩

/-- Customers may be filtered by their names. -/
def named : Context :=
  ⟨⟨[], [⟨"Customer", "id", [⟨"id", .basic .int⟩, ⟨"name", .basic .text⟩]⟩]⟩,
    ⟨"Customer", [⟨byName, ["name"], none⟩]⟩, .standard, id⟩

/-- One customer has an asterisk in the name, one has none, and one has no name. -/
def namedCustomers : Store :=
  (((Store.empty .standard).insert "Customer" 1
    (OrderedMap.ofList [("name", .scalar (.text "5*_hotel"))])).insert "Customer" 2
    (OrderedMap.ofList [("name", .scalar (.text "5star_hotel"))])).insert "Customer" 3
    (OrderedMap.ofList [("name", .scalar .null)])

theorem customers_answer_meant :
    Schema.register named.model "Customer" [byName] = .ok named.schema ∧
      ∃ ids, named.Answers namedCustomers (.compareOne .equal "name" "5\\*_*") ids ∧
        ∀ id record, namedCustomers.record? "Customer" id = some record →
          (∀ t, record.find? "name" = some (.scalar (.text t)) →
            (id ∈ ids ↔ Wildcard.Means "5\\*_*".toList t.toList)) ∧
          (record.find? "name" = none ∨ record.find? "name" = some (.scalar .null) → id ∉ ids) := by
  have hreg : Schema.register named.model "Customer" [byName] = .ok named.schema := by rfl
  have hresolve : named.schema.resolve "name" = .ok ⟨⟨byName, ["name"], none⟩, [], none⟩ := by rfl
  let name : Attribute := ⟨"name", .basic .text⟩
  have ha : (named.model.entity "Customer").attribute? name.name = some name := by rfl
  have hkey : name.name ≠ (named.model.entity "Customer").primaryKey := by decide
  have hd : namedCustomers.dialect = .standard := by rfl
  have hv : "5\\*_*" ≠ "" := by decide
  have hanswer := Context.equal_answers_meant hreg hresolve rfl ha rfl hkey rfl rfl hd hv
  exact ⟨hreg, hanswer⟩

end Shop

end EntityFilter
