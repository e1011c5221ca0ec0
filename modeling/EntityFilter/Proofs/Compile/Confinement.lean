import EntityFilter.Proofs.Compile.Agreement

/-!
# What filters read

A filter reads the attributes that its comparisons see, on their paths and at the ends of these, and
nothing else of a store. For selectors with at most one name below a field these are declared.

* `Context.select_alike`: on stores that agree on what a filter sees, it selects the same.
* `Context.select_declared`: on stores that agree on what is declared, so does a filter whose longer
  selectors have declared paths.
* `Shop.tagName_read`: a longer selector whose path is not declared reads what is not declared.
-/

namespace EntityFilter

open Query

variable {st st' : Store} {seen : String → String → Prop} {b b' : Binding}

namespace Context

variable {ctx : Context} {c : Comparison}

/-- **A comparison sees only what is seen**: on its path, at the end of it, and where its negation
is tied to the row. -/
def Sees (ctx : Context) (seen : String → String → Prop) (c : Comparison) : Prop :=
  ∀ clause, (ctx.schema.plan ctx.model c).2 = .ok clause →
    seen ctx.schema.entity clause.selector.field.identifier ∧
    ∃ o, ctx.model.Leads seen (some ctx.schema.entity) (ctx.schema.plan ctx.model c).1 o ∧
      ∀ source e, (Reading.ofSource clause.selector.shape clause.terminal source).Reads e →
        e.Sees seen o

/-- **A comparison comes to the same** in stores that agree on what it sees. -/
theorem compared_alike (hst : st.WellFormed ctx.model) (hst' : st'.WellFormed ctx.model)
    (hagree : st.Agree seen ctx.schema.entity st')
    (h : Binding.Alike st st' (some ctx.schema.entity) b b')
    (hsees : ctx.Sees seen c) : Course.Alike ctx.model ctx.schema.entity st st'
      (ctx.compared st b c) (ctx.compared st' b' c) := by
  cases hplan : (ctx.schema.plan ctx.model c).2 with
  | error e =>
    simp only [compared, hplan]
    exact Course.alike_single 0
  | ok clause =>
    obtain ⟨hid, o, hleads, hreads⟩ := hsees clause hplan
    cases hlower : clause.lower ctx.settings ctx.replace
        (Reading.ofSource clause.selector.shape clause.terminal Query.root) with
    | inPlace test =>
      intro held held' hheld
      simp only [compared, hplan, hlower, Multiset.rel_map]
      refine (h.follow hheld hagree hst hst' hleads).mono fun w _ w' _ hw => ⟨?_, hw.2⟩
      rw [propext (hw.1.holds hagree (Clause.tests_of_inPlace hlower) (hreads _))]
    | noneRelated d =>
      have hfinds : clause.Finds ctx.model st ctx.settings ctx.schema.entity
            (ctx.schema.plan ctx.model c).1 d b ↔
          clause.Finds ctx.model st' ctx.settings ctx.schema.entity
            (ctx.schema.plan ctx.model c).1 d b' :=
        ⟨Clause.finds_alike h hagree hst hst' hleads hid hreads,
          Clause.finds_alike h.symm hagree.symm hst' hst hleads hid hreads⟩
      simp only [compared, hplan, hlower, propext hfinds]
      exact Course.alike_single _

mutual

/-- **A filter comes to the same** in stores that agree on what its comparisons see. -/
theorem outcomes_alike (hst : st.WellFormed ctx.model) (hst' : st'.WellFormed ctx.model)
    (hagree : st.Agree seen ctx.schema.entity st')
    (h : Binding.Alike st st' (some ctx.schema.entity) b b') (f : Filter)
    (hsees : ∀ c ∈ f.comparisons, ctx.Sees seen c) :
    Course.Alike ctx.model ctx.schema.entity st st' (ctx.outcomes st b f)
      (ctx.outcomes st' b' f) := by
  match f with
  | .and children => exact (outcomesOf_alike hst hst' hagree h children hsees).within .none Conjoins
  | .or children =>
    exact (outcomesOf_alike hst hst' hagree h children hsees).within (.some fun _ => .none) Disjoins
  | .comparison c => exact compared_alike hst hst' hagree h (hsees c List.mem_cons_self)
  | .unrecognized _ => exact Course.alike_single 0

theorem outcomesOf_alike (hst : st.WellFormed ctx.model) (hst' : st'.WellFormed ctx.model)
    (hagree : st.Agree seen ctx.schema.entity st')
    (h : Binding.Alike st st' (some ctx.schema.entity) b b')
    (fs : List Filter) (hsees : ∀ c ∈ Filter.comparisonsOfAll fs, ctx.Sees seen c) :
    Course.Alike ctx.model ctx.schema.entity st st' (ctx.outcomesOf st b fs)
      (ctx.outcomesOf st' b' fs) := by
  match fs with
  | [] => exact Course.alike_single 0
  | f :: fs =>
    obtain ⟨hf, hfs⟩ := List.forall_mem_append.1 hsees
    exact (outcomes_alike hst hst' hagree h f hf).seq (outcomesOf_alike hst hst' hagree h fs hfs)

end

/-- A filter lists a record of the root as often in either store. -/
theorem frequency_alike {f : Filter} (hst : st.WellFormed ctx.model)
    (hst' : st'.WellFormed ctx.model) (hagree : st.Agree seen ctx.schema.entity st')
    (h : Binding.Alike st st' (some ctx.schema.entity) b b')
    (hsees : ∀ c ∈ f.comparisons, ctx.Sees seen c) :
    ctx.frequency st f b = ctx.frequency st' f b' := by
  have hvalues : (ctx.outcomes st b f none).map (fun w => Conjoins w.1) =
      (ctx.outcomes st' b' f none).map fun w => Conjoins w.1 := by
    rw [← Multiset.rel_eq, Multiset.rel_map]
    exact (outcomes_alike hst hst' hagree h f hsees .none).mono fun w _ w' _ hw => by rw [hw.1]
  rw [frequency, frequency, hvalues]

/-- What is listed for the records of two tables is the same, if they have the same records and the
same is listed for each. -/
theorem flatMap_entries {l l' : List (Int × Record)} {list list' : Int × Record → List Int}
    (h : l.map Prod.fst = l'.map Prod.fst)
    (hlist : ∀ e ∈ l, ∀ e' ∈ l', e.1 = e'.1 → list e = list' e') :
    l.flatMap list = l'.flatMap list' := by
  induction l generalizing l' with
  | nil =>
    obtain rfl : l' = [] := List.map_eq_nil_iff.1 h.symm
    rfl
  | cons e l ih =>
    cases l' with
    | nil => cases h
    | cons e' l' =>
      obtain ⟨hid, h⟩ := List.cons.inj h
      rw [List.flatMap_cons, List.flatMap_cons,
        hlist e List.mem_cons_self e' List.mem_cons_self hid,
        ih h fun d hd d' hd' => hlist d (List.mem_cons_of_mem _ hd) d' (List.mem_cons_of_mem _ hd')]

/-- **A selection reads nothing but what the comparisons of its filter see.** -/
theorem select_alike {f : Filter} {predicate : Predicate} {q : Query}
    (h : (recordsOf ctx.schema.entity).compile ctx f = (.ok predicate, q))
    (hsees : ∀ c ∈ f.comparisons, ctx.Sees seen c) (hst : st.WellFormed ctx.model)
    (hst' : st'.WellFormed ctx.model) (hagree : st.Agree seen ctx.schema.entity st') :
    ∃ ids, Store.select ctx.model st q predicate = .ok ids ∧
      Store.select ctx.model st' q predicate = .ok ids := by
  refine ⟨_, select_compile hst h, ?_⟩
  rw [select_compile hst' h]
  refine congrArg Except.ok (flatMap_entries hagree.roots fun e he e' he' hid => ?_).symm
  have halike : Binding.Alike st st' (some ctx.schema.entity)
      (.row ctx.schema.entity e.1 e.2) (.row ctx.schema.entity e.1 e'.2) :=
    .row (OrderedMap.find?_of_mem he) (hid ▸ OrderedMap.find?_of_mem he')
  rw [frequency_alike hst hst' hagree halike hsees, hid]

/-- **A filter reads declared attributes only**, as long as its selectors with more than one name
below the field have paths of declared attributes. On two well-formed stores that have the same
records of the root and agree on what the schema declares, the selection then lists the same
records, each as often, in the same order. A selector with one name below its field, or none, needs
no such condition: registration has checked the name on the entity that the field's path reaches. A
longer one looks the names of the field up on entities further on, where they were not checked. -/
theorem select_declared {root : String} {fields : List Field} {f : Filter} {predicate : Predicate}
    {q : Query} (hreg : Schema.register ctx.model root fields = .ok ctx.schema)
    (h : (recordsOf root).compile ctx f = (.ok predicate, q))
    (hlong : ∀ c ∈ f.comparisons, ∀ r, ctx.schema.resolve c.selector = .ok r → 1 < r.subs.length →
      ∀ step ∈ ctx.model.steps (some root) r.navigation,
        ctx.schema.Declares ctx.model step.1 step.2)
    (hst : st.WellFormed ctx.model) (hst' : st'.WellFormed ctx.model)
    (hagree : st.Agree (ctx.schema.Declares ctx.model) root st') :
    ∃ ids, Store.select ctx.model st q predicate = .ok ids ∧
      Store.select ctx.model st' q predicate = .ok ids := by
  obtain rfl : root = ctx.schema.entity := (Schema.checked_of_extend hreg).1.symm
  refine select_alike h (fun c hc clause hplan => ?_) hst hst' hagree
  have hresolve := (Schema.plan_ok hplan).1
  refine Schema.declares_of_plan hreg hplan ?_
  rcases Nat.lt_or_ge 1 clause.selector.subs.length with hmany | hshort
  · exact hlong c hc clause.selector hresolve hmany
  · exact Schema.declares_of_short hresolve hshort

end Context

namespace Shop

/-- Orders have a customer, and customers have a name and tags, which have names and tags. -/
def customers : Model :=
  ⟨[], [⟨"Order", "id", [⟨"id", .basic .int⟩, ⟨"customer", .reference "Customer"⟩]⟩,
    ⟨"Customer", "id", [⟨"name", .basic .text⟩, ⟨"tags", .collection "Tag"⟩]⟩,
    ⟨"Tag", "id", [⟨"name", .basic .text⟩, ⟨"tags", .collection "Tag"⟩]⟩]⟩

/-- Filters may name the name and the tags of a customer. -/
def ofCustomer : Field := ⟨"customer", "customer", ["name", "tags"], false, none, "id", none⟩

/-- Filters may name the tags of these tags. -/
def ofTag : Field := ⟨"tag", "customer.tags", ["tags"], false, none, "id", none⟩

/-- Orders may be filtered by their customers. -/
def byCustomer : Context :=
  ⟨customers, ⟨"Order", [⟨ofCustomer, ["customer"], none⟩, ⟨ofTag, ["customer", "tags"], none⟩]⟩,
    .standard, id⟩

theorem byCustomer_registered : Schema.register byCustomer.model "Order" [ofCustomer, ofTag] =
    .ok byCustomer.schema := by rfl

/-- The customer of the one order has a tag of a given name, which is tagged with itself. -/
def tagged (name : String) : Store :=
  (((Store.empty .standard).insert "Tag" 1
    (OrderedMap.ofList [("name", .scalar (.text name)), ("tags", .collection [1])])).insert
    "Customer" 1 (OrderedMap.ofList [("tags", .collection [1])])).insert
    "Order" 1 (OrderedMap.ofList [("customer", .reference (some 1))])

theorem tagged_wellFormed (name : String) : (tagged name).WellFormed byCustomer.model := by
  refine ((Store.WellFormed.empty.insert fun hc ha => ?_).insert fun hc ha => ?_).insert
    fun hc ha => ?_
  · rcases List.mem_cons.1 (OrderedMap.mem_of_find?_ofList hc) with hc | hc
    · obtain ⟨rfl, rfl⟩ := Prod.mk.inj hc
      obtain rfl := Option.some.inj ha
      exact .scalar _ _
    · obtain ⟨rfl, rfl⟩ := Prod.mk.inj (List.mem_singleton.1 hc)
      obtain rfl := Option.some.inj ha
      exact .collection (by simp [Store.record?_insert])
  · obtain ⟨rfl, rfl⟩ := Prod.mk.inj (List.mem_singleton.1 (OrderedMap.mem_of_find?_ofList hc))
    obtain rfl := Option.some.inj ha
    exact .collection (by simp [Store.record?_insert])
  · obtain ⟨rfl, rfl⟩ := Prod.mk.inj (List.mem_singleton.1 (OrderedMap.mem_of_find?_ofList hc))
    obtain rfl := Option.some.inj ha
    exact .reference (by simp [Store.record?_insert])

/-- The names of tags are not declared, at the end of no path and on none. -/
theorem tagName_undeclared : ¬ byCustomer.schema.Declares byCustomer.model "Tag" "name" := by
  rintro ⟨entry, he, hd⟩
  simp only [byCustomer, List.mem_cons, List.not_mem_nil, or_false] at he
  rcases he with rfl | rfl <;>
  · rw [SchemaEntry.declares_iff rfl] at hd
    revert hd
    decide

theorem tagged_agree (name name' : String) :
    (tagged name).Agree (byCustomer.schema.Declares byCustomer.model) "Order" (tagged name') where
  dialect := rfl
  roots := by simp [tagged, Store.table, Store.insert, OrderedMap.find?_insert]
  cells := by
    intro e id record record' a hr hr' hs
    by_cases htag : e = "Tag" ∧ id = 1
    · obtain ⟨rfl, rfl⟩ := htag
      have hname : a ≠ "name" := fun ha => tagName_undeclared (ha ▸ hs)
      simp only [tagged, Store.record?_insert, String.reduceEq, false_and, and_self, if_true,
        if_false, Option.some.injEq] at hr hr'
      rw [← hr, ← hr']
      simp [OrderedMap.ofList, OrderedMap.find?_insert, hname]
    · have hsame : (tagged name).record? e id = (tagged name').record? e id := by
        simp only [tagged, Store.record?_insert, htag, if_false]
      rw [Option.some.inj (hr.symm.trans (hsame.trans hr'))]

/-- The query for orders whose customer has a tag of the name `alpha`. -/
def alphaTagged : Query :=
  ((recordsOf "Order").compile byCustomer (.compareOne .equal "customer.tags.name" "alpha")).2

/-- **The name of a tag is read, though it is not declared.** Customers and tags both have names,
and those of customers are declared. A selector that goes on through the tags of a customer names
that of a tag by the same word. The stores differ in this name only, and the selections differ. -/
theorem tagName_read :
    Schema.register byCustomer.model "Order" [ofCustomer, ofTag] = .ok byCustomer.schema ∧
      (recordsOf "Order").compile byCustomer (.compareOne .equal "customer.tags.name" "alpha") =
        (.ok (.equal (.column 2 "name") (.text "alpha")), alphaTagged) ∧
      (tagged "alpha").WellFormed byCustomer.model ∧ (tagged "beta").WellFormed byCustomer.model ∧
      (tagged "alpha").Agree (byCustomer.schema.Declares byCustomer.model) "Order"
        (tagged "beta") ∧
      (∀ e id, ((tagged "alpha").record? e id).isSome = ((tagged "beta").record? e id).isSome) ∧
      Store.select byCustomer.model (tagged "alpha") alphaTagged
        (.equal (.column 2 "name") (.text "alpha")) = .ok [1] ∧
      Store.select byCustomer.model (tagged "beta") alphaTagged
        (.equal (.column 2 "name") (.text "alpha")) = .ok [] := by
  refine ⟨byCustomer_registered, by rfl, tagged_wellFormed _, tagged_wellFormed _,
    tagged_agree _ _, fun e id => ?_, by decide +kernel, by decide +kernel⟩
  simp only [tagged, Store.record?_insert]
  split
  · rfl
  · split
    · rfl
    · split <;> rfl

/-- Orders of `Ann`, or with a tag that is tagged with a tagged tag, but none of `Bob`. -/
def annOrTagged : Filter :=
  .and [.or [.compareOne .equal "customer.name" "Ann", .compareOne .equal "tag.tags.tags" "1"],
    .compareOne .notEqual "customer.name" "Bob"]

/-- What the filter compiles to. -/
def annOrTaggedTests : Predicate :=
  .and [.or [.equal (.column 1 "name") (.text "Ann"), .equal (.element 4) (.text "1")],
    .not (.hasRow 0)]

/-- The query that its compilation reaches. -/
def annOrTaggedQuery : Query :=
  ((recordsOf "Order").compile byCustomer annOrTagged).2

/-- The one selector of the filter with two names below its field walks declared attributes. -/
theorem annOrTagged_walks : ∀ c ∈ annOrTagged.comparisons, ∀ r,
    byCustomer.schema.resolve c.selector = .ok r → 1 < r.subs.length →
      ∀ step ∈ byCustomer.model.steps (some "Order") r.navigation,
        byCustomer.schema.Declares byCustomer.model step.1 step.2 := by
  have hname : byCustomer.schema.resolve "customer.name" =
    .ok ⟨⟨ofCustomer, ["customer"], none⟩, ["name"], none⟩ := by rfl
  have htags : byCustomer.schema.resolve "tag.tags.tags" =
    .ok ⟨⟨ofTag, ["customer", "tags"], none⟩, ["tags", "tags"], none⟩ := by rfl
  have hcomparisons : annOrTagged.comparisons = [⟨"customer.name", "==", ["Ann"]⟩,
    ⟨"tag.tags.tags", "==", ["1"]⟩, ⟨"customer.name", "!=", ["Bob"]⟩] := by rfl
  have short : ∀ r, byCustomer.schema.resolve "customer.name" = .ok r → ¬ 1 < r.subs.length := by
    intro r hr
    obtain rfl := Except.ok.inj (hname.symm.trans hr)
    decide
  rw [hcomparisons]
  refine List.forall_mem_cons.2 ⟨fun r hr hmany => absurd hmany (short r hr),
    List.forall_mem_cons.2 ⟨fun r hr _ => ?_,
      List.forall_mem_singleton.2 fun r hr hmany => absurd hmany (short r hr)⟩⟩
  obtain rfl := Except.ok.inj (htags.symm.trans hr)
  -- the path of the field, and twice the attribute that may be named below it
  have hpath : ∀ step ∈ byCustomer.model.steps (some "Order") ["customer", "tags"],
      byCustomer.schema.Declares byCustomer.model step.1 step.2 := fun step hstep =>
    ⟨_, List.mem_cons_of_mem _ List.mem_cons_self, .path hstep⟩
  have hsub : byCustomer.schema.Declares byCustomer.model "Tag" "tags" :=
    ⟨_, List.mem_cons_of_mem _ List.mem_cons_self, .sub (by decide) List.mem_cons_self⟩
  have hsteps : byCustomer.model.steps (some "Order") (ResolvedSelector.navigation
      ⟨⟨ofTag, ["customer", "tags"], none⟩, ["tags", "tags"], none⟩) =
    byCustomer.model.steps (some "Order") ["customer", "tags"] ++
      [("Tag", "tags"), ("Tag", "tags")] := by rfl
  rw [hsteps]
  refine List.forall_mem_append.2 ⟨hpath, List.forall_mem_cons.2 ⟨hsub, ?_⟩⟩
  exact List.forall_mem_singleton.2 hsub

theorem annOrTagged_declared :
    (recordsOf "Order").compile byCustomer annOrTagged =
        (.ok annOrTaggedTests, annOrTaggedQuery) ∧
      ∃ ids, Store.select byCustomer.model (tagged "alpha") annOrTaggedQuery annOrTaggedTests =
          .ok ids ∧
        Store.select byCustomer.model (tagged "beta") annOrTaggedQuery annOrTaggedTests =
          .ok ids := by
  have h : (recordsOf "Order").compile byCustomer annOrTagged =
    (.ok annOrTaggedTests, annOrTaggedQuery) := by decide +kernel
  obtain ⟨ids, hids, hids'⟩ := Context.select_declared byCustomer_registered h annOrTagged_walks
    (tagged_wellFormed "alpha") (tagged_wellFormed "beta") (tagged_agree "alpha" "beta")
  exact ⟨h, ids, hids, hids'⟩

end Shop

end EntityFilter
