import EntityFilter.Proofs.Compile.Checks
import EntityFilter.Proofs.Compile.Texts
import EntityFilter.Proofs.Compile.Values
import EntityFilter.Proofs.Store.Contents

/-!
# Comparisons of map entries

A map of the root is kept in a map attribute, or as records of their own. In either way a comparison
looks at the entries with its key, one by one, and at each as if its value stood in an attribute of
the root.

* `Settings.SameKey`, `Settings.holds_keyTest`: the entries that a comparison looks at.
* `MapShape.Keeps`, `MapShape.Keeps.reading`: how a map is kept, and how its entries are read.
* `Context.asks_entry`: what a comparison of an entry asks for.
* `Context.StandsIn`: a basic attribute of a root that values are compared in; there is one for
  every map (`Context.ofValues_standsIn`).
* `Context.entry_answers`: a comparison selects the records with an entry that has the key, and
  whose value it selects when that stands in such an attribute; two maps with the same entries
  agree.
-/

namespace EntityFilter

open Query

/-! ## Keys -/

namespace Settings

variable {m : Model} {d : Dialect} {b : Binding} {e : Expr} (s : Settings)

/-- **A key is the one that is looked for**: texts are compared in upper case where case is ignored.
What is no text is compared as columns are, and NULL is no key. -/
def SameKey (key : String) : Value → Prop
  | .text t => s.caseText t = s.caseText key
  | v => if s.ignoreCase then v ≠ .null ∧ Text.upper v.asText = Text.upper key
    else v.equals (.text key) = .yes

/-- The test of the key is passed by the keys that are looked for. -/
theorem holds_keyTest {key : String} :
    (Predicate.equal (s.caseExpr e) (.text (s.caseText key))).Holds m d b ↔
      s.SameKey key (e.valueIn m b) := by
  rw [Predicate.holds_equal]
  cases hcase : s.ignoreCase with
  | false =>
    simp only [caseExpr, caseText, SameKey, hcase, Bool.false_eq_true, if_false]
    cases e.valueIn m b with
    | text t => exact Value.equals_text
    | _ => rfl
  | true =>
    simp only [caseExpr, caseText, SameKey, hcase, if_true, Value.equals_text_upper]
    cases e.valueIn m b with
    | text t => exact and_iff_right (by simp)
    | _ => rfl

theorem not_sameKey_null {key : String} : ¬ s.SameKey key .null := by
  cases hcase : s.ignoreCase with
  | false => simp [SameKey, hcase, Value.equals, Value.order?, Value.orderWithText?, Truth.ofOption]
  | true => simp [SameKey, hcase]

end Settings

/-! ## Entries -/

/-- **How a map keeps its entries**, with values of a type: in a map attribute, or as records of an
entity, where key and value are basic attributes beside the primary key and the key is a text. -/
inductive MapShape.Keeps (m : Model) (a : Attribute) (type : ScalarType) : MapShape → Prop
  | native (hk : a.kind = .map type) : Keeps m a type .native
  | entries {attributes : EntryAttributes} {target : String} (hk : a.kind.target? = some target)
      (hkey : (m.entity target).attribute? attributes.key = some ⟨attributes.key, .basic .text⟩)
      (hvalue : (m.entity target).attribute? attributes.value =
        some ⟨attributes.value, .basic type⟩)
      (hkeyNe : attributes.key ≠ (m.entity target).primaryKey)
      (hvalueNe : attributes.value ≠ (m.entity target).primaryKey) :
      Keeps m a type (.entries attributes)

namespace MapShape.Keeps

variable {m : Model} {st : Store} {a : Attribute} {type : ScalarType} {shape : MapShape}
  {e : String} {id : Int} {record : Record}

theorem isBasic (h : shape.Keeps m a type) : a.kind.isBasic = false := by
  cases h with
  | native hk => rw [hk]; rfl
  | entries hk => exact Kind.isBasic_of_target? hk

/-- Arguments are read for the type of the values. -/
theorem comparedType (h : shape.Keeps m a type) : m.comparedType? (some shape) a = some type := by
  cases h with
  | native hk => simp only [Model.comparedType?, hk, Kind.scalarType?]
  | entries hk _ hvalue =>
    simp only [Model.comparedType?, hk, Option.bind_eq_bind, Option.bind_some, hvalue,
      Kind.scalarType?]

/-- **The entries of a map are read from what it reaches**: key and value from the same source. -/
theorem reading (h : shape.Keeps m a type) (hst : st.WellFormed m)
    (hr : st.record? e id = some record) (ha : (m.entity e).attribute? a.name = some a)
    (s : SourceId) : ∃ key value, Reading.ofSource (some shape) a s = ⟨value, some key⟩ ∧
      key.valueIn m .missing = .null ∧
      st.entries shape a record = ((Binding.row e id record).reached st a).map fun c =>
        (key.valueIn m c, value.valueIn m c) := by
  cases h with
  | native hk =>
    refine ⟨.mapKey s, .mapValue s, ?_, rfl, Store.entries_native hst hr ha hk s⟩
    simp only [Reading.ofSource, hk]
  | @entries attributes _ hk hkey hvalue hkeyNe hvalueNe =>
    exact ⟨.column s attributes.key, .column s attributes.value, rfl, rfl,
      Store.entries_related hst hr ha hk hkey hvalue hkeyNe hvalueNe s⟩

end MapShape.Keeps

namespace Context

variable {ctx ctx' : Context} {st st' : Store} {clause clause' : Clause} {c c' : Comparison}
  {key : String} {shape shape' : MapShape} {type : ScalarType}

/-- **A comparison of the entries with a key** has passed its check: the selector has the key, and
its path is a single attribute of the root, which is a map. -/
structure ComparesEntry (ctx : Context) (c : Comparison) (key : String) (shape : MapShape)
    (type : ScalarType) (clause : Clause) : Prop where
  checked : (ctx.schema.plan ctx.model c).2 = .ok clause
  keyed : clause.selector.mapKey = some key
  shaped : clause.selector.shape = some shape
  simple : clause.selector.isSimple = true
  kept : shape.Keeps ctx.model clause.terminal type

namespace ComparesEntry

/-- The map is an attribute of the root, and is joined. -/
theorem plan (h : ctx.ComparesEntry c key shape type clause) :
    ctx.schema.Checks ctx.model c clause ∧
      (ctx.model.entity ctx.schema.entity).attribute? clause.terminal.name =
        some clause.terminal ∧
      ctx.schema.plan ctx.model c = ([clause.terminal], .ok clause) := by
  have hplan : ctx.schema.plan ctx.model c = ((ctx.schema.plan ctx.model c).1, .ok clause) :=
    Prod.ext rfl h.checked
  obtain ⟨hjoins, hchecks⟩ := Schema.plan_eq_ok_iff.1 hplan
  obtain ⟨hdeclared, hroute⟩ := hchecks.simple h.simple
  rw [h.kept.isBasic] at hroute
  exact ⟨hchecks, hdeclared, hplan.trans (by rw [hjoins, hroute]; rfl)⟩

/-- **A comparison of a map field of a registered schema** is one of entries with a key, if its path
is a single attribute of the root and, where the map is kept as records, key and value are basic
attributes there. -/
theorem of_register {entity : String} {fields : List Field}
    (hreg : Schema.register ctx.model entity fields = .ok ctx.schema)
    (hchecked : (ctx.schema.plan ctx.model c).2 = .ok clause)
    (hmap : clause.selector.field.isMap = true) (hsimple : clause.selector.isSimple = true)
    (hkept : ∀ attributes, clause.selector.shape = some (.entries attributes) →
      ∃ type, (MapShape.entries attributes).Keeps ctx.model clause.terminal type) :
    ∃ key shape type, ctx.ComparesEntry c key shape type clause := by
  cases Schema.ending_of_plan hreg hchecked with
  | plain _ hkey =>
    have h := Schema.mapKey_of_resolve (Schema.plan_ok hchecked).1
    rw [hkey, hmap] at h
    cases h
  | native hs hkey hk => exact ⟨_, _, _, hchecked, hkey, hs, hsimple, .native hk⟩
  | entries hs hkey =>
    obtain ⟨type, htype⟩ := hkept _ hs
    exact ⟨_, _, type, hchecked, hkey, hs, hsimple, htype⟩

end ComparesEntry

/-- **A comparison of an entry asks for an entry with the key** whose value passes its test. -/
theorem asks_entry (h : ctx.ComparesEntry c key shape type clause) (hst : st.WellFormed ctx.model)
    {id : Int} {record : Record} (hr : st.record? ctx.schema.entity id = some record) :
    ctx.Asks st clause [clause.terminal] (.row ctx.schema.entity id record) ↔
      ∃ k x, (k, x) ∈ st.entries shape clause.terminal record ∧ ctx.settings.SameKey key k ∧
        clause.Takes ctx.settings ctx.replace st.dialect x := by
  obtain ⟨-, hdeclared, -⟩ := h.plan
  obtain ⟨ke, ve, hreading, hmissing, hentries⟩ := h.kept.reading hst hr hdeclared root
  have hcompared : clause.compared = ve := by rw [Clause.compared, h.shaped, hreading]
  have hrelated : ∀ b, clause.Related ctx.model st ctx.settings [clause.terminal]
      (.row ctx.schema.entity id record) b ↔
        Ends st (.row ctx.schema.entity id record) [clause.terminal] b ∧
          ctx.settings.SameKey key (ke.valueIn ctx.model b) := by
    intro b
    simp only [Clause.Related, h.shaped, h.keyed, hreading, Settings.keyTest,
      List.forall_mem_singleton, Settings.holds_keyTest]
  simp only [asks_simple h.simple, hcompared, hrelated, ends_single_iff, hentries, List.mem_map]
  constructor
  · rintro ⟨b, ⟨hb | ⟨-, rfl⟩, hkey⟩, htakes⟩
    · exact ⟨_, _, ⟨b, hb, rfl⟩, hkey, htakes⟩
    · -- where the map reaches nothing, there is no key
      rw [hmissing] at hkey
      exact absurd hkey ctx.settings.not_sameKey_null
  · rintro ⟨k, x, ⟨b, hb, hbx⟩, hkey, htakes⟩
    obtain ⟨rfl, rfl⟩ := Prod.mk.inj hbx
    exact ⟨b, ⟨Or.inl hb, hkey⟩, htakes⟩

/-! ## Values in a basic attribute -/

/-- A comparison selects a record. -/
def Selects (ctx : Context) (st : Store) (c : Comparison) (id : Int) : Prop :=
  ∃ ids, ctx.Answers st (.comparison c) ids ∧ id ∈ ids

/-- What a comparison selects is its answer. -/
theorem selects_iff {ids : List Int} (h : ctx.Answers st (.comparison c) ids) (id : Int) :
    ctx.Selects st c id ↔ id ∈ ids := by
  constructor
  · rintro ⟨ids', ⟨p', q', hcompile', hselect'⟩, hid⟩
    obtain ⟨p, q, hcompile, hselect⟩ := h
    obtain ⟨hp, rfl⟩ := Prod.mk.inj (hcompile.symm.trans hcompile')
    obtain rfl := Except.ok.inj hp
    obtain rfl := Except.ok.inj (hselect.symm.trans hselect')
    exact hid
  · exact fun hid => ⟨ids, h, hid⟩

/-- **A basic attribute of a root stands in for the values of a map**: a selector of another context
stands for the attribute, it is of the type of these values and beside the primary key, arguments
are converted alike, and settings, replacements and enumerations are the same. -/
structure StandsIn (plain : Context) (selector : String) (r : ResolvedSelector) (a : Attribute)
    (ctx : Context) (type : ScalarType) (clause : Clause) : Prop where
  resolve : plain.schema.resolve selector = .ok r
  path : r.navigation = [a.name]
  shape : r.shape = none
  key : r.mapKey = none
  declared : (plain.model.entity plain.schema.entity).attribute? a.name = some a
  basic : a.kind = .basic type
  beside : a.name ≠ (plain.model.entity plain.schema.entity).primaryKey
  converter : r.field.converter = clause.selector.field.converter
  settings : plain.settings = ctx.settings
  replace : plain.replace = ctx.replace
  enumerations : plain.model.enumerations = ctx.model.enumerations

end Context

/-- **A store with one record, which holds a value.** -/
def Store.holding (d : Dialect) (entity name : String) (x : Value) : Store :=
  (Store.empty d).insert entity 1 (OrderedMap.ofList [(name, .scalar x)])

namespace Context.StandsIn

variable {plain ctx : Context} {selector : String} {r : ResolvedSelector} {a : Attribute}
  {key : String} {shape : MapShape} {type : ScalarType} {clause : Clause} {c : Comparison}

theorem holding_wellFormed (h : plain.StandsIn selector r a ctx type clause) (d : Dialect)
    (x : Value) : (Store.holding d plain.schema.entity a.name x).WellFormed plain.model := by
  refine Store.WellFormed.empty.insert fun hc ha => ?_
  obtain ⟨rfl, rfl⟩ := Prod.mk.inj (List.mem_singleton.1 (OrderedMap.mem_of_find?_ofList hc))
  obtain rfl := Option.some.inj (h.declared.symm.trans ha)
  rw [h.basic]
  exact .scalar _ _

/-- **The attribute is compared with the same operator and the same values**, and nothing is
joined. -/
theorem plan (h : plain.StandsIn selector r a ctx type clause)
    (hentry : ctx.ComparesEntry c key shape type clause) :
    plain.schema.plan plain.model ⟨selector, c.operator, c.arguments⟩ =
      ([], .ok (clause.redirect r a)) := by
  obtain ⟨hchecks, -⟩ := hentry.plan
  have hroute : plain.model.route (some plain.schema.entity) r.navigation = .stop (.ok a) := by
    rw [h.path]
    simp [Model.route, h.declared, h.basic, Kind.isBasic]
  have htype : plain.model.comparedType? r.shape a =
      ctx.model.comparedType? clause.selector.shape clause.terminal := by
    rw [hentry.shaped, hentry.kept.comparedType, h.shape]
    simp only [Model.comparedType?, h.basic, Kind.scalarType?]
  refine Schema.plan_eq_ok_iff.2 ⟨(congrArg Route.joins hroute).symm, ?_⟩
  exact hchecks.transfer h.enumerations h.resolve (by rw [hroute]; rfl) htype h.converter

theorem isSimple (h : plain.StandsIn selector r a ctx type clause) :
    (clause.redirect r a).selector.isSimple = true := by
  simp [Clause.redirect, ResolvedSelector.isSimple, h.path]

theorem compared (h : plain.StandsIn selector r a ctx type clause) :
    (clause.redirect r a).compared = .column root a.name := by
  simp only [Clause.redirect, Clause.compared, h.shape, Reading.ofSource, h.basic]

/-- **It selects the values that pass the test of the entry.** -/
theorem selects_iff (h : plain.StandsIn selector r a ctx type clause)
    (hentry : ctx.ComparesEntry c key shape type clause) (d : Dialect) (x : Value) :
    plain.Selects (Store.holding d plain.schema.entity a.name x)
        ⟨selector, c.operator, c.arguments⟩ 1 ↔
      clause.Takes ctx.settings ctx.replace d x := by
  obtain ⟨ids, hids, hmem⟩ := answers_of_plan (h.holding_wellFormed d x) (h.plan hentry)
  have hrecord : (Store.holding d plain.schema.entity a.name x).record? plain.schema.entity 1 =
      some (OrderedMap.ofList [(a.name, .scalar x)]) := by
    rw [Store.holding, Store.record?_insert, if_pos ⟨rfl, rfl⟩]
  have hvalue : (Expr.column root a.name).valueIn plain.model
      (.row plain.schema.entity 1 (OrderedMap.ofList [(a.name, .scalar x)])) = x := by
    rw [Expr.valueIn, Model.attributeValue, if_neg h.beside]
    simp [OrderedMap.ofList, OrderedMap.find?_insert]
  have hkey : (clause.redirect r a).selector.mapKey = none := h.key
  rw [Context.selects_iff hids, hmem]
  simp only [hrecord, Option.some.injEq, exists_eq_left', asks_simple h.isSimple,
    Clause.related_of_keyless hkey, ends_nil_iff, exists_eq_left, h.compared, hvalue, h.settings,
    h.replace]
  exact Clause.takes_congr rfl rfl rfl rfl

end Context.StandsIn

/-! ### Every map has such an attribute -/

/-- The field of the values of a map, where they stand in a basic attribute. -/
def Clause.valueField (clause : Clause) : Field :=
  ⟨"value", "value", [], false, none, "id", clause.selector.field.converter⟩

namespace Context

variable (ctx : Context) (type : ScalarType) (clause : Clause)

/-- **A context for the values of a map**: an entity with a basic attribute of their type. -/
def ofValues : Context :=
  ⟨⟨ctx.model.enumerations, [⟨"Holder", "id", [⟨"id", .basic .int⟩, ⟨"value", .basic type⟩]⟩]⟩,
    ⟨"Holder", [⟨clause.valueField, ["value"], none⟩]⟩, ctx.settings, ctx.replace⟩

/-- Its field can be registered. -/
theorem register_ofValues :
    Schema.register (ctx.ofValues type clause).model "Holder" [clause.valueField] =
      .ok (ctx.ofValues type clause).schema := by
  have hsegments : Text.segments "value" = ["value"] := by rfl
  simp [Schema.register, Schema.extend, Schema.entry?, Clause.valueField, Field.check, hsegments,
    ofValues, Model.follow, Model.entity, Entity.attribute?, Field.checkSubs, Entity.declares,
    Kind.target?, bind, Except.bind, pure, Except.pure]

/-- **There the values of any map stand in a basic attribute.** -/
theorem ofValues_standsIn : (ctx.ofValues type clause).StandsIn "value"
    ⟨⟨clause.valueField, ["value"], none⟩, [], none⟩ ⟨"value", .basic type⟩ ctx type clause where
  resolve := by
    have hsegments : Text.segments "value" = ["value"] := by rfl
    have hname : Text.sameName "value" "value" = true := by rfl
    simp [Schema.resolve, hsegments, Schema.resolveSegments, Schema.entry?, ofValues,
      Clause.valueField, hname]
  path := rfl
  shape := rfl
  key := rfl
  declared := rfl
  basic := rfl
  beside := by simp [ofValues, Model.entity]
  converter := rfl
  settings := rfl
  replace := rfl
  enumerations := rfl

end Context

/-! ## Answers -/

namespace Context

variable {ctx ctx' plain : Context} {st st' : Store} {clause clause' : Clause} {c c' : Comparison}
  {key selector : String} {shape shape' : MapShape} {type : ScalarType} {r : ResolvedSelector}
  {a : Attribute}

/-- **A comparison of an entry selects the records with an entry** that has the key and a value that
passes its test. -/
theorem answers_entry (h : ctx.ComparesEntry c key shape type clause)
    (hst : st.WellFormed ctx.model) :
    ∃ ids, ctx.Answers st (.comparison c) ids ∧ ∀ id, id ∈ ids ↔
      ∃ record, st.record? ctx.schema.entity id = some record ∧
        ∃ k x, (k, x) ∈ st.entries shape clause.terminal record ∧ ctx.settings.SameKey key k ∧
          clause.Takes ctx.settings ctx.replace st.dialect x := by
  obtain ⟨-, -, hplan⟩ := h.plan
  obtain ⟨ids, hids, hmem⟩ := answers_of_plan hst hplan
  refine ⟨ids, hids, fun id => (hmem id).trans ?_⟩
  exact exists_congr fun record => and_congr_right fun hr => asks_entry h hst hr

/-- Maps with the same values pass the same tests, if one attribute stands in for both. -/
theorem StandsIn.takes_iff (h : plain.StandsIn selector r a ctx type clause)
    (h' : plain.StandsIn selector r a ctx' type clause')
    (hentry : ctx.ComparesEntry c key shape type clause)
    (hentry' : ctx'.ComparesEntry c' key shape' type clause') (hop : c'.operator = c.operator)
    (hargs : c'.arguments = c.arguments) (d : Dialect) (x : Value) :
    clause'.Takes ctx'.settings ctx'.replace d x ↔ clause.Takes ctx.settings ctx.replace d x := by
  rw [← h'.selects_iff hentry', ← h.selects_iff hentry, hop, hargs]

/-- **A comparison of an entry tests one entry, in either shape of the map.** On a well-formed store
it selects some records: those with an entry that has the key, and whose value is selected by the
same operator and arguments where it stands in a basic attribute of a root. So a record without the
key is never selected. Another map, kept in either shape, is compared alike: of two records with the
same entries under the key, both are selected or none. -/
theorem entry_answers (h : ctx.ComparesEntry c key shape type clause)
    (hst : st.WellFormed ctx.model) (hplain : plain.StandsIn selector r a ctx type clause) :
    ∃ ids, ctx.Answers st (.comparison c) ids ∧
      (∀ id, id ∈ ids ↔ ∃ record, st.record? ctx.schema.entity id = some record ∧
        ∃ k x, (k, x) ∈ st.entries shape clause.terminal record ∧ ctx.settings.SameKey key k ∧
          plain.Selects (Store.holding st.dialect plain.schema.entity a.name x)
            ⟨selector, c.operator, c.arguments⟩ 1) ∧
      ∀ ctx' c' shape' clause' st', ctx'.ComparesEntry c' key shape' type clause' →
        plain.StandsIn selector r a ctx' type clause' → c'.operator = c.operator →
        c'.arguments = c.arguments → st'.WellFormed ctx'.model → st'.dialect = st.dialect →
        ∃ ids', ctx'.Answers st' (.comparison c') ids' ∧ ∀ id record id' record',
          st.record? ctx.schema.entity id = some record →
          st'.record? ctx'.schema.entity id' = some record' →
          (∀ k x, ctx.settings.SameKey key k →
            ((k, x) ∈ st.entries shape clause.terminal record ↔
              (k, x) ∈ st'.entries shape' clause'.terminal record')) →
          (id ∈ ids ↔ id' ∈ ids') := by
  obtain ⟨ids, hids, hmem⟩ := answers_entry h hst
  refine ⟨ids, hids, ?_, ?_⟩
  · simpa only [hplain.selects_iff h] using hmem
  · -- the values that pass are the same, as both are those that the attribute is selected with
    intro ctx' c' shape' clause' st' h' hplain' hop hargs hst' hdialect
    obtain ⟨ids', hids', hmem'⟩ := answers_entry h' hst'
    refine ⟨ids', hids', fun id record id' record' hr hr' hsame => ?_⟩
    have hsettings : ctx'.settings = ctx.settings := hplain'.settings.symm.trans hplain.settings
    have htakes := hplain.takes_iff hplain' h h' hop hargs st.dialect
    rw [hmem, hmem']
    simp only [hr, hr', Option.some.injEq, exists_eq_left', hdialect, htakes]
    rw [hsettings]
    refine exists_congr fun k => exists_congr fun x => ?_
    constructor
    · rintro ⟨hentry, hkey, hx⟩
      exact ⟨(hsame k x hkey).1 hentry, hkey, hx⟩
    · rintro ⟨hentry, hkey, hx⟩
      exact ⟨(hsame k x hkey).2 hentry, hkey, hx⟩

end Context

namespace Shop

/-- Orders have properties, which are kept in a map and once more as records, and a note. -/
def keyedModel : Model :=
  ⟨[], [⟨"Order", "id", [⟨"id", .basic .int⟩, ⟨"note", .basic .text⟩, ⟨"props", .map .text⟩,
      ⟨"attrs", .collection "Attr"⟩]⟩,
    ⟨"Attr", "id", [⟨"k", .basic .text⟩, ⟨"v", .basic .text⟩]⟩]⟩

/-- The map of properties. -/
def ofProps : Field :=
  ⟨"prop", "props", [], true, none, "id", none⟩

/-- The properties that are kept as records. -/
def ofAttrs : Field :=
  ⟨"attr", "attrs", [], true, some ⟨"k", "v"⟩, "id", none⟩

/-- The note. -/
def ofNote : Field :=
  ⟨"note", "note", [], false, none, "id", none⟩

/-- Orders may be filtered by all three, in either case. -/
def keyed : Context :=
  ⟨keyedModel, ⟨"Order", [⟨ofProps, ["props"], some .native⟩,
    ⟨ofAttrs, ["attrs"], some (.entries ⟨"k", "v"⟩)⟩, ⟨ofNote, ["note"], none⟩]⟩,
    ⟨true, .standard⟩, id⟩

/-- The clause for the color among the properties. -/
def propColor : Clause :=
  ⟨⟨⟨ofProps, ["props"], some .native⟩, [], some "color"⟩, ⟨"props", .map .text⟩, .notEqual, "red",
    .text "red", [.text "red"]⟩

/-- The clause for the color among the records. -/
def attrColor : Clause :=
  ⟨⟨⟨ofAttrs, ["attrs"], some (.entries ⟨"k", "v"⟩)⟩, [], some "color"⟩,
    ⟨"attrs", .collection "Attr"⟩, .notEqual, "red", .text "red", [.text "red"]⟩

/-- The first order has a color and a size in both maps. -/
def colored : Store :=
  (((Store.empty .standard).insert "Attr" 5
    (OrderedMap.ofList [("k", .scalar (.text "Color")), ("v", .scalar (.text "blue"))])).insert
    "Attr" 6
    (OrderedMap.ofList [("k", .scalar (.text "size")), ("v", .scalar (.text "red"))])).insert
    "Order" 1 (OrderedMap.ofList [("attrs", .collection [5, 6]),
      ("props", .map (OrderedMap.ofList [("Color", .text "blue"), ("size", .text "red")]))])

theorem colored_wellFormed : colored.WellFormed keyedModel := by
  have hattr : ∀ {st : Store} {key value name : String} {cell : Cell} {a : Attribute},
      (OrderedMap.ofList [("k", .scalar (.text key)), ("v", .scalar (.text value))]).find? name =
        some cell → (keyedModel.entity "Attr").attribute? name = some a → cell.Suits st a.kind := by
    intro st key value name cell a hc ha
    rcases List.mem_pair.1 (OrderedMap.mem_of_find?_ofList hc) with h | h <;>
      obtain ⟨rfl, rfl⟩ := Prod.mk.inj h <;> obtain rfl := Option.some.inj ha <;>
      exact .scalar _ _
  refine ((Store.WellFormed.empty.insert hattr).insert hattr).insert fun hc ha => ?_
  rcases List.mem_pair.1 (OrderedMap.mem_of_find?_ofList hc) with h | h
  · obtain ⟨rfl, rfl⟩ := Prod.mk.inj h
    obtain rfl := Option.some.inj ha
    exact .collection (by decide)
  · obtain ⟨rfl, rfl⟩ := Prod.mk.inj h
    obtain rfl := Option.some.inj ha
    exact .map _ _

theorem propColor_compared :
    keyed.ComparesEntry ⟨"prop.color", "!=", ["red"]⟩ "color" .native .text propColor :=
  ⟨by rfl, rfl, rfl, rfl, .native rfl⟩

theorem attrColor_compared :
    keyed.ComparesEntry ⟨"attr.color", "!=", ["red"]⟩ "color" (.entries ⟨"k", "v"⟩) .text
      attrColor :=
  ⟨by rfl, rfl, rfl, rfl, .entries rfl rfl rfl (by decide) (by decide)⟩

/-- The note stands in for the values of both maps. -/
theorem note_standsIn (clause : Clause) (h : clause.selector.field.converter = none) :
    keyed.StandsIn "note" ⟨⟨ofNote, ["note"], none⟩, [], none⟩ ⟨"note", .basic .text⟩ keyed .text
      clause :=
  ⟨by rfl, rfl, rfl, rfl, rfl, rfl, by decide, h.symm, rfl, rfl, rfl⟩

theorem color_selected :
    ∃ ids ids', keyed.Answers colored (.compareOne .notEqual "prop.color" "red") ids ∧
      keyed.Answers colored (.compareOne .notEqual "attr.color" "red") ids' ∧
      (∀ id, id ∈ ids ↔ ∃ record, colored.record? "Order" id = some record ∧
        ∃ k x, (k, x) ∈ colored.entries .native ⟨"props", .map .text⟩ record ∧
          keyed.settings.SameKey "color" k ∧
          keyed.Selects (Store.holding .standard "Order" "note" x) ⟨"note", "!=", ["red"]⟩ 1) ∧
      (1 ∈ ids ↔ 1 ∈ ids') := by
  obtain ⟨ids, hids, hmem, hagree⟩ := Context.entry_answers propColor_compared colored_wellFormed
    (note_standsIn propColor rfl)
  obtain ⟨ids', hids', hsame⟩ := hagree keyed _ _ _ colored attrColor_compared
    (note_standsIn attrColor rfl) rfl rfl colored_wellFormed rfl
  exact ⟨ids, ids', hids, hids', hmem, hsame 1 _ 1 _ rfl rfl fun k x _ => Iff.rfl⟩

end Shop

end EntityFilter
