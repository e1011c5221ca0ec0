import EntityFilter.Proofs.Compile.Declared
import EntityFilter.Proofs.Compile.Outcomes

/-!
# Stores that agree

Two stores agree on attributes that are seen if they have the same records of an entity, and if
records that both have hold the same under these attributes. What a comparison comes to is then
followed in both stores side by side, from records that are alike.

* `Store.Agree`, `Binding.Alike`: what is the same in two stores, and what stands for the same.
* `Binding.Alike.along`: a path that is seen ends at bindings that are alike, and at as many.
* `Clause.finds_alike`: the sub-query of a negation finds something in both stores, or in none.
* `Course.Alike`: what filters come to with what they share, the same in both stores.
-/

namespace EntityFilter

open Query

/-- **Two stores agree on what is seen**: they read patterns alike, they have the same records of
an entity, and a record that both have holds the same under attributes that are seen. -/
structure Store.Agree (seen : String → String → Prop) (entity : String) (st st' : Store) :
    Prop where
  dialect : st.dialect = st'.dialect
  roots : (st.table entity).entries.map Prod.fst = (st'.table entity).entries.map Prod.fst
  cells : ∀ {e id record record' a}, st.record? e id = some record →
    st'.record? e id = some record' → seen e a → record.find? a = record'.find? a

/-- **Bindings that stand for the same thing in two stores**, records of a given entity or no
records. -/
inductive Binding.Alike (st st' : Store) : Option String → Binding → Binding → Prop
  | row {e : String} {id : Int} {record record' : Record} (h : st.record? e id = some record)
      (h' : st'.record? e id = some record') :
      Alike st st' (some e) (.row e id record) (.row e id record')
  | element {o : Option String} (v : Value) : Alike st st' o (.element v) (.element v)
  | entry {o : Option String} (key : String) (v : Value) :
      Alike st st' o (.entry key v) (.entry key v)
  | missing {o : Option String} : Alike st st' o .missing .missing

variable {m : Model} {st st' : Store} {seen : String → String → Prop} {entity e : String}
  {o o' : Option String} {b b' : Binding} {relation : Attribute} {joins : List Attribute}

theorem Store.Agree.symm (h : st.Agree seen entity st') : st'.Agree seen entity st where
  dialect := h.dialect.symm
  roots := h.roots.symm
  cells := fun hr hr' hs => (h.cells hr' hr hs).symm

namespace Binding

theorem Alike.symm (h : Alike st st' o b b') : Alike st' st o b' b := by
  cases h with
  | row h h' => exact .row h' h
  | element v => exact .element v
  | entry key v => exact .entry key v
  | missing => exact .missing

/-- **An expression that sees what is seen** reads the same from bindings that are alike. -/
theorem Alike.valueIn {expr : Expr} (h : Alike st st' o b b')
    (hagree : st.Agree seen entity st') (he : expr.Sees seen o) :
    expr.valueIn m b = expr.valueIn m b' := by
  induction expr with
  | upper expr ih => simp only [Expr.valueIn, ih he]
  | column s name =>
    cases h with
    | row hr hr' => simp only [Expr.valueIn, Model.attributeValue, hagree.cells hr hr' (he _ rfl)]
    | _ => rfl
  | _ => cases h <;> rfl

/-- Lists that are related in their order are related as multisets. -/
theorem rel_of_forall₂ {α β : Type} {r : α → β → Prop} {l : List α} {l' : List β}
    (h : List.Forall₂ r l l') : Multiset.Rel r (l : Multiset α) (l' : Multiset β) := by
  induction h with
  | nil => exact .zero
  | cons hfirst _ ih => exact .cons hfirst ih

/-- Identifiers of stored records lead to records that are alike. -/
theorem alike_rows {target : String} {ids : List Int}
    (h : ∀ id ∈ ids, (st.record? target id).isSome)
    (h' : ∀ id ∈ ids, (st'.record? target id).isSome) :
    ∃ bs bs', ids.mapM (st.row target) = .ok bs ∧ ids.mapM (st'.row target) = .ok bs' ∧
      List.Forall₂ (Alike st st' (some target)) bs bs' := by
  induction ids with
  | nil => exact ⟨[], [], rfl, rfl, .nil⟩
  | cons id ids ih =>
    obtain ⟨hid, h⟩ := List.forall_mem_cons.1 h
    obtain ⟨hid', h'⟩ := List.forall_mem_cons.1 h'
    obtain ⟨record, hrecord⟩ := Option.isSome_iff_exists.1 hid
    obtain ⟨record', hrecord'⟩ := Option.isSome_iff_exists.1 hid'
    obtain ⟨bs, bs', hbs, hbs', halike⟩ := ih h h'
    refine ⟨.row target id record :: bs, .row target id record' :: bs', ?_, ?_,
      .cons (.row hrecord hrecord') halike⟩
    · simp [List.mapM_cons, Store.row, hrecord, hbs, bind, Except.bind, pure, Except.pure]
    · simp [List.mapM_cons, Store.row, hrecord', hbs', bind, Except.bind, pure, Except.pure]

/-- **A relation that is seen leads to the same** from bindings that are alike. -/
theorem Alike.reached (h : Alike st st' (some e) b b') (hagree : st.Agree seen entity st')
    (hst : st.WellFormed m) (hst' : st'.WellFormed m)
    (ha : (m.entity e).attribute? relation.name = some relation)
    (hk : relation.kind.isBasic = false) (hs : seen e relation.name) :
    List.Forall₂ (Alike st st' relation.kind.target?) (b.reached st relation)
      (b'.reached st' relation) := by
  cases h with
  | element v => exact .nil
  | entry key v => exact .nil
  | missing => exact .nil
  | @row _ id record record' hr hr' =>
    have hcell : record.find? relation.name = record'.find? relation.name :=
      hagree.cells hr hr' hs
    cases hc : record.find? relation.name with
    | none =>
      have hc' : record'.find? relation.name = none := hcell ▸ hc
      simp only [Binding.reached, children_of_none hc hk, children_of_none hc' hk]
      exact .nil
    | some cell =>
      have hc' : record'.find? relation.name = some cell := hcell ▸ hc
      have hsuits : cell.Suits st relation.kind := hst hr ha hc
      have hsuits' : cell.Suits st' relation.kind := hst' hr' ha hc'
      obtain ⟨name, kind⟩ := relation
      simp only at hc hc' hsuits hsuits' hk
      cases hsuits with
      | scalar type v => cases hk
      | noReference target =>
        simp only [Binding.reached, children, hc, hc']
        exact .nil
      | @reference target id h =>
        cases hsuits' with
        | reference h' =>
          obtain ⟨bs, bs', hbs, hbs', halike⟩ := alike_rows (List.forall_mem_singleton.2 h)
            (List.forall_mem_singleton.2 h')
          simpa only [Binding.reached, children, hc, hc', Option.toList_some, hbs, hbs',
            Kind.target?] using halike
      | @collection target ids h =>
        cases hsuits' with
        | collection h' =>
          obtain ⟨bs, bs', hbs, hbs', halike⟩ := alike_rows h h'
          simpa only [Binding.reached, children, hc, hc', hbs, hbs', Kind.target?] using halike
      | elements type vs =>
        simp only [Binding.reached, children, hc, hc', List.forall₂_map_left_iff,
          List.forall₂_map_right_iff]
        exact List.forall₂_same.2 fun v _ => .element v
      | map type entries =>
        simp only [Binding.reached, children, hc, hc', List.forall₂_map_left_iff,
          List.forall₂_map_right_iff]
        exact List.forall₂_same.2 fun entry _ => .entry entry.1 entry.2

/-- **A left join that is seen is bound to the same**, as often. -/
theorem Alike.joined (h : Alike st st' (some e) b b') (hagree : st.Agree seen entity st')
    (hst : st.WellFormed m) (hst' : st'.WellFormed m)
    (ha : (m.entity e).attribute? relation.name = some relation)
    (hk : relation.kind.isBasic = false) (hs : seen e relation.name) :
    Multiset.Rel (Alike st st' relation.kind.target?) (b.joined st relation)
      (b'.joined st' relation) := by
  have hreached := h.reached hagree hst hst' ha hk hs
  have hcomplete : ∀ {bs bs' : List Binding},
      List.Forall₂ (Alike st st' relation.kind.target?) bs bs' →
      List.Forall₂ (Alike st st' relation.kind.target?) (JoinKind.left.complete bs)
        (JoinKind.left.complete bs') := by
    intro bs bs' h
    cases h with
    | nil => exact .cons .missing .nil
    | cons hfirst hrest => exact .cons hfirst hrest
  exact rel_of_forall₂ (hcomplete hreached)

/-- What stands at the end of a path that is seen is alike. -/
theorem Alike.along (h : Alike st st' o b b') (hagree : st.Agree seen entity st')
    (hst : st.WellFormed m) (hst' : st'.WellFormed m) (hleads : m.Leads seen o joins o') :
    Multiset.Rel (Alike st st' o') (b.along st joins) (b'.along st' joins) := by
  induction hleads generalizing b b' with
  | nil => exact .cons h .zero
  | cons ha hk hs _ ih =>
    exact Multiset.rel_bind (fun c c' hc => ih hc) (h.joined hagree hst hst' ha hk hs)

/-- **Tests of what is seen** say the same of bindings that are alike. -/
theorem Alike.holds {test : Predicate} {tested : Expr → Prop} (h : Alike st st' o b b')
    (hagree : st.Agree seen entity st') (ht : test.Tests tested)
    (hs : ∀ expr, tested expr → expr.Sees seen o) :
    test.Holds m st.dialect b ↔ test.Holds m st'.dialect b' := by
  rw [Predicate.Holds, Predicate.Holds, hagree.dialect]
  rw [ht.value_congr fun expr he => ?_]
  rw [Expr.value_eq rfl, Expr.value_eq rfl]
  exact h.valueIn hagree (hs expr he)

end Binding

/-! ## What is held -/

/-- **The same is held in two stores** for the relations of an entity. -/
def Held.Alike (m : Model) (entity : String) (st st' : Store) : Held → Held → Prop :=
  Option.Rel fun bound bound' => ∀ name, Option.Rel
    (Binding.Alike st st' (((m.entity entity).attribute? name).bind fun a => a.kind.target?))
    (bound name) (bound' name)

section Held

variable {held held' : Held}

/-- **A join that is seen is bound to the same** where joins may be shared. -/
theorem Binding.Alike.hold (h : Binding.Alike st st' (some entity) b b')
    (hheld : Held.Alike m entity st st' held held') (hagree : st.Agree seen entity st')
    (hst : st.WellFormed m) (hst' : st'.WellFormed m)
    (ha : (m.entity entity).attribute? relation.name = some relation)
    (hk : relation.kind.isBasic = false) (hs : seen entity relation.name) :
    Multiset.Rel (fun w w' => Binding.Alike st st' relation.kind.target? w.1 w'.1 ∧
      Held.Alike m entity st st' w.2 w'.2)
      (b.hold st relation held) (b'.hold st' relation held') := by
  have hjoined := h.joined hagree hst hst' ha hk hs
  have htarget : (((m.entity entity).attribute? relation.name).bind fun a => a.kind.target?) =
      relation.kind.target? := by rw [ha, Option.bind_some]
  cases hheld with
  | none =>
    simp only [Binding.hold, Option.bind_none, Option.map_none, Multiset.rel_map]
    exact hjoined.mono fun c _ c' _ hc => ⟨hc, .none⟩
  | @some bound bound' hbound =>
    have hname := hbound relation.name
    rw [htarget] at hname
    cases hc : bound relation.name with
    | none =>
      cases hc' : bound' relation.name with
      | some c' =>
        rw [hc, hc'] at hname
        cases hname
      | none =>
        simp only [Binding.hold, Option.bind_some, hc, hc', Option.map_some, Multiset.rel_map]
        refine hjoined.mono fun c _ c' _ hcc => ⟨hcc, .some fun name => ?_⟩
        by_cases hn : name = relation.name
        · rw [hn, Function.update_self, Function.update_self, htarget]
          exact .some hcc
        · rw [Function.update_of_ne hn, Function.update_of_ne hn]
          exact hbound name
    | some c =>
      cases hc' : bound' relation.name with
      | none =>
        rw [hc, hc'] at hname
        cases hname
      | some c' =>
        rw [hc, hc'] at hname
        simp only [Binding.hold, Option.bind_some, hc, hc']
        cases hname with
        | some hcc => exact .cons ⟨hcc, .some hbound⟩ .zero

/-- **What stands at the end of a path that is seen** is alike where joins may be shared. -/
theorem Binding.Alike.follow (h : Binding.Alike st st' (some entity) b b')
    (hheld : Held.Alike m entity st st' held held') (hagree : st.Agree seen entity st')
    (hst : st.WellFormed m) (hst' : st'.WellFormed m)
    (hleads : m.Leads seen (some entity) joins o) :
    Multiset.Rel (fun w w' => Binding.Alike st st' o w.1 w'.1 ∧
      Held.Alike m entity st st' w.2 w'.2)
      (b.follow st joins held) (b'.follow st' joins held') := by
  cases hleads with
  | nil => exact .cons ⟨h, hheld⟩ .zero
  | cons ha hk hs hleads =>
    refine Multiset.rel_bind (fun w w' hw => ?_) (h.hold hheld hagree hst hst' ha hk hs)
    rw [Multiset.rel_map]
    exact (hw.1.along hagree hst hst' hleads).mono fun c _ c' _ hc => ⟨hc, hw.2⟩

/-- Records of the root are alike. -/
theorem Store.Agree.rows (hagree : st.Agree seen entity st') (hb : b ∈ st.rows entity) :
    ∃ b' ∈ st'.rows entity, Binding.Alike st st' (some entity) b b' := by
  obtain ⟨⟨id, record⟩, he, rfl⟩ := List.mem_map.1 hb
  have hid : id ∈ (st'.table entity).entries.map Prod.fst :=
    hagree.roots ▸ List.mem_map_of_mem he
  obtain ⟨⟨id', record'⟩, he', rfl⟩ := List.mem_map.1 hid
  exact ⟨_, List.mem_map_of_mem he', .row (OrderedMap.find?_of_mem he)
    (OrderedMap.find?_of_mem he')⟩

theorem Binding.mem_along {c : Binding} : c ∈ b.along st joins ↔ Ends st b joins c := by
  induction joins generalizing b with
  | nil =>
    rw [Binding.along, Multiset.mem_singleton]
    constructor
    · rintro rfl
      exact .nil
    · rintro ⟨⟩
      rfl
  | cons relation rest ih =>
    rw [Binding.along, Multiset.mem_bind]
    constructor
    · rintro ⟨d, hd, hc⟩
      exact .cons hd (ih.1 hc)
    · intro hends
      cases hends with
      | cons hd hends => exact ⟨_, hd, ih.2 hends⟩

/-- **What the sub-query of a negation looks for** is found in both stores, or in none. -/
theorem Clause.finds_alike {clause : Clause} {settings : Settings} {d : Demand}
    (h : Binding.Alike st st' (some entity) b b') (hagree : st.Agree seen entity st')
    (hst : st.WellFormed m) (hst' : st'.WellFormed m) (hleads : m.Leads seen (some entity) joins o)
    (hid : seen entity clause.selector.field.identifier)
    (hreads : ∀ source e, (Reading.ofSource clause.selector.shape clause.terminal source).Reads e →
      e.Sees seen o)
    (hfinds : clause.Finds m st settings entity joins d b) :
    clause.Finds m st' settings entity joins d b' := by
  obtain ⟨row, hrow, hequal, c, hends, htests⟩ := hfinds
  obtain ⟨row', hrow', hrows⟩ := hagree.rows hrow
  have hidentifier :
      (Expr.column Query.root clause.selector.field.identifier).Sees seen (some entity) := by
    intro e he
    obtain rfl := Option.some.inj he
    exact hid
  obtain ⟨c', hc', hends'⟩ := Multiset.exists_mem_of_rel_of_mem
    (hrows.along hagree hst hst' hleads) (Binding.mem_along.2 hends)
  refine ⟨row', hrow', ?_, c', Binding.mem_along.1 hc', fun test htest => ?_⟩
  · rw [← h.valueIn hagree hidentifier, ← hrows.valueIn hagree hidentifier]
    exact hequal
  · exact (hends'.holds hagree (Clause.tests_relatedTests htest) (hreads _)).1 (htests test htest)

end Held

/-! ## Courses -/

/-- **Two courses come to the same** in two stores. -/
def Course.Alike (m : Model) (entity : String) (st st' : Store) (F F' : Course) : Prop :=
  ∀ ⦃held held'⦄, Held.Alike m entity st st' held held' →
    Multiset.Rel (fun w w' => w.1 = w'.1 ∧ Held.Alike m entity st st' w.2 w'.2) (F held) (F' held')

namespace Course

variable {F F' G G' : Course}

theorem alike_single (values : Multiset Prop) :
    Alike m entity st st' (fun held => {(values, held)}) fun held => {(values, held)} :=
  fun _ _ hheld => .cons ⟨rfl, hheld⟩ .zero

theorem Alike.seq (hF : Alike m entity st st' F F') (hG : Alike m entity st st' G G') :
    Alike m entity st st' (F.seq G) (F'.seq G') := by
  intro held held' hheld
  refine Multiset.rel_bind (fun w w' hw => ?_) (hF hheld)
  rw [Multiset.rel_map]
  exact (hG hw.2).mono fun u _ u' _ hu => ⟨by rw [hw.1, hu.1], hu.2⟩

theorem Alike.within (hF : Alike m entity st st' F F') {inner : Held}
    (hinner : Held.Alike m entity st st' inner inner) (verdict : Multiset Prop → Prop) :
    Alike m entity st st' (F.within inner verdict) (F'.within inner verdict) := by
  intro held held' hheld
  rw [Course.within, Course.within, Multiset.rel_map]
  exact (hF hinner).mono fun w _ w' _ hw => ⟨by rw [hw.1], hheld⟩

end Course

end EntityFilter
