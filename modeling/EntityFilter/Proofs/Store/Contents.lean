import EntityFilter.Field
import EntityFilter.Proofs.Store.Shape

/-!
# What attributes of a record hold

A selection goes from a record to what an attribute of it reaches. On a well-formed store this is
what the cell of the attribute holds, one by one and in order.

* `Record.scalar`, `Record.related`, `Record.elements`: the contents of a cell.
* `Kind.holdsMany`: the attributes that have elements.
* `Store.entries`: the entries of a map, whichever way it is kept.
* `Binding.reached_related`, `Binding.reached_elements`: what is reached.
* `Store.entries_native`, `Store.entries_related`: the entries of a map are read from what it
  reaches.
-/

namespace EntityFilter

namespace Record

variable (record : Record) (name : String)

/-- The scalar of an attribute, NULL if there is none. -/
def scalar : Value :=
  match record.find? name with
  | some (.scalar v) => v
  | _ => .null

/-- The identifiers that an attribute refers to. -/
def related : List Int :=
  match record.find? name with
  | some (.reference id) => id.toList
  | some (.collection ids) => ids
  | _ => []

/-- **The elements of an attribute**: the scalars that it holds, or the identifiers of the records
that it refers to. -/
def elements : List Value :=
  match record.find? name with
  | some (.elements vs) => vs
  | _ => (record.related name).map .int

end Record

/-- Whether an attribute may hold many elements: scalars, or records of an entity. -/
def Kind.holdsMany : Kind → Bool
  | elements _ => true
  | collection _ => true
  | _ => false

/-- **The entries of a map**, keys with values: those of a map attribute, or the attributes of key
and value of the records that the map is kept as. -/
def Store.entries (st : Store) (shape : MapShape) (a : Attribute) (record : Record) :
    List (Value × Value) :=
  match shape with
  | .native =>
    match record.find? a.name with
    | some (.map entries) => entries.entries.map fun (key, v) => (.text key, v)
    | _ => []
  | .entries attributes =>
    match a.kind.target? with
    | some target => (record.related a.name).filterMap fun id =>
        (st.record? target id).map fun r => (r.scalar attributes.key, r.scalar attributes.value)
    | none => []

section Contents

variable {m : Model} {st : Store} {e target : String} {id : Int} {record : Record} {a : Attribute}
  {type : ScalarType}

/-- The value of a basic attribute that is not the primary key. -/
theorem Model.attributeValue_basic {name : String} (hst : st.WellFormed m)
    (hr : st.record? e id = some record)
    (ha : (m.entity e).attribute? name = some ⟨name, .basic type⟩)
    (hne : name ≠ (m.entity e).primaryKey) :
    m.attributeValue e id record name = record.scalar name := by
  rw [attributeValue, if_neg hne, Record.scalar]
  cases hc : record.find? name with
  | none => rfl
  | some cell =>
    have hs := @hst e id record ⟨name, .basic type⟩ cell hr ha hc
    cases hs
    rfl

theorem Kind.holdsMany_iff {kind : Kind} : kind.holdsMany = true ↔
    (∃ type, kind = .elements type) ∨ ∃ target, kind = .collection target := by
  cases kind <;> simp [holdsMany]

/-- An attribute that leads to an entity is joined. -/
theorem Kind.isBasic_of_target? {kind : Kind} (hk : kind.target? = some target) :
    kind.isBasic = false := by
  cases kind with
  | basic => cases hk
  | _ => rfl

/-- Identifiers that all lead somewhere lead to these records. -/
theorem Store.mapM_row_stored {ids : List Int} (h : ∀ i ∈ ids, (st.record? target i).isSome) :
    ids.mapM (st.row target) =
      .ok (ids.filterMap fun i => (st.record? target i).map (.row target i)) := by
  have hall : ids.find? (fun i => (st.record? target i).isNone) = none :=
    List.find?_eq_none.2 fun i hi => by simp [Option.isSome_iff_ne_none.1 (h i hi)]
  rw [Store.mapM_row, hall]

theorem Binding.reached_of_children {b : Binding} {bs : List Binding}
    (h : b.children st a = .ok bs) : b.reached st a = bs := by
  rw [reached, h]

/-- What a relation refers to is stored. -/
theorem Store.WellFormed.related (hst : st.WellFormed m) (hr : st.record? e id = some record)
    (ha : (m.entity e).attribute? a.name = some a) (hk : a.kind.target? = some target) :
    ∀ i ∈ record.related a.name, (st.record? target i).isSome := by
  rw [Record.related]
  cases hc : record.find? a.name with
  | none => exact fun i hi => absurd hi List.not_mem_nil
  | some cell =>
    have hs := hst hr ha hc
    generalize a.kind = kind at hk hs
    cases hs with
    | reference h =>
      obtain rfl := Option.some.inj hk
      exact List.forall_mem_singleton.2 h
    | collection h =>
      obtain rfl := Option.some.inj hk
      exact h
    | _ => exact fun i hi => absurd hi List.not_mem_nil

/-- **A relation reaches the records that it refers to.** -/
theorem Binding.reached_related (hst : st.WellFormed m) (hr : st.record? e id = some record)
    (ha : (m.entity e).attribute? a.name = some a) (hk : a.kind.target? = some target) :
    (Binding.row e id record).reached st a = (record.related a.name).filterMap fun i =>
      (st.record? target i).map (.row target i) := by
  have hchildren : (Binding.row e id record).children st a =
      (record.related a.name).mapM (st.row target) := by
    rw [Record.related]
    cases hc : record.find? a.name with
    | none => exact Binding.children_of_none hc (Kind.isBasic_of_target? hk)
    | some cell =>
      have hs := hst hr ha hc
      generalize hkind : a.kind = kind at hk hs
      rw [children, hkind, hc]
      cases hs with
      | noReference => rfl
      | reference =>
        obtain rfl := Option.some.inj hk
        rfl
      | collection =>
        obtain rfl := Option.some.inj hk
        rfl
      | _ => cases hk
  exact reached_of_children (hchildren.trans (Store.mapM_row_stored (hst.related hr ha hk)))

/-- **An attribute with elements reaches these**, each as a scalar or as the record that it refers
to. -/
theorem Binding.reached_elements (hst : st.WellFormed m) (hr : st.record? e id = some record)
    (ha : (m.entity e).attribute? a.name = some a) (hmany : a.kind.holdsMany = true)
    (s : SourceId) : ((Binding.row e id record).reached st a).map ((Expr.element s).valueIn m) =
      record.elements a.name := by
  obtain ⟨type, hk⟩ | ⟨target, hk⟩ := Kind.holdsMany_iff.1 hmany
  · cases hc : record.find? a.name with
    | none =>
      have hb : a.kind.isBasic = false := by rw [hk]; rfl
      rw [reached_of_children (Binding.children_of_none hc hb), Record.elements, Record.related, hc]
      rfl
    | some cell =>
      have hs := hst hr ha hc
      rw [hk] at hs
      cases hs with
      | elements _ vs =>
        have hchildren : (Binding.row e id record).children st a = .ok (vs.map .element) := by
          rw [children, hk, hc]
        rw [reached_of_children hchildren, Record.elements, hc, List.map_map]
        exact List.map_id'' (fun _ => rfl) vs
  · have htarget : a.kind.target? = some target := by rw [hk]; rfl
    have hstored := hst.related hr ha htarget
    have helements : record.elements a.name = (record.related a.name).map .int := by
      cases hc : record.find? a.name with
      | none => rw [Record.elements, hc]
      | some cell =>
        have hs := hst hr ha hc
        rw [hk] at hs
        cases hs
        rw [Record.elements, hc]
    rw [helements, reached_related hst hr ha htarget]
    -- all that is referred to is stored, so none of it is lost on the way
    generalize record.related a.name = ids at hstored
    induction ids with
    | nil => rfl
    | cons i ids ih =>
      obtain ⟨hi, hids⟩ := List.forall_mem_cons.1 hstored
      obtain ⟨r, hr⟩ := Option.isSome_iff_exists.1 hi
      rw [List.filterMap_cons, hr, Option.map_some, List.map_cons, List.map_cons, ih hids]
      rfl

/-- **The entries of a map attribute** are read from what it reaches. -/
theorem Store.entries_native (hst : st.WellFormed m) (hr : st.record? e id = some record)
    (ha : (m.entity e).attribute? a.name = some a) (hk : a.kind = .map type) (s : SourceId) :
    st.entries .native a record = ((Binding.row e id record).reached st a).map fun c =>
      ((Expr.mapKey s).valueIn m c, (Expr.mapValue s).valueIn m c) := by
  rw [entries]
  cases hc : record.find? a.name with
  | none =>
    have hb : a.kind.isBasic = false := by rw [hk]; rfl
    rw [Binding.reached_of_children (Binding.children_of_none hc hb)]
    rfl
  | some cell =>
    have hs := hst hr ha hc
    rw [hk] at hs
    cases hs with
    | map _ entries =>
      have hchildren : (Binding.row e id record).children st a =
          .ok (entries.entries.map fun entry => .entry entry.1 entry.2) := by
        rw [Binding.children, hk, hc]
      rw [Binding.reached_of_children hchildren, List.map_map]
      rfl

/-- **The entries of a map that is kept as records** are read from these, if key and value are basic
attributes beside the primary key. -/
theorem Store.entries_related {attributes : EntryAttributes} {keyType valueType : ScalarType}
    (hst : st.WellFormed m) (hr : st.record? e id = some record)
    (ha : (m.entity e).attribute? a.name = some a) (hk : a.kind.target? = some target)
    (hkey : (m.entity target).attribute? attributes.key = some ⟨attributes.key, .basic keyType⟩)
    (hvalue : (m.entity target).attribute? attributes.value =
      some ⟨attributes.value, .basic valueType⟩)
    (hkeyNe : attributes.key ≠ (m.entity target).primaryKey)
    (hvalueNe : attributes.value ≠ (m.entity target).primaryKey) (s : SourceId) :
    st.entries (.entries attributes) a record =
      ((Binding.row e id record).reached st a).map fun c =>
        ((Expr.column s attributes.key).valueIn m c,
          (Expr.column s attributes.value).valueIn m c) := by
  rw [entries, hk, Binding.reached_related hst hr ha hk, List.map_filterMap]
  refine congrArg (List.filterMap · _) (funext fun i => ?_)
  cases hi : st.record? target i with
  | none => rfl
  | some r =>
    simp only [Option.map_some, Expr.valueIn]
    rw [Model.attributeValue_basic hst hi hkey hkeyNe,
      Model.attributeValue_basic hst hi hvalue hvalueNe]

end Contents

end EntityFilter
