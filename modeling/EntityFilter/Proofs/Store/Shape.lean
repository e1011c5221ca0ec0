import EntityFilter.Proofs.Store.Evaluation

/-!
# Well-formed stores

In a well-formed store every cell has the shape that the kind of its attribute asks for, and
every relation leads to stored records.

* `Cell.Suits`, `Store.WellFormed`: the shape of cells and of a store.
* `Store.WellFormed.insert`: a store stays well-formed when a record is stored.
* `Query.Typed`: the joins of a query go through relations of the entity above them.
* `Query.steady_of_wellFormed`: on a well-formed store no selection of a typed query fails.
* `Query.steady_of_any`: on any store a selection fails for reasons that lie in the data.
-/

namespace EntityFilter

/-- **A cell has the shape of a kind**, and what it refers to is stored. -/
inductive Cell.Suits (st : Store) : Kind → Cell → Prop
  | scalar (type : ScalarType) (v : Value) : Suits st (.basic type) (.scalar v)
  | noReference (target : String) : Suits st (.reference target) (.reference none)
  | reference {target : String} {id : Int} (h : (st.record? target id).isSome) :
      Suits st (.reference target) (.reference (some id))
  | collection {target : String} {ids : List Int}
      (h : ∀ id ∈ ids, (st.record? target id).isSome) :
      Suits st (.collection target) (.collection ids)
  | elements (type : ScalarType) (vs : List Value) : Suits st (.elements type) (.elements vs)
  | map (type : ScalarType) (entries : OrderedMap String Value) :
      Suits st (.map type) (.map entries)

/-- **Every stored cell of an attribute has the shape of the attribute's kind.** -/
def Store.WellFormed (m : Model) (st : Store) : Prop :=
  ∀ ⦃entity id record a cell⦄, st.record? entity id = some record →
    (m.entity entity).attribute? a.name = some a → record.find? a.name = some cell →
    cell.Suits st a.kind

/-- An entry of a map is found under its key. -/
theorem OrderedMap.find?_of_mem {κ α : Type} [Ord κ] [Std.TransOrd κ] [Std.LawfulEqOrd κ]
    {map : OrderedMap κ α} {k : κ} {a : α} (h : (k, a) ∈ map.entries) : map.find? k = some a := by
  obtain ⟨l, hl⟩ := map
  simp only [find?] at h ⊢
  induction l with
  | nil => exact absurd h List.not_mem_nil
  | cons b l ih =>
    obtain ⟨hb, hl⟩ := List.pairwise_cons.1 hl
    rcases List.mem_cons.1 h with rfl | h
    · simp [Std.ReflCmp.compare_self]
    · have hlt := hb _ h
      have hne : compare k b.1 ≠ .eq := fun he => by
        obtain rfl : k = b.1 := Std.LawfulEqCmp.eq_of_compare he
        simp [Std.ReflCmp.compare_self] at hlt
      rw [List.find?_cons, beq_eq_false_iff_ne.2 hne]
      exact ih hl h

/-- What is found under a key is an entry. -/
theorem OrderedMap.mem_of_find? {κ α : Type} [Ord κ] [Std.LawfulEqOrd κ] {map : OrderedMap κ α}
    {k : κ} {a : α} (h : map.find? k = some a) : (k, a) ∈ map.entries := by
  obtain ⟨⟨k', a'⟩, hfind, rfl⟩ := Option.map_eq_some_iff.1 h
  have hkey := List.find?_some (p := fun entry : κ × α => compare k entry.1 == .eq) hfind
  obtain rfl : k = k' := Std.LawfulEqCmp.eq_of_compare (eq_of_beq hkey)
  exact List.mem_of_find?_eq_some hfind

/-- What is found in the map of a list is an entry of the list. -/
theorem OrderedMap.mem_of_find?_ofList {κ α : Type} [Ord κ] [Std.TransOrd κ] [Std.LawfulEqOrd κ]
    {l : List (κ × α)} {k : κ} {a : α} : (ofList l).find? k = some a → (k, a) ∈ l := by
  have stored : ∀ map : OrderedMap κ α,
      (l.foldl (fun m entry => m.insert entry.1 entry.2) map).find? k = some a →
      map.find? k = some a ∨ (k, a) ∈ l := by
    induction l with
    | nil => exact fun map h => Or.inl h
    | cons entry l ih =>
      intro map h
      rcases ih _ h with h | h
      · rw [find?_insert] at h
        split at h
        · rename_i hk
          rw [Std.LawfulEqCmp.eq_of_compare hk, ← Option.some.inj h]
          exact Or.inr List.mem_cons_self
        · exact Or.inl h
      · exact Or.inr (List.mem_cons_of_mem _ h)
  exact fun h => (stored empty h).resolve_left fun h => nomatch h

/-! ## Storing records -/

section Insert

variable {m : Model} {st : Store} {entity : String} {id : Int} {r : Record}

/-- What a cell refers to stays stored. -/
theorem Cell.Suits.insert {kind : Kind} {cell : Cell} (h : cell.Suits st kind) :
    cell.Suits (st.insert entity id r) kind := by
  have stays : ∀ {target : String} {id' : Int}, (st.record? target id').isSome →
      ((st.insert entity id r).record? target id').isSome := by
    intro target id' h
    rw [Store.record?_insert]
    split
    · rfl
    · exact h
  cases h with
  | scalar type v => exact .scalar type v
  | noReference target => exact .noReference target
  | reference h => exact .reference (stays h)
  | collection h => exact .collection fun id hid => stays (h id hid)
  | elements type vs => exact .elements type vs
  | map type entries => exact .map type entries

theorem Store.WellFormed.empty {d : Dialect} : (Store.empty d).WellFormed m :=
  fun _ _ _ _ _ hr => nomatch hr

/-- **A store stays well-formed** when a record is stored whose cells have the shapes of their
attributes. -/
theorem Store.WellFormed.insert (hst : st.WellFormed m)
    (h : ∀ {name cell a}, r.find? name = some cell → (m.entity entity).attribute? name = some a →
      cell.Suits (st.insert entity id r) a.kind) : (st.insert entity id r).WellFormed m := by
  intro entity' id' record a cell hr ha hc
  rw [Store.record?_insert] at hr
  split at hr
  · rename_i he
    obtain rfl := Option.some.inj hr
    exact h hc (he.1 ▸ ha)
  · exact (hst hr ha hc).insert

end Insert

/-! ## What attributes reach -/

section Children

variable {m : Model} {st : Store} {relation : Attribute} {b : Binding}

/-- A bound row is a stored record. -/
theorem Store.record?_of_mem_rows {entity : String} (h : b ∈ st.rows entity) :
    ∃ id record, b = .row entity id record ∧ st.record? entity id = some record := by
  obtain ⟨⟨id, record⟩, hmem, rfl⟩ := List.mem_map.1 h
  exact ⟨id, record, rfl, OrderedMap.find?_of_mem hmem⟩

/-- The rows of an entity are its stored records. -/
theorem Store.mem_rows {entity : String} {id : Int} {record : Record} :
    .row entity id record ∈ st.rows entity ↔ st.record? entity id = some record := by
  constructor
  · intro h
    obtain ⟨id', record', heq, hfound⟩ := Store.record?_of_mem_rows h
    obtain ⟨-, rfl, rfl⟩ := Binding.row.inj heq
    exact hfound
  · intro h
    exact List.mem_map.2 ⟨(id, record), OrderedMap.mem_of_find? h, rfl⟩

/-- **The records that identifiers lead to**, or the first identifier that leads nowhere. -/
theorem Store.mapM_row (st : Store) (target : String) (ids : List Int) :
    ids.mapM (st.row target) =
      match ids.find? fun id => (st.record? target id).isNone with
      | some id => .error (.unknownRecord target id)
      | none => .ok (ids.filterMap fun id => (st.record? target id).map (.row target id)) := by
  induction ids with
  | nil => rfl
  | cons id ids ih =>
    rw [List.mapM_cons, ih, List.find?_cons, List.filterMap_cons]
    cases hr : st.record? target id with
    | none => simp [Store.row, hr, bind, Except.bind]
    | some record =>
      simp only [Store.row, hr, Option.isNone_some, Option.map_some, bind, Except.bind]
      cases ids.find? fun id => (st.record? target id).isNone <;> rfl

theorem Store.mapM_row_ok {target : String} {ids : List Int} {bs : List Binding}
    (h : ids.mapM (st.row target) = .ok bs) :
    bs = ids.filterMap fun id => (st.record? target id).map (.row target id) := by
  rw [Store.mapM_row] at h
  split at h
  · cases h
  · exact (Except.ok.inj h).symm

/-- What a relation reaches are stored records of its target. -/
theorem Binding.row_of_mem_children {bs : List Binding} {target : String}
    (h : b.children st relation = .ok bs) (ht : relation.kind.target? = some target) :
    ∀ c ∈ bs, ∃ id record, c = .row target id record ∧ st.record? target id = some record := by
  have rows : ∀ (ids : List Int), ids.mapM (st.row target) = .ok bs →
      ∀ c ∈ bs, ∃ id record, c = .row target id record ∧ st.record? target id = some record := by
    intro ids hm c hc
    rw [Store.mapM_row_ok hm] at hc
    obtain ⟨id, -, hr⟩ := List.mem_filterMap.1 hc
    obtain ⟨record, hrec, rfl⟩ := Option.map_eq_some_iff.1 hr
    exact ⟨id, record, rfl, hrec⟩
  unfold Binding.children at h
  split at h
  · cases h; simp
  · split at h
    · cases h
    · cases h; simp
    · rename_i hk _
      obtain rfl : _ = target := by simpa [hk, Kind.target?] using ht
      exact rows _ h
    · rename_i hk _
      obtain rfl : _ = target := by simpa [hk, Kind.target?] using ht
      exact rows _ h
    · rename_i hk _
      simp [hk, Kind.target?] at ht
    · rename_i hk _
      simp [hk, Kind.target?] at ht
    · cases h
  · cases h

/-- A relation whose cell is not set reaches nothing, whatever its kind. -/
theorem Binding.children_of_none {entity : String} {id : Int} {record : Record}
    (hc : record.find? relation.name = none) (hk : relation.kind.isBasic = false) :
    (Binding.row entity id record).children st relation = .ok [] := by
  obtain ⟨name, kind⟩ := relation
  simp only at hc
  cases kind with
  | basic type => cases hk
  | reference | collection | elements | map => simp only [Binding.children, hc]

/-- A cell of the right shape leads somewhere, or to nothing, without failure. -/
theorem Binding.children_ok {entity : String} {id : Int} {record : Record}
    (hst : st.WellFormed m) (hr : st.record? entity id = some record)
    (ha : (m.entity entity).attribute? relation.name = some relation)
    (hk : relation.kind.isBasic = false) :
    ∃ bs, (Binding.row entity id record).children st relation = .ok bs := by
  have stored : ∀ {target : String} {ids : List Int}, (∀ id ∈ ids, (st.record? target id).isSome) →
      ∃ bs, ids.mapM (st.row target) = .ok bs := by
    intro target ids h
    have hall : ids.find? (fun id => (st.record? target id).isNone) = none :=
      List.find?_eq_none.2 fun id hid => by simpa [Option.isSome_iff_ne_none] using h id hid
    rw [Store.mapM_row, hall]
    exact ⟨_, rfl⟩
  cases hc : record.find? relation.name with
  | none => exact ⟨[], Binding.children_of_none hc hk⟩
  | some cell =>
    have hs := hst hr ha hc
    obtain ⟨name, kind⟩ := relation
    simp only at hc hs hk
    cases hs with
    | scalar type v => cases hk
    | noReference target => exact ⟨[], by simp [Binding.children, hc]; rfl⟩
    | reference h =>
      simp only [Binding.children, hc]
      exact stored (by simpa using h)
    | collection h =>
      simp only [Binding.children, hc]
      exact stored h
    | elements type vs => exact ⟨vs.map .element, by simp only [Binding.children, hc]⟩
    | map type entries =>
      exact ⟨entries.entries.map fun e => .entry e.1 e.2, by simp only [Binding.children, hc]⟩

/-- Reaching what an attribute holds fails for reasons that lie in the data. -/
theorem Binding.children_error {e : StoreError} (h : b.children st relation = .error e)
    (s : SourceId) : e ≠ .unboundSource s := by
  have rows : ∀ {target : String} {ids : List Int}, ids.mapM (st.row target) = .error e →
      e ≠ .unboundSource s := by
    intro target ids hm
    rw [Store.mapM_row] at hm
    split at hm <;> cases hm
    simp
  unfold Binding.children at h
  split at h
  · cases h
  · split at h
    · cases h; simp
    · cases h
    · exact rows h
    · exact rows h
    · cases h
    · cases h
    · cases h; simp
  · cases h; simp

end Children

/-! ## A shop -/

namespace Shop

/-- Orders hold items, and items have a quantity. -/
def model : Model :=
  ⟨[], [⟨"Order", "id", [⟨"id", .basic .int⟩, ⟨"items", .collection "Item"⟩]⟩,
    ⟨"Item", "id", [⟨"qty", .basic .int⟩]⟩]⟩

/-- The first order holds the one item twice, the second holds none. -/
def store : Store :=
  (((Store.empty .standard).insert "Item" 7 (OrderedMap.ofList [("qty", .scalar (.int 2))])).insert
    "Order" 1 (OrderedMap.ofList [("items", .collection [7, 7])])).insert "Order" 2 OrderedMap.empty

theorem store_wellFormed : store.WellFormed model := by
  refine ((Store.WellFormed.empty.insert fun hc ha => ?_).insert fun hc ha => ?_).insert
    fun hc => nomatch hc
  · obtain ⟨rfl, rfl⟩ := Prod.mk.inj (List.mem_singleton.1 (OrderedMap.mem_of_find?_ofList hc))
    obtain rfl := Option.some.inj ha
    exact .scalar _ _
  · obtain ⟨rfl, rfl⟩ := Prod.mk.inj (List.mem_singleton.1 (OrderedMap.mem_of_find?_ofList hc))
    obtain rfl := Option.some.inj ha
    exact .collection (by decide)

end Shop

namespace Query

variable {m : Model} {st : Store} {q : Query}

/-- **The joins of a query go through relations of the entity above them.** -/
def Typed (m : Model) (q : Query) : Prop :=
  ∀ ⦃s src parent relation kind⦄, q.source? s = some src → src.active →
    src.kind = .join parent relation kind → ∃ psrc entity, q.source? parent = some psrc ∧
      psrc.entity? = some entity ∧ (m.entity entity).attribute? relation.name = some relation ∧
      relation.kind.isBasic = false

/-- A source of records is bound to a stored record of its entity, or to nothing. -/
def Suits (st : Store) (q : Query) (s : SourceId) (b : Binding) : Prop :=
  ∀ ⦃src entity⦄, q.source? s = some src → src.entity? = some entity →
    b = .missing ∨ ∃ id record, b = .row entity id record ∧ st.record? entity id = some record

theorem mem_complete {kind : JoinKind} {bs : List Binding} {b : Binding}
    (h : b ∈ kind.complete bs) : b = .missing ∨ b ∈ bs := by
  unfold JoinKind.complete at h
  split at h
  · exact Or.inl (List.mem_singleton.1 h)
  · exact Or.inr h

theorem suits_of_mem_choices {env : Env} {s : SourceId} {b : Binding}
    (hb : b ∈ q.choices st env s) : q.Suits st s b := by
  intro src entity hsrc he
  unfold choices at hb
  rw [hsrc] at hb
  simp only [Option.map_some] at hb
  split at hb
  · rename_i hk
    cases hk
  · rename_i e hk
    obtain rfl : e = entity := by simpa [Source.entity?, Option.some.inj hk] using he
    exact Or.inr (Store.record?_of_mem_rows hb)
  · rename_i parent relation kind hk
    have ht : relation.kind.target? = some entity := by
      simpa [Source.entity?, Option.some.inj hk] using he
    refine (mem_complete hb).imp id fun hb => ?_
    unfold Binding.reached at hb
    split at hb
    · rename_i bs hbs
      exact Binding.row_of_mem_children hbs ht b hb
    · exact absurd hb List.not_mem_nil

/-- **On a well-formed store a typed query has no reason to fail.** -/
theorem steady_of_wellFormed (hst : st.WellFormed m) (ht : q.Typed m) :
    q.Steady st (fun _ => False) (q.Suits st) where
  choice := fun _ _ b hb => suits_of_mem_choices hb
  children := by
    intro s src parent relation kind b e hsrc hact hk hfit herr
    obtain ⟨psrc, entity, hps, hent, ha, hbasic⟩ := ht hsrc hact hk
    rcases hfit hps hent with rfl | ⟨id, record, rfl, hr⟩
    · cases herr
    · obtain ⟨bs, hok⟩ := Binding.children_ok hst hr ha hbasic
      rw [hok] at herr
      cases herr

/-- On any store the reasons to fail lie in the data. -/
theorem steady_of_any (st : Store) (q : Query) :
    q.Steady st (fun e => ∀ s, e ≠ .unboundSource s) (fun _ _ => True) where
  choice := fun _ _ _ _ => trivial
  children := fun _ _ _ _ herr => Binding.children_error herr

end Query

end EntityFilter
