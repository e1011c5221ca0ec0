import EntityFilter.Proofs.Compile.Agreement
import EntityFilter.Proofs.Compile.Successive
import EntityFilter.Proofs.Compile.Values
import EntityFilter.Proofs.Text.Upper

/-!
# Stores in letters of either case

Two stores may be the same but for the letters of their texts, which are the same in upper case.
They are followed side by side, and nothing is told apart in them that is read in upper case.

* `Value.Recased`, `Cell.Recased`, `Store.Recased`: values, cells and stores that are the same but
  for letters.
* `Store.Recased.wellFormed`: one of them is well-formed if the other one is.
* `Binding.Recased.valueIn`, `Binding.Recased.along`: expressions and paths lead from bindings that
  are the same but for letters to values and bindings that are.
-/

namespace EntityFilter

open Query

/-! ## Values, cells and stores -/

/-- **Values that are the same but for letters**: texts that are the same in upper case. -/
inductive Value.Recased : Value → Value → Prop
  | refl (v : Value) : Recased v v
  | text {t t' : String} (h : Text.upper t = Text.upper t') : Recased (.text t) (.text t')

/-- Entries of a map that are the same but for letters. -/
def Entry.Recased (entry entry' : String × Value) : Prop :=
  Text.upper entry.1 = Text.upper entry'.1 ∧ entry.2.Recased entry'.2

/-- **Cells that are the same but for letters.** The keys of a map are texts too, so its entries may
stand in another order. -/
inductive Cell.Recased : Cell → Cell → Prop
  | scalar {v v' : Value} (h : v.Recased v') : Recased (.scalar v) (.scalar v')
  | reference (id : Option Int) : Recased (.reference id) (.reference id)
  | collection (ids : List Int) : Recased (.collection ids) (.collection ids)
  | elements {vs vs' : List Value} (h : List.Forall₂ Value.Recased vs vs') :
      Recased (.elements vs) (.elements vs')
  | map {entries entries' : OrderedMap String Value}
      (h : Multiset.Rel Entry.Recased entries.entries entries'.entries) :
      Recased (.map entries) (.map entries')

/-- Records that are the same but for letters. -/
def Record.Recased (record record' : Record) : Prop :=
  ∀ a, Option.Rel Cell.Recased (record.find? a) (record'.find? a)

/-- **Stores that are the same but for letters**: they read patterns alike, and they have the same
records, the same but for letters. -/
structure Store.Recased (st st' : Store) : Prop where
  dialect : st'.dialect = st.dialect
  records : ∀ e id, Option.Rel Record.Recased (st.record? e id) (st'.record? e id)

/-- **Bindings that are the same but for letters.** -/
inductive Binding.Recased : Binding → Binding → Prop
  | row (e : String) (id : Int) {record record' : Record} (h : Record.Recased record record') :
      Recased (.row e id record) (.row e id record')
  | element {v v' : Value} (h : v.Recased v') : Recased (.element v) (.element v')
  | entry {key key' : String} {v v' : Value} (hkey : Text.upper key = Text.upper key')
      (h : v.Recased v') : Recased (.entry key v) (.entry key' v')
  | missing : Recased .missing .missing

variable {m : Model} {st st' : Store} {v v' : Value} {b b' : Binding} {cell cell' : Cell}
  {record record' : Record} {e : String} {relation : Attribute} {kind : Kind}

/-! ### Laws -/

namespace Value.Recased

theorem symm (h : v.Recased v') : v'.Recased v := by
  cases h with
  | refl => exact .refl v
  | text h => exact .text h.symm

/-- **In upper case they are the same.** -/
theorem upper (h : v.Recased v') : v.upper = v'.upper := by
  cases h with
  | refl => rfl
  | text h => exact congrArg Value.text h

theorem isNull (h : v.Recased v') : v.isNull = v'.isNull := by
  cases h <;> rfl

/-- One of them is the empty text if the other one is. -/
theorem equals_empty (h : v.Recased v') : v.equals (.text "") = v'.equals (.text "") := by
  cases h with
  | refl => rfl
  | @text t t' h =>
    have hempty : (Ord.compare t "" == .eq) = (Ord.compare t' "" == .eq) := by
      rw [Bool.eq_iff_iff, beq_iff_eq, beq_iff_eq, Std.compare_eq_iff_eq, Std.compare_eq_iff_eq,
        ← Text.upper_eq_empty, h, Text.upper_eq_empty]
    exact congrArg Truth.ofBool hempty

end Value.Recased

theorem Entry.Recased.symm {entry entry' : String × Value} (h : Entry.Recased entry entry') :
    Entry.Recased entry' entry :=
  ⟨h.1.symm, h.2.symm⟩

theorem Cell.Recased.symm (h : cell.Recased cell') : cell'.Recased cell := by
  cases h with
  | scalar h => exact .scalar h.symm
  | reference id => exact .reference id
  | collection ids => exact .collection ids
  | elements h => exact .elements (h.flip.imp fun _ _ h => h.symm)
  | map h => exact .map ((Multiset.rel_flip.2 h).mono fun _ _ _ _ h => h.symm)

/-- A relation that holds both ways does so for options. -/
theorem rel_swap {α : Type} {r : α → α → Prop} (hr : ∀ {x y}, r x y → r y x) {x y : Option α}
    (h : Option.Rel r x y) : Option.Rel r y x := by
  cases h with
  | none => exact .none
  | some h => exact .some (hr h)

theorem Record.Recased.symm (h : Record.Recased record record') :
    Record.Recased record' record :=
  fun a => rel_swap Cell.Recased.symm (h a)

theorem Store.Recased.symm (h : st.Recased st') : st'.Recased st where
  dialect := h.dialect.symm
  records := fun e id => rel_swap Record.Recased.symm (h.records e id)

theorem Binding.Recased.symm (h : b.Recased b') : b'.Recased b := by
  cases h with
  | row e id h => exact .row e id h.symm
  | element h => exact .element h.symm
  | entry hkey h => exact .entry hkey.symm h.symm
  | missing => exact .missing

theorem Cell.Recased.refl (cell : Cell) : cell.Recased cell := by
  cases cell with
  | scalar v => exact .scalar (.refl v)
  | reference id => exact .reference id
  | collection ids => exact .collection ids
  | elements vs => exact .elements (List.forall₂_same.2 fun v _ => .refl v)
  | map entries => exact .map (Multiset.rel_refl_of_refl_on fun entry _ => ⟨rfl, .refl entry.2⟩)

theorem Record.Recased.refl (record : Record) : Record.Recased record record := by
  intro a
  cases record.find? a with
  | none => exact .none
  | some cell => exact .some (.refl cell)

theorem Store.Recased.refl (st : Store) : st.Recased st where
  dialect := rfl
  records := by
    intro e id
    cases st.record? e id with
    | none => exact .none
    | some record => exact .some (.refl record)

/-- Records stay the same but for letters when cells are put in that are. -/
theorem Record.Recased.insert (h : Record.Recased record record') (hcell : cell.Recased cell')
    (name : String) :
    Record.Recased (OrderedMap.insert record name cell) (OrderedMap.insert record' name cell') := by
  intro a
  rw [OrderedMap.find?_insert, OrderedMap.find?_insert]
  split
  · exact .some hcell
  · exact h a

/-- Stores stay the same but for letters when records are stored that are. -/
theorem Store.Recased.insert (h : st.Recased st') (hrecord : Record.Recased record record')
    (entity : String) (id : Int) :
    (st.insert entity id record).Recased (st'.insert entity id record') where
  dialect := h.dialect
  records := by
    intro e id'
    rw [Store.record?_insert, Store.record?_insert]
    split
    · exact .some hrecord
    · exact h.records e id'

/-! ## Records that are stored -/

/-- What is related to something is something. -/
theorem exists_of_rel {α : Type} {r : α → α → Prop} {x y : Option α} {a : α}
    (h : Option.Rel r x y) (hx : x = some a) : ∃ b, y = some b ∧ r a b := by
  subst hx
  cases h with
  | some h => exact ⟨_, rfl, h⟩

/-- A record of one store is one of the other store. -/
theorem Store.Recased.found {id : Int} (h : st.Recased st')
    (hr : st.record? e id = some record) :
    ∃ record', st'.record? e id = some record' ∧ Record.Recased record record' :=
  exists_of_rel (h.records e id) hr

/-- **They have the same records of an entity**, in the same order. -/
theorem Store.Recased.roots (h : st.Recased st') (e : String) :
    (st.table e).entries.map Prod.fst = (st'.table e).entries.map Prod.fst := by
  have ascending : ∀ st : Store, Ascending id ((st.table e).entries.map Prod.fst) :=
    fun st => List.pairwise_map.2 (st.table e).ascending
  have mem : ∀ {st st' : Store}, st.Recased st' → ∀ i,
      i ∈ (st.table e).entries.map Prod.fst → i ∈ (st'.table e).entries.map Prod.fst := by
    intro st st' h i hi
    obtain ⟨⟨i, record⟩, hmem, rfl⟩ := List.mem_map.1 hi
    have hfound : st.record? e i = some record := OrderedMap.find?_of_mem hmem
    obtain ⟨record', hrecord', -⟩ := h.found hfound
    exact List.mem_map.2 ⟨(i, record'), OrderedMap.mem_of_find? hrecord', rfl⟩
  exact Ascending.eq_of_mem_iff (ascending st) (ascending st') fun i => ⟨mem h i, mem h.symm i⟩

/-- The same cells refer to stored records, and have the shape of a kind. -/
theorem Cell.Suits.recased (h : cell.Suits st kind) (hcell : cell.Recased cell')
    (hst : st.Recased st') : cell'.Suits st' kind := by
  have stored : ∀ {e : String} {id : Int}, (st.record? e id).isSome →
      (st'.record? e id).isSome := by
    intro e id hid
    obtain ⟨record, hr⟩ := Option.isSome_iff_exists.1 hid
    obtain ⟨record', hr', -⟩ := hst.found hr
    rw [hr']
    rfl
  cases h with
  | scalar type v =>
    cases hcell with
    | scalar => exact .scalar type _
  | noReference target =>
    cases hcell with
    | reference => exact .noReference target
  | reference h =>
    cases hcell with
    | reference => exact .reference (stored h)
  | collection h =>
    cases hcell with
    | collection => exact .collection fun id hid => stored (h id hid)
  | elements type vs =>
    cases hcell with
    | elements => exact .elements type _
  | map type entries =>
    cases hcell with
    | map => exact .map type _

/-- **One store is well-formed if the other one is.** -/
theorem Store.Recased.wellFormed (h : st.Recased st') (hst : st.WellFormed m) :
    st'.WellFormed m := by
  intro e id record' a cell' hr' ha hc'
  obtain ⟨record, hr, hrecord⟩ := h.symm.found hr'
  obtain ⟨cell, hc, hcell⟩ := exists_of_rel (hrecord a.name) hc'
  exact (hst hr ha hc).recased hcell.symm h

/-! ## What is read and reached -/

/-- The value of an attribute is the same but for letters. -/
theorem Record.Recased.attributeValue (h : Record.Recased record record') (m : Model) (e : String)
    (id : Int) (name : String) : (m.attributeValue e id record name).Recased
      (m.attributeValue e id record' name) := by
  unfold Model.attributeValue
  split
  · exact .refl _
  · have hcell := h name
    generalize record.find? name = cell at hcell
    generalize record'.find? name = cell' at hcell
    cases hcell with
    | none => exact .refl _
    | some hcell =>
      cases hcell with
      | scalar hv => exact hv
      | reference id => cases id <;> exact .refl _
      | collection ids => exact .refl _
      | elements _ => exact .refl _
      | map _ => exact .refl _

namespace Binding.Recased

/-- **An expression reads values that are the same but for letters.** -/
theorem valueIn (h : b.Recased b') (m : Model) (expr : Expr) :
    (expr.valueIn m b).Recased (expr.valueIn m b') := by
  induction expr with
  | upper expr ih =>
    rw [Expr.valueIn_upper, Expr.valueIn_upper, ih.upper]
    exact .refl _
  | column s name =>
    cases h with
    | row e id h => exact h.attributeValue m e id name
    | _ => exact .refl _
  | element s =>
    cases h with
    | element h => exact h
    | _ => exact .refl _
  | mapKey s =>
    cases h with
    | entry hkey h => exact .text hkey
    | _ => exact .refl _
  | mapValue s =>
    cases h with
    | entry hkey h => exact h
    | _ => exact .refl _

/-- **What is reached in two stores**: bindings that are the same but for letters, or nothing in
either as the data do not fit. -/
inductive ReachedAlike : Except StoreError (List Binding) → Except StoreError (List Binding) → Prop
  | ok {bs bs' : List Binding} (h : Multiset.Rel Recased (bs : Multiset Binding) bs') :
      ReachedAlike (.ok bs) (.ok bs')
  | error (err err' : StoreError) : ReachedAlike (.error err) (.error err')

/-- Identifiers lead to records that are the same but for letters. -/
theorem rows (hst : st.Recased st') (target : String) (ids : List Int) :
    ReachedAlike (ids.mapM (st.row target)) (ids.mapM (st'.row target)) := by
  induction ids with
  | nil => exact .ok .zero
  | cons id ids ih =>
    have hrecord := hst.records target id
    simp only [List.mapM_cons, Store.row]
    generalize st.record? target id = found at hrecord
    generalize st'.record? target id = found' at hrecord
    cases hrecord with
    | none => exact .error _ _
    | some h =>
      generalize ids.mapM (st.row target) = rest at ih
      generalize ids.mapM (st'.row target) = rest' at ih
      cases ih with
      | ok hrest => exact .ok (.cons (.row target id h) hrest)
      | error err err' => exact .error err err'

theorem children (h : b.Recased b') (hst : st.Recased st') (relation : Attribute) :
    ReachedAlike (b.children st relation) (b'.children st' relation) := by
  obtain ⟨name, kind⟩ := relation
  cases h with
  | element h => exact .error _ _
  | entry hkey h => exact .error _ _
  | missing => exact .ok .zero
  | @row e id record record' h =>
    have hcell := h name
    unfold Binding.children
    dsimp only
    generalize record.find? name = cell at hcell
    generalize record'.find? name = cell' at hcell
    -- a cell that does not fit the kind reaches nothing in either store
    cases hcell with
    | none => cases kind <;> first | exact .error _ _ | exact .ok .zero
    | some hcell =>
      cases hcell with
      | scalar h => cases kind <;> exact .error _ _
      | reference id => cases kind <;> first | exact .error _ _ | exact rows hst _ _
      | collection ids => cases kind <;> first | exact .error _ _ | exact rows hst _ _
      | elements hvs =>
        cases kind with
        | elements type =>
          refine .ok (rel_of_forall₂ ?_)
          rw [List.forall₂_map_left_iff, List.forall₂_map_right_iff]
          exact hvs.imp fun _ _ => .element
        | _ => exact .error _ _
      | map hentries =>
        cases kind with
        | map type =>
          refine .ok ?_
          rw [← Multiset.map_coe, ← Multiset.map_coe, Multiset.rel_map]
          exact hentries.mono fun _ _ _ _ h => .entry h.1 h.2
        | _ => exact .error _ _

/-- **A relation leads to bindings that are the same but for letters**, to as many. -/
theorem joined (h : b.Recased b') (hst : st.Recased st') (relation : Attribute) :
    Multiset.Rel Recased (b.joined st relation) (b'.joined st' relation) := by
  have hchildren := h.children hst relation
  unfold Binding.joined Binding.reached
  generalize b.children st relation = found at hchildren
  generalize b'.children st' relation = found' at hchildren
  cases hchildren with
  | error err err' => exact .cons .missing .zero
  | @ok bs bs' hbs =>
    cases bs with
    | nil =>
      obtain rfl : bs' = [] := by simpa using hbs
      exact .cons .missing .zero
    | cons c bs =>
      cases bs' with
      | nil => simp at hbs
      | cons c' bs' => exact hbs

/-- **What stands at the end of a path** is the same but for letters. -/
theorem along (h : b.Recased b') (hst : st.Recased st') (joins : List Attribute) :
    Multiset.Rel Recased (b.along st joins) (b'.along st' joins) := by
  induction joins generalizing b b' with
  | nil => exact .cons h .zero
  | cons relation rest ih =>
    exact Multiset.rel_bind (fun c c' hc => ih hc) (h.joined hst relation)

end Binding.Recased

/-- Where nothing is held, a path is followed like any other one. -/
theorem Binding.follow_none (st : Store) (b : Binding) (joins : List Attribute) :
    b.follow st joins none = (b.along st joins).map fun c => (c, none) := by
  cases joins with
  | nil => rfl
  | cons relation rest =>
    simp only [follow, hold, Option.bind_none, Option.map_none, along, Multiset.map_bind,
      Multiset.bind_map]

end EntityFilter
