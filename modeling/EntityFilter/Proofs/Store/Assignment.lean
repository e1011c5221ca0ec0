import EntityFilter.Proofs.Store.Shape
import Mathlib.Data.List.Sigma

/-!
# Assignments

What a selection ranges over, said without an order of evaluation: every source is bound to one
of the things that its kind allows, and a thing that a relation reaches twice is two of them.

* `Binding.Child`: what an attribute of a bound source reaches, and at which place.
* `Query.Assigns`: the assignments of the sources of a selection.
* `Query.mem_placements`, `Query.nodup_placements`: binding the sources one after the other finds
  every assignment, and finds it once.
-/

namespace EntityFilter

/-- What a source is bound to, and its place among the things that the source ranges over. -/
structure Choice where
  place : Nat
  binding : Binding

/-- What the sources of a selection are bound to. -/
abbrev Assignment := SourceId → Option Choice

namespace Assignment

/-- The assignment before any source is bound. -/
def empty : Assignment := fun _ => none

/-- Binds one more source. -/
def set (σ : Assignment) (s : SourceId) (c : Choice) : Assignment :=
  fun t => if t = s then some c else σ t

/-- The bindings of an assignment, over those of the selections around it. -/
def bindings (σ : Assignment) (env : Env) : Env :=
  fun s => (σ s).elim (env s) fun c => some c.binding

variable {σ : Assignment} {s t : SourceId} {c : Choice} {env : Env}

@[simp] theorem set_self (σ : Assignment) (s : SourceId) (c : Choice) : σ.set s c s = some c := by
  simp [set]

theorem set_of_ne (h : t ≠ s) : σ.set s c t = σ t := by
  simp [set, h]

theorem bindings_of_some (h : σ s = some c) : σ.bindings env s = some c.binding := by
  simp [bindings, h]

theorem bindings_set (σ : Assignment) (s : SourceId) (c : Choice) (env : Env) :
    (σ.set s c).bindings env = (σ.bindings env).set s c.binding := by
  funext t
  by_cases h : t = s <;> simp [bindings, set, Env.set, h]

end Assignment

/-- **What an attribute of a bound source reaches**, and at which place. -/
inductive Binding.Child (st : Store) (relation : Attribute) : Binding → Choice → Prop
  | reference {entity id record target tid trecord}
      (hk : relation.kind = .reference target)
      (hc : record.find? relation.name = some (.reference (some tid)))
      (hr : st.record? target tid = some trecord) :
      Child st relation (.row entity id record) ⟨0, .row target tid trecord⟩
  | collection {entity id record target ids n tid trecord}
      (hk : relation.kind = .collection target)
      (hc : record.find? relation.name = some (.collection ids)) (hn : ids[n]? = some tid)
      (hr : st.record? target tid = some trecord) :
      Child st relation (.row entity id record) ⟨n, .row target tid trecord⟩
  | element {entity id record type vs n v}
      (hk : relation.kind = .elements type)
      (hc : record.find? relation.name = some (.elements vs)) (hn : vs[n]? = some v) :
      Child st relation (.row entity id record) ⟨n, .element v⟩
  | entry {entity id record type entries n key v}
      (hk : relation.kind = .map type)
      (hc : record.find? relation.name = some (.map entries))
      (hn : entries.entries[n]? = some (key, v)) :
      Child st relation (.row entity id record) ⟨n, .entry key v⟩

/-- **An assignment of the sources of a selection.** -/
structure Query.Assigns (st : Store) (q : Query) (scope : Scope) (σ : Assignment) : Prop where
  /-- The sources that have not been dropped are bound, and no others. -/
  bound : ∀ s, (σ s).isSome ↔ s ∈ q.activeIn scope
  /-- A root is bound to a stored record. -/
  root : ∀ {s src entity c}, q.source? s = some src → src.kind = .root entity → σ s = some c →
    ∃ id record, (st.table entity).entries[c.place]? = some (id, record) ∧
      c.binding = .row entity id record
  /-- A join is bound to one child of what its parent is bound to, or to nothing: that is if the
  join is a left one and there is no child. -/
  join : ∀ {s src parent relation kind c pc}, q.source? s = some src →
    src.kind = .join parent relation kind → σ s = some c → σ parent = some pc →
    pc.binding.Child st relation c ∨
      kind = .left ∧ c = ⟨0, .missing⟩ ∧ ∀ c', ¬ pc.binding.Child st relation c'

/-! ## Children at their places -/

variable {m : Model} {st : Store} {q : Query} {env : Env} {relation : Attribute} {b : Binding}
  {scope : Scope} {σ σ' : Assignment}

theorem getElem?_mapM_ok {α β ε : Type} {f : α → Except ε β} {l : List α} {bs : List β}
    (h : l.mapM f = .ok bs) (n : Nat) (b : β) :
    bs[n]? = some b ↔ ∃ a, l[n]? = some a ∧ f a = .ok b := by
  induction l generalizing bs n with
  | nil =>
    obtain rfl : [] = bs := Except.ok.inj h
    simp
  | cons a l ih =>
    rw [List.mapM_cons] at h
    cases ha : f a with
    | error e => simp [ha, bind, Except.bind] at h
    | ok b' =>
      cases hl : l.mapM f with
      | error e => simp [ha, hl, bind, Except.bind] at h
      | ok bs' =>
        obtain rfl : b' :: bs' = bs := by
          simpa [ha, hl, bind, Except.bind, pure, Except.pure] using h
        cases n with
        | zero => simp [ha]
        | succ n => simpa using ih hl n

theorem getElem?_toList {α : Type} {o : Option α} {n : Nat} {a : α} :
    o.toList[n]? = some a ↔ n = 0 ∧ o = some a := by
  cases o <;> cases n <;> simp

theorem Store.row_eq_ok {target : String} {id : Int} :
    st.row target id = .ok b ↔
      ∃ record, st.record? target id = some record ∧ b = .row target id record := by
  unfold Store.row
  cases st.record? target id with
  | none => simp
  | some record => simp [eq_comm]

/-- **Children stand in the list of what is reached**, each at its place. -/
theorem Binding.child_iff {bs : List Binding} (h : b.children st relation = .ok bs) (c : Choice) :
    b.Child st relation c ↔ bs[c.place]? = some c.binding := by
  constructor
  · -- the cell of a child says which list was read
    rintro (⟨hk, hc, hr⟩ | ⟨hk, hc, hn, hr⟩ | ⟨hk, hc, hn⟩ | ⟨hk, hc, hn⟩) <;>
      simp only [Binding.children, hk, hc] at h
    · rw [Option.toList_some] at h
      exact (getElem?_mapM_ok h _ _).2 ⟨_, rfl, Store.row_eq_ok.2 ⟨_, hr, rfl⟩⟩
    · exact (getElem?_mapM_ok h _ _).2 ⟨_, hn, Store.row_eq_ok.2 ⟨_, hr, rfl⟩⟩
    · obtain rfl := Except.ok.inj h
      simp [hn]
    · obtain rfl := Except.ok.inj h
      simp [hn]
  · obtain ⟨n, cb⟩ := c
    intro hb
    simp only at hb
    unfold Binding.children at h
    split at h
    · obtain rfl := Except.ok.inj h
      simp at hb
    · split at h
      · cases h
      · obtain rfl := Except.ok.inj h
        simp at hb
      · rename_i hk hc
        obtain ⟨tid, hn, hrow⟩ := (getElem?_mapM_ok h _ _).1 hb
        obtain ⟨trecord, hr, rfl⟩ := Store.row_eq_ok.1 hrow
        obtain ⟨rfl, rfl⟩ := getElem?_toList.1 hn
        exact .reference hk hc hr
      · rename_i hk hc
        obtain ⟨tid, hn, hrow⟩ := (getElem?_mapM_ok h _ _).1 hb
        obtain ⟨trecord, hr, rfl⟩ := Store.row_eq_ok.1 hrow
        exact .collection hk hc hn hr
      · rename_i hk hc
        obtain rfl := Except.ok.inj h
        obtain ⟨v, hn, rfl⟩ : ∃ v, _ ∧ Binding.element v = cb := by simpa using hb
        exact .element hk hc hn
      · rename_i hk hc
        obtain rfl := Except.ok.inj h
        obtain ⟨key, v, hn, rfl⟩ : ∃ key v, _ ∧ Binding.entry key v = cb := by simpa using hb
        exact .entry hk hc hn
      · cases h
    · cases h

/-- A child through a relation is a stored record of the target. -/
theorem Binding.Child.row {c : Choice} {target : String} (h : b.Child st relation c)
    (ht : relation.kind.target? = some target) :
    ∃ id record, c.binding = .row target id record ∧ st.record? target id = some record := by
  cases h with
  | reference hk hc hr =>
    obtain rfl : _ = target := by simpa [hk, Kind.target?] using ht
    exact ⟨_, _, rfl, hr⟩
  | collection hk hc hn hr =>
    obtain rfl : _ = target := by simpa [hk, Kind.target?] using ht
    exact ⟨_, _, rfl, hr⟩
  | element hk hc hn => simp [hk, Kind.target?] at ht
  | entry hk hc hn => simp [hk, Kind.target?] at ht

namespace Query

/-- A child of a binding that fits stands in the list of what is reached. -/
theorem child_iff_reached (hst : st.WellFormed m) (ht : q.Typed m) {s parent : SourceId}
    {src : Source} {kind : JoinKind} (hsrc : q.source? s = some src) (hact : src.active)
    (hk : src.kind = .join parent relation kind) (hb : q.Suits st parent b) (c : Choice) :
    b.Child st relation c ↔ (b.reached st relation)[c.place]? = some c.binding := by
  cases hbs : b.children st relation with
  | ok bs => rw [Binding.child_iff hbs, Binding.reached, hbs]
  | error e => exact ((steady_of_wellFormed hst ht).children hsrc hact hk hb hbs).elim

theorem Assigns.suits (h : q.Assigns st scope σ) (hq : q.Arena) (hpar : q.ParentsActive)
    {s : SourceId} {c : Choice} (hc : σ s = some c) : q.Suits st s c.binding := by
  intro src entity hsrc he
  cases hk : src.kind with
  | root e =>
    obtain rfl : e = entity := by simpa [Source.entity?, hk] using he
    obtain ⟨id, record, hn, hb⟩ := h.root hsrc hk hc
    refine Or.inr ⟨id, record, hb, ?_⟩
    exact OrderedMap.find?_of_mem (List.mem_of_getElem? hn)
  | join parent relation kind =>
    have htarget : relation.kind.target? = some entity := by simpa [Source.entity?, hk] using he
    have hs : s ∈ q.activeIn scope := (h.bound s).1 (by simp [hc])
    have hparent : src.parent? = some parent := Source.parent?_of_join hk
    have hp := (parent_mem_activeIn hq hpar hs hsrc hparent).2
    obtain ⟨pc, hpc⟩ := Option.isSome_iff_exists.1 ((h.bound parent).2 hp)
    rcases h.join hsrc hk hc hpc with hchild | ⟨-, rfl, -⟩
    · exact Or.inr (hchild.row htarget)
    · exact Or.inl rfl

/-! ## Binding the sources one after the other -/

variable (st q env) in
/-- **All ways to bind some sources**, each choice with its place. -/
def placements : List SourceId → Assignment → List Assignment
  | [], σ => [σ]
  | s :: rest, σ => (q.choices st (σ.bindings env) s).zipIdx.flatMap fun (b, n) =>
      placements rest (σ.set s ⟨n, b⟩)

/-- Without the places they are the bindings that a selection goes through. -/
theorem map_bindings_placements (l : List SourceId) (σ : Assignment) :
    (q.placements st env l σ).map (·.bindings env) = q.envs st l (σ.bindings env) := by
  induction l generalizing σ with
  | nil => rfl
  | cons s l ih =>
    simp only [placements, envs, List.map_flatMap, ih, Assignment.bindings_set]
    generalize hbs : q.choices st (σ.bindings env) s = bs
    clear hbs
    have := List.flatMap_map (l := bs.zipIdx) (f := Prod.fst) fun b =>
      q.envs st l ((σ.bindings env).set s b)
    rw [List.zipIdx_map_fst] at this
    exact this.symm

/-- **Binding the sources one after the other finds every assignment**: that is every way to bind
them in which each one is bound to one of its choices, given all the others. -/
theorem mem_placements (hq : q.Arena) {l : List SourceId} (hl : l.Pairwise (· < ·)) :
    σ' ∈ q.placements st env l σ ↔ (∀ s, s ∉ l → σ' s = σ s) ∧
      ∀ s ∈ l, ∃ c, σ' s = some c ∧
        (q.choices st (σ'.bindings env) s)[c.place]? = some c.binding := by
  induction l generalizing σ with
  | nil => simp [placements, funext_iff]
  | cons s l ih =>
    have hnot : s ∉ l := fun h => Nat.lt_irrefl s ((List.pairwise_cons.1 hl).1 s h)
    -- the parent of the first source is not bound later, so its choices are the same at the end
    have first : (∀ t, t ∉ s :: l → σ' t = σ t) →
        q.choices st (σ.bindings env) s = q.choices st (σ'.bindings env) s := fun h =>
      choices_congr fun src parent hsrc hp => by
        simp [Assignment.bindings, h parent (parent_not_mem hq hl hsrc hp)]
    simp only [placements, List.mem_flatMap, Prod.exists, ih (List.pairwise_cons.1 hl).2,
      List.mk_mem_zipIdx_iff_getElem?]
    constructor
    · rintro ⟨b, n, hb, hout, hin⟩
      have hout' : ∀ t, t ∉ s :: l → σ' t = σ t := fun t ht => by
        rw [hout t fun h => ht (List.mem_cons_of_mem _ h),
          Assignment.set_of_ne fun h => ht (by simp [h])]
      refine ⟨hout', List.forall_mem_cons.2 ⟨⟨⟨n, b⟩, ?_, ?_⟩, hin⟩⟩
      · rw [hout s hnot, Assignment.set_self]
      · rw [← first hout', hb]
    · rintro ⟨hout, hin⟩
      obtain ⟨⟨⟨n, b⟩, hc, hb⟩, hin⟩ := List.forall_mem_cons.1 hin
      refine ⟨b, n, by rw [first hout, hb], fun t ht => ?_, hin⟩
      by_cases he : t = s
      · rw [he, hc, Assignment.set_self]
      · rw [Assignment.set_of_ne he, hout t (by simp [he, ht])]

/-- **It finds no assignment twice.** -/
theorem nodup_placements (hq : q.Arena) {l : List SourceId} (hl : l.Pairwise (· < ·)) :
    (q.placements st env l σ).Nodup := by
  induction l generalizing σ with
  | nil => simp [placements]
  | cons s l ih =>
    obtain ⟨hs, hl⟩ := List.pairwise_cons.1 hl
    rw [placements, List.nodup_flatMap]
    refine ⟨fun _ _ => ih hl, ?_⟩
    -- choices at different places bind the first source differently, whatever comes after it
    refine List.Pairwise.imp (R := fun x y => x.2 ≠ y.2) ?_ ?_
    · intro x y hne σ' hx hy
      have hout : s ∉ l := fun h => Nat.lt_irrefl s (hs s h)
      have hx := ((mem_placements hq hl).1 hx).1 s hout
      have hy := ((mem_placements hq hl).1 hy).1 s hout
      rw [Assignment.set_self] at hx hy
      simp_all
    · exact List.pairwise_map.1 (List.nodup_zipIdx_map_snd _)

end Query

end EntityFilter
