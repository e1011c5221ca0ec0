import EntityFilter.Compile
import EntityFilter.Proofs.Compile.Lowered
import EntityFilter.Proofs.Query.Growth
import EntityFilter.Proofs.Store.Shape

/-!
# Joining paths

* `Model.Chained`: relations that lead from one entity to the next.
* `Progress.Joined`, `Progress.joinAll_joined`: what joining a path does to a query. The path
  consists of new joins, but for the first one, which may be a shared one.
* `Progress.Keeps`, `Progress.Clears`: the sources that stay when the others are dropped.
* `Progress.Excludes`, `Progress.excludeRelated_excludes`: the sub-query of a negation.
-/

namespace EntityFilter

/-- **Relations that lead from one entity to the next**, each one declared where it is. -/
inductive Model.Chained (m : Model) : Option String → List Attribute → Prop
  | nil {e : Option String} : Chained m e []
  | cons {e : String} {relation : Attribute} {rest : List Attribute}
      (ha : (m.entity e).attribute? relation.name = some relation)
      (hk : relation.kind.isBasic = false) (h : Chained m relation.kind.target? rest) :
      Chained m (some e) (relation :: rest)

variable {m : Model}

/-- The joins of a path lead from the entity where it starts. -/
theorem Model.chained_route (m : Model) (e : Option String) (path : List String) :
    m.Chained e (m.route e path).joins := by
  induction path generalizing e with
  | nil => cases e <;> exact .nil
  | cons segment rest ih =>
    cases e with
    | none => exact .nil
    | some e =>
      have declared : ∀ {a}, (m.entity e).attribute? segment = some a →
          (m.entity e).attribute? a.name = some a := fun ha => by
        rw [Entity.name_of_attribute? ha, ha]
      unfold route
      split
      · exact .nil
      · split
        · exact .nil
        · exact .cons (declared ‹_›) (Bool.eq_false_iff.2 ‹_›) .nil
      · split
        · exact .nil
        · exact .cons (declared ‹_›) (Bool.eq_false_iff.2 ‹_›) (ih _)

theorem Schema.chained_plan (m : Model) (s : Schema) (c : Comparison) :
    m.Chained (some s.entity) (s.plan m c).1 := by
  unfold plan
  split
  · exact .nil
  · exact m.chained_route _ _

namespace Query

variable {q q' : Query} {s t parent : SourceId} {src : Source} {scope : Scope}

/-- A join of the outer root that may be shared under a name. -/
def SharedAs (m : Model) (q : Query) (e : String × SourceId) : Prop :=
  ∃ src relation, q.source? e.2 = some src ∧ src.scope = .outer ∧
    src.kind = .join root relation .left ∧
    (m.entity q.entity).attribute? e.1 = some relation

theorem Grows.sharedAs (h : q.Grows q') {e : String × SourceId} (he : q.SharedAs m e) :
    q'.SharedAs m e := by
  obtain ⟨src, relation, hsrc, hsc, hk, ha⟩ := he
  obtain ⟨src', hsrc', hk', hsc', -⟩ := h.kept hsrc
  exact ⟨src', relation, hsrc', hsc'.trans hsc, hk'.trans hk, by rw [h.entity, ha]⟩

theorem mem_activeIn_join {relation : Attribute} {kind : JoinKind} (hs : s ∈ q.activeIn scope) :
    s ∈ (q.join parent relation kind).activeIn scope := by
  obtain ⟨src, hsrc, h⟩ := mem_activeIn.1 hs
  refine mem_activeIn.2 ⟨src, ?_, h⟩
  rw [source?_join, if_neg (Nat.ne_of_lt (source?_lt hsrc)), hsrc]

theorem Typed.join (ht : q.Typed m) (hs : q.source? parent = some src) {e : String}
    (he : src.entity? = some e) {relation : Attribute}
    (ha : (m.entity e).attribute? relation.name = some relation)
    (hk : relation.kind.isBasic = false) (kind : JoinKind) :
    (q.join parent relation kind).Typed m := by
  intro s src' par rel k hsrc hact hkind
  have old : ∀ {t tsrc}, q.source? t = some tsrc →
      (q.join parent relation kind).source? t = some tsrc := by
    intro t tsrc h
    rw [source?_join, if_neg (Nat.ne_of_lt (source?_lt h)), h]
  rw [source?_join] at hsrc
  split at hsrc
  · obtain rfl := Option.some.inj hsrc
    obtain ⟨rfl, rfl, rfl⟩ := SourceKind.join.inj hkind
    exact ⟨src, e, old hs, he, ha, hk⟩
  · obtain ⟨psrc, entity, hps, h⟩ := ht hsrc hact hkind
    exact ⟨psrc, entity, old hps, h⟩

/-- A query stays typed when no join is added to it. -/
theorem Typed.of_grows (ht : q.Typed m) (hg : q.Grows q')
    (hback : ∀ {s src' parent relation kind}, q'.source? s = some src' → src'.active →
      src'.kind = .join parent relation kind →
      ∃ src, q.source? s = some src ∧ src.active ∧ src.kind = src'.kind) : q'.Typed m := by
  intro s src' parent relation kind h hact hk
  obtain ⟨src, hsrc, ha, hk'⟩ := hback h hact hk
  obtain ⟨psrc, entity, hps, he, hrest⟩ := ht hsrc ha (hk'.trans hk)
  obtain ⟨psrc', hps', hpk, -⟩ := hg.kept hps
  exact ⟨psrc', entity, hps', by rw [← he, Source.entity?, Source.entity?, hpk], hrest⟩

theorem Typed.openSubquery (ht : q.Typed m) (entity : String) :
    (q.openSubquery entity).Typed m := by
  refine ht.of_grows (.openSubquery q entity) fun {s src'} _ _ _ h hact hk => ?_
  rw [source?_openSubquery] at h
  split at h
  · obtain rfl := Option.some.inj h
    cases hk
  · exact ⟨src', h, hact, rfl⟩

theorem Typed.markReferenced (ht : q.Typed m) (s : SourceId) : (q.markReferenced s).Typed m := by
  refine ht.of_grows (.markReferenced q s) fun h hact _ => ?_
  rw [source?_markReferenced] at h
  obtain ⟨src, hsrc, rfl⟩ := Option.map_eq_some_iff.1 h
  refine ⟨src, hsrc, ?_⟩
  split at hact <;> split <;> exact ⟨hact, rfl⟩

theorem Typed.markAll (ht : q.Typed m) (ss : List SourceId) : (q.markAll ss).Typed m := by
  induction ss generalizing q with
  | nil => exact ht
  | cons s ss ih => exact ih (ht.markReferenced s)

theorem Typed.discardUnused (ht : q.Typed m) : q.discardUnused.Typed m := by
  refine ht.of_grows (.discardUnused q) fun h hact _ => ?_
  rw [source?_discardUnused] at h
  obtain ⟨src, hsrc, rfl⟩ := Option.map_eq_some_iff.1 h
  refine ⟨src, hsrc, ?_⟩
  split at hact
  · cases hact
  · exact ⟨hact, by rw [if_neg ‹_›]⟩

theorem mem_activeIn_openSubquery {entity : String} (hs : s ∈ q.activeIn scope) :
    s ∈ (q.openSubquery entity).activeIn scope := by
  obtain ⟨src, hsrc, h⟩ := mem_activeIn.1 hs
  refine mem_activeIn.2 ⟨src, ?_, h⟩
  rw [source?_openSubquery, if_neg (Nat.ne_of_lt (source?_lt hsrc)), hsrc]

/-- An active join of the outer selection that is not dropped is marked. -/
theorem marked_of_used (hs : s ∈ q.activeIn .outer) (hsrc : q.source? s = some src)
    (hp : src.parent? = some parent) (hused : s ∉ q.unusedJoins) : q.Marked s := by
  obtain ⟨hsc, -⟩ := (mem_activeIn_iff hsrc).1 hs
  refine ⟨src, hsrc, hsc, ?_⟩
  cases hr : src.referenced with
  | true => rfl
  | false =>
    refine absurd ((mem_unusedJoins_iff hsrc).2 ?_) hused
    simp [Source.isUnused, hsc, hp, hr]

end Query

namespace Progress

open Query

variable {p p' : Progress} {s start last : SourceId} {src : Source} {scope : Scope}
  {joins : List Attribute}

/-- The joins that are shared. -/
def entries (p : Progress) : List (String × SourceId) := p.reuse.getD []

/-- Joins that are dropped are shared no longer. -/
theorem mem_entries_discardUnused {e : String × SourceId} :
    e ∈ p.discardUnused.entries ↔ e ∈ p.entries ∧ e.2 ∉ p.query.unusedJoins := by
  cases hr : p.reuse <;> simp [entries, discardUnused, hr]

/-- **What joining an attribute comes to**: a new join, or one that is shared. -/
theorem join_cases {relation : Attribute} (h : p.join start relation = (s, p')) :
    s = p.query.nextSource ∧ p'.query = p.query.join start relation .left ∧
      p'.joinsNeeded = p.joinsNeeded ∧ (p.reuse = none → p'.reuse = none) ∧
      (p'.entries = p.entries ∨ start = root ∧ p'.entries = (relation.name, s) :: p.entries) ∨
    p' = p ∧ start = root ∧ (relation.name, s) ∈ p.entries := by
  unfold join at h
  dsimp only at h
  split at h
  · obtain ⟨rfl, rfl⟩ := Prod.mk.inj h
    exact Or.inl ⟨rfl, rfl, rfl, id, Or.inl rfl⟩
  · rename_i shared hshared
    split at hshared
    · rename_i hroot
      split at h
      · rename_i s' hs'
        obtain ⟨rfl, rfl⟩ := Prod.mk.inj h
        refine Or.inr ⟨rfl, by simpa using hroot, ?_⟩
        rw [entries, hshared]
        obtain ⟨before, after, rfl, -⟩ := List.lookup_eq_some_iff.1 hs'
        exact List.mem_append_right before List.mem_cons_self
      · obtain ⟨rfl, rfl⟩ := Prod.mk.inj h
        exact Or.inl ⟨rfl, rfl, rfl, by simp [hshared],
          Or.inr ⟨by simpa using hroot, by simp [entries, hshared]⟩⟩
    · cases hshared

/-- **A path is joined.** -/
structure Joined (m : Model) (p : Progress) (start : SourceId) (joins : List Attribute)
    (scope : Scope) (last : SourceId) (p' : Progress) : Prop where
  grows : p.query.Grows p'.query
  sound : p'.query.Sound
  needed : p'.joinsNeeded = p.joinsNeeded
  unshared : p.reuse = none → p'.reuse = none
  typed : p.query.Typed m → p'.query.Typed m
  path : p'.query.Path start joins last
  reached : last ∈ p'.query.activeIn scope
  /-- Nothing is dropped. -/
  active : ∀ {scope s}, s ∈ p.query.activeIn scope → s ∈ p'.query.activeIn scope
  /-- The path goes through shared joins and new ones. -/
  lineage : ∀ t ∈ p'.query.lineage last, t ∈ p.query.lineage start ∨
    (∃ name, (name, t) ∈ p.entries) ∨ p.query.nextSource ≤ t
  /-- What is shared in addition is a new join on the path. -/
  entries : ∀ e ∈ p'.entries, e ∈ p.entries ∨
    start = root ∧ p.query.nextSource ≤ e.2 ∧ e.2 ∈ p'.query.lineage last ∧
      e.2 ∈ p'.query.activeIn .outer ∧ p'.query.SharedAs m e

theorem Joined.refl (hq : p.query.Sound) (hs : start ∈ p.query.activeIn scope) :
    Joined m p start [] scope start p where
  grows := .refl _
  sound := hq
  needed := rfl
  unshared := id
  typed := id
  path := .nil
  reached := hs
  active := id
  lineage := fun _ ht => Or.inl ht
  entries := fun _ he => Or.inl he

/-- Shared joins stay such when a path is joined. -/
theorem Joined.shared (h : Joined m p start joins scope last p')
    (hp : ∀ e ∈ p.entries, p.query.SharedAs m e ∧ e.2 ∈ p.query.activeIn .outer) :
    ∀ e ∈ p'.entries, p'.query.SharedAs m e ∧ e.2 ∈ p'.query.activeIn .outer := by
  intro e he
  rcases h.entries e he with he | ⟨-, -, -, hact, hsh⟩
  · exact ⟨h.grows.sharedAs (hp e he).1, h.active (hp e he).2⟩
  · exact ⟨hsh, hact⟩

/-- A path may be joined one join after the other. -/
theorem Joined.cons {relation : Attribute} {rest : List Attribute} {p₁ : Progress}
    (h : Joined m p start [relation] scope s p₁) (hr : Joined m p₁ s rest scope last p') :
    Joined m p start (relation :: rest) scope last p' := by
  obtain ⟨ssrc, hssrc, hk⟩ : ∃ ssrc, p₁.query.source? s = some ssrc ∧
      ssrc.kind = .join start relation .left := by
    cases h.path with
    | cons hs hk hnil =>
      cases hnil
      exact ⟨_, hs, hk⟩
  -- only joins of the root are shared in addition, and the rest of the path is below one
  have notRoot : s ≠ root := by
    rintro rfl
    exact Nat.not_lt_zero _ (h.sound.parent hssrc (Source.parent?_of_join hk)).1
  obtain ⟨ssrc', hssrc', hk', -⟩ := hr.grows.kept hssrc
  exact {
    grows := h.grows.trans hr.grows
    sound := hr.sound
    needed := hr.needed.trans h.needed
    unshared := hr.unshared ∘ h.unshared
    typed := hr.typed ∘ h.typed
    path := .cons hssrc' (hk'.trans hk) hr.path
    reached := hr.reached
    active := hr.active ∘ h.active
    lineage := by
      intro t ht
      rcases hr.lineage t ht with ht | ⟨name, he⟩ | hle
      · exact h.lineage t ht
      · rcases h.entries _ he with he | ⟨-, hle, -⟩
        · exact Or.inr (Or.inl ⟨name, he⟩)
        · exact Or.inr (Or.inr hle)
      · exact Or.inr (Or.inr (Nat.le_trans h.grows.nextSource_le hle))
    entries := by
      intro e he
      rcases hr.entries e he with he | ⟨hroot, -⟩
      · rcases h.entries e he with he | ⟨hroot, hle, hlin, hact, hsh⟩
        · exact Or.inl he
        · have hlin : e.2 ∈ p'.query.lineage s := by
            rwa [hr.grows.lineage h.sound.toArena (source?_lt hssrc)]
          exact Or.inr ⟨hroot, hle, hr.path.lineage hr.sound.toArena hlin, hr.active hact,
            hr.grows.sharedAs hsh⟩
      · exact absurd hroot notRoot }

/-- The root stands for records of the entity of the query, in the outer selection. -/
theorem root_source {e : String} (hq : p.query.Sound) (hs : p.query.source? root = some src)
    (he : src.entity? = some e) (hscope : src.scope = scope) :
    e = p.query.entity ∧ scope = .outer := by
  obtain ⟨r, hr⟩ := hq.root
  obtain rfl := Option.some.inj (hs.symm.trans hr)
  exact ⟨(Option.some.inj he).symm, hscope.symm⟩

/-- A new join below a source that is not dropped. -/
theorem joined_new {relation : Attribute} {e : String} (hq : p.query.Sound)
    (hs : p.query.source? start = some src) (hact : start ∈ p.query.activeIn scope)
    (he : src.entity? = some e) (ha : (m.entity e).attribute? relation.name = some relation)
    (hk : relation.kind.isBasic = false)
    (hquery : p'.query = p.query.join start relation .left)
    (hneeded : p'.joinsNeeded = p.joinsNeeded) (hunshared : p.reuse = none → p'.reuse = none)
    (hentries : p'.entries = p.entries ∨
      start = root ∧ p'.entries = (relation.name, p.query.nextSource) :: p.entries) :
    Joined m p start [relation] scope p.query.nextSource p' := by
  obtain ⟨hscope, hactive⟩ := (mem_activeIn_iff hs).1 hact
  have hnew : p'.query.source? p.query.nextSource =
      some ⟨.join start relation .left, src.scope, true, false⟩ := by
    rw [hquery, source?_join, if_pos rfl, scopeOf_eq hs]
  have hsound : p'.query.Sound := hquery ▸ hq.join hs hactive relation
  have hgrows : p.query.Grows p'.query := hquery ▸ .join p.query start relation .left
  have hreached : p.query.nextSource ∈ p'.query.activeIn scope :=
    mem_activeIn.2 ⟨_, hnew, hscope, rfl⟩
  have hlineage : ∀ t, t ∈ p'.query.lineage p.query.nextSource ↔
      t = p.query.nextSource ∨ t ∈ p.query.lineage start := by
    intro t
    rw [mem_lineage_iff hsound.toArena hnew rfl, hgrows.lineage hq.toArena (source?_lt hs)]
  exact {
    grows := hgrows
    sound := hsound
    needed := hneeded
    unshared := hunshared
    typed := fun ht => hquery ▸ ht.join hs he ha hk .left
    path := .cons hnew rfl .nil
    reached := hreached
    active := fun hs => hquery ▸ mem_activeIn_join hs
    lineage := by
      intro t ht
      rcases (hlineage t).1 ht with rfl | ht
      · exact Or.inr (Or.inr (Nat.le_refl _))
      · exact Or.inl ht
    entries := by
      intro entry hentry
      rcases hentries with heq | ⟨rfl, heq⟩
      · exact Or.inl (heq ▸ hentry)
      · rw [heq] at hentry
        rcases List.mem_cons.1 hentry with rfl | hentry
        · obtain ⟨rfl, rfl⟩ := root_source hq hs he hscope
          refine Or.inr ⟨rfl, Nat.le_refl _, self_mem_lineage _ _, hreached, ?_⟩
          exact ⟨_, relation, hnew, hscope, rfl, by rw [hgrows.entity]; exact ha⟩
        · exact Or.inl hentry }

/-- A shared join is taken for a new one. -/
theorem joined_shared {relation : Attribute} (hq : p.query.Sound)
    (ha : (m.entity p.query.entity).attribute? relation.name = some relation)
    (hshared : p.query.SharedAs m (relation.name, s)) (hact : s ∈ p.query.activeIn .outer)
    (hmem : (relation.name, s) ∈ p.entries) : Joined m p root [relation] .outer s p := by
  obtain ⟨src, relation', hsrc, -, hk, ha'⟩ := hshared
  obtain rfl : relation' = relation := Option.some.inj (ha'.symm.trans ha)
  exact {
    grows := .refl _
    sound := hq
    needed := rfl
    unshared := id
    typed := id
    path := .cons hsrc hk .nil
    reached := hact
    active := id
    lineage := by
      intro t ht
      rcases (mem_lineage_iff hq.toArena hsrc (Source.parent?_of_join hk)).1 ht with rfl | ht
      · exact Or.inr (Or.inl ⟨_, hmem⟩)
      · exact Or.inl ht
    entries := fun _ he => Or.inl he }

/-- **Joining one attribute.** -/
theorem join_joined {relation : Attribute} {e : String} (hq : p.query.Sound)
    (hs : p.query.source? start = some src) (hact : start ∈ p.query.activeIn scope)
    (he : src.entity? = some e) (ha : (m.entity e).attribute? relation.name = some relation)
    (hk : relation.kind.isBasic = false)
    (hshared : ∀ e ∈ p.entries, p.query.SharedAs m e ∧ e.2 ∈ p.query.activeIn .outer)
    (h : p.join start relation = (s, p')) : Joined m p start [relation] scope s p' := by
  rcases join_cases h with ⟨rfl, hquery, hneeded, hunshared, hentries⟩ | ⟨rfl, rfl, hmem⟩
  · exact joined_new hq hs hact he ha hk hquery hneeded hunshared hentries
  · obtain ⟨hscope, -⟩ := (mem_activeIn_iff hs).1 hact
    obtain ⟨rfl, rfl⟩ := root_source hq hs he hscope
    obtain ⟨hsh, hsact⟩ := hshared _ hmem
    exact joined_shared hq ha hsh hsact hmem

/-- **Joining a path below a source that is not dropped.** -/
theorem joinAll_joined (hq : p.query.Sound) (hs : p.query.source? start = some src)
    (hact : start ∈ p.query.activeIn scope) (hch : m.Chained src.entity? joins)
    (hshared : ∀ e ∈ p.entries, p.query.SharedAs m e ∧ e.2 ∈ p.query.activeIn .outer)
    (h : joinAll start joins p = (last, p')) : Joined m p start joins scope last p' := by
  induction joins generalizing p start src with
  | nil =>
    obtain ⟨rfl, rfl⟩ := Prod.mk.inj h
    exact .refl hq hact
  | cons relation rest ih =>
    obtain ⟨s, p₁, hjoin⟩ : ∃ s p₁, p.join start relation = (s, p₁) := ⟨_, _, rfl⟩
    rw [joinAll, hjoin] at h
    generalize he : src.entity? = e at hch
    cases hch with
    | cons ha hk hrest =>
      have hj := join_joined hq hs hact he ha hk hshared hjoin
      refine hj.cons ?_
      cases hj.path with
      | cons hs₁ hk₁ hnil =>
        cases hnil
        exact ih hj.sound hs₁ hj.reached (by simpa [Source.entity?, hk₁] using hrest)
          (hj.shared hshared) h

/-! ## Sub-queries -/

/-- **A source that stays whatever comes**: it is marked, or nothing is dropped any more. -/
def Keeps (p : Progress) (s : SourceId) : Prop :=
  s ∈ p.query.activeIn .outer ∧ (p.query.Marked s ∨ p.joinsNeeded)

/-- The state in which the sub-query of a negation is opened. -/
def cleared (p : Progress) : Progress :=
  if p.joinsNeeded then p else p.discardUnused

/-- What nothing reads is dropped, unless nothing is dropped any more. -/
structure Clears (m : Model) (p p' : Progress) : Prop where
  grows : p.query.Grows p'.query
  sound : p'.query.Sound
  needed : p'.joinsNeeded = p.joinsNeeded
  unshared : p.reuse = none → p'.reuse = none
  typed : p.query.Typed m → p'.query.Typed m
  keeps : ∀ {s}, p.Keeps s → p'.Keeps s
  entries : ∀ e ∈ p'.entries, e ∈ p.entries ∧ p'.Keeps e.2
  nextSource : p'.query.nextSource = p.query.nextSource
  nextSubquery : p'.query.nextSubquery = p.query.nextSubquery

theorem cleared_clears (hq : p.query.Sound)
    (hshared : ∀ e ∈ p.entries, p.query.SharedAs m e ∧ e.2 ∈ p.query.activeIn .outer) :
    Clears m p p.cleared := by
  unfold cleared
  split
  · rename_i hneeded
    exact {
      grows := .refl _
      sound := hq
      needed := rfl
      unshared := id
      typed := id
      keeps := id
      entries := fun e he => ⟨he, (hshared e he).2, Or.inr hneeded⟩
      nextSource := rfl
      nextSubquery := rfl }
  · rename_i hneeded
    -- what is marked stays when the rest is dropped
    have marked : ∀ {s}, p.query.Marked s → p.discardUnused.Keeps s := fun hs =>
      have hm := (Grows.discardUnused p.query).marked hs
      ⟨hm.active hq.discardUnused, Or.inl hm⟩
    exact {
      grows := .discardUnused _
      sound := hq.discardUnused
      needed := rfl
      unshared := fun h => by simp [discardUnused, h]
      typed := .discardUnused
      keeps := fun ⟨_, h⟩ => marked (h.resolve_right hneeded)
      entries := by
        intro e he
        obtain ⟨he, hused⟩ := mem_entries_discardUnused.1 he
        obtain ⟨⟨src, relation, hsrc, -, hk, -⟩, hact⟩ := hshared e he
        have hmark := marked_of_used hact hsrc (Source.parent?_of_join hk) hused
        exact ⟨he, marked hmark⟩
      nextSource := by simp [discardUnused, Query.discardUnused, Query.nextSource]
      nextSubquery := rfl }

/-- **A sub-query that must have no row is added.** -/
structure Excludes (m : Model) (p : Progress) (s : Settings) (c : Clause) (joins : List Attribute)
    (d : Demand) (predicate : Predicate) (p' : Progress) : Prop where
  predicate : predicate = .not (.hasRow p.query.nextSubquery)
  grows : p.query.Grows p'.query
  sound : p'.query.Sound
  needed : p'.joinsNeeded = p.joinsNeeded
  unshared : p.reuse = none → p'.reuse = none
  typed : p.query.Typed m → p'.query.Typed m
  keeps : ∀ {s}, p.Keeps s → p'.Keeps s
  entries : ∀ e ∈ p'.entries, e ∈ p.entries ∧ p'.Keeps e.2
  opened : p.query.nextSubquery < p'.query.nextSubquery
  /-- The root of the sub-query stands for records of the same entity. -/
  subRoot : ∃ src, p'.query.source? p.query.nextSource = some src ∧
    src.kind = .root p.query.entity ∧ src.scope = .subquery p.query.nextSubquery
  /-- The path is walked again, and its end is asked to satisfy the demand. -/
  restriction : ∃ last, p'.query.Path p.query.nextSource joins last ∧
    last ∈ p'.query.activeIn (.subquery p.query.nextSubquery) ∧
    p'.query.restriction p.query.nextSubquery = c.exclusion s d p.query.nextSource last

/-- What is dropped before makes no difference to the sub-query. -/
theorem Clears.excludes {p₁ : Progress} {s : Settings} {c : Clause} {d : Demand}
    {predicate : Predicate} (hc : Clears m p p₁) (h : Excludes m p₁ s c joins d predicate p') :
    Excludes m p s c joins d predicate p' where
  predicate := hc.nextSubquery ▸ h.predicate
  grows := hc.grows.trans h.grows
  sound := h.sound
  needed := h.needed.trans hc.needed
  unshared := h.unshared ∘ hc.unshared
  typed := h.typed ∘ hc.typed
  keeps := h.keeps ∘ hc.keeps
  entries := by
    intro e he
    obtain ⟨hmem, hkeep⟩ := h.entries e he
    exact ⟨(hc.entries e hmem).1, hkeep⟩
  opened := hc.nextSubquery ▸ h.opened
  subRoot := by
    have hroot := h.subRoot
    rwa [hc.nextSource, hc.nextSubquery, hc.grows.entity] at hroot
  restriction := by
    have hrestr := h.restriction
    rwa [hc.nextSource, hc.nextSubquery] at hrestr

/-- The state in which the path is walked again. -/
def opened (p : Progress) : Progress :=
  { p with query := p.query.openSubquery p.query.entity }

/-- **A sub-query is opened, the path is walked again** and its end is asked to satisfy the
demand. -/
theorem opened_excludes {s : Settings} {c : Clause} {d : Demand} {p₁ : Progress}
    (hq : p.query.Sound) (hch : m.Chained (some p.query.entity) joins)
    (hshared : ∀ e ∈ p.entries, p.query.SharedAs m e ∧ p.Keeps e.2)
    (h : joinAll p.query.nextSource joins p.opened = (last, p₁)) :
    Excludes m p s c joins d (.not (.hasRow p.query.nextSubquery)) { p₁ with
      query := p₁.query.restrict p.query.nextSubquery
        (c.exclusion s d p.query.nextSource last) } := by
  have hopen : p.query.Grows p.opened.query := .openSubquery p.query p.query.entity
  have hactive : ∀ {scope t}, t ∈ p.query.activeIn scope → t ∈ p.opened.query.activeIn scope :=
    mem_activeIn_openSubquery
  have hnew : p.opened.query.source? p.query.nextSource =
      some ⟨.root p.query.entity, .subquery p.query.nextSubquery, true, true⟩ := by
    rw [opened, source?_openSubquery, if_pos rfl]
  have hroot : p.query.nextSource ∈ p.opened.query.activeIn (.subquery p.query.nextSubquery) :=
    mem_activeIn.2 ⟨_, hnew, rfl, rfl⟩
  have hj : Joined m p.opened p.query.nextSource joins (.subquery p.query.nextSubquery) last p₁ :=
    joinAll_joined (hq.openSubquery _) hnew hroot hch
      (fun e he => ⟨hopen.sharedAs (hshared e he).1, hactive (hshared e he).2.1⟩) h
  have hlater : p.query.nextSubquery < p₁.query.nextSubquery := by
    refine Nat.lt_of_lt_of_le ?_ hj.grows.subqueries
    rw [opened, nextSubquery_openSubquery]
    exact Nat.lt_succ_self _
  have keeps : ∀ {t}, p.Keeps t → p₁.Keeps t := by
    rintro t ⟨hact, hmark⟩
    exact ⟨hj.active (hactive hact), hmark.imp (hopen.trans hj.grows).marked hj.needed.trans⟩
  exact {
    predicate := rfl
    grows := (hopen.trans hj.grows).restrict (Nat.le_refl _) _
    sound := by
      refine hj.sound.restrict (fun t ht => ?_) (Clause.subqueries_exclusion (c := c))
      refine (Clause.reads_exclusion (c := c) ht).imp id ?_
      rintro (rfl | rfl)
      · exact hj.active hroot
      · exact hj.reached
    needed := hj.needed
    unshared := hj.unshared
    typed := fun ht => hj.typed (ht.openSubquery _)
    keeps := keeps
    entries := by
      intro e he
      rcases hj.entries e he with he | ⟨hzero, -⟩
      · exact ⟨he, keeps (hshared e he).2⟩
      · -- the root of the sub-query is not the root of the outer selection
        obtain ⟨r, hr⟩ := hq.root
        exact absurd (source?_lt hr) (hzero ▸ Nat.lt_irrefl _)
    opened := by simpa using hlater
    subRoot := by
      obtain ⟨src, hsrc, hk, hsc, -⟩ := hj.grows.kept hnew
      exact ⟨src, hsrc, hk, hsc⟩
    restriction := ⟨last, hj.path.of_kept fun hs => ⟨_, hs, rfl⟩, hj.reached,
      restriction_restrict hlater _⟩ }

theorem excludeRelated_excludes {s : Settings} {c : Clause} {d : Demand} {predicate : Predicate}
    (hq : p.query.Sound) (hch : m.Chained (some p.query.entity) joins)
    (hshared : ∀ e ∈ p.entries, p.query.SharedAs m e ∧ e.2 ∈ p.query.activeIn .outer)
    (h : p.excludeRelated s c joins d = (predicate, p')) :
    Excludes m p s c joins d predicate p' := by
  have hclear := cleared_clears hq hshared
  obtain ⟨last, p₁, hjoin⟩ :
      ∃ last p₁, joinAll p.cleared.query.nextSource joins p.cleared.opened = (last, p₁) :=
    ⟨_, _, rfl⟩
  have hcleared : ∀ e ∈ p.cleared.entries,
      p.cleared.query.SharedAs m e ∧ p.cleared.Keeps e.2 := by
    intro e he
    obtain ⟨hmem, hkeeps⟩ := hclear.entries e he
    exact ⟨hclear.grows.sharedAs (hshared e hmem).1, hkeeps⟩
  rw [← hclear.grows.entity] at hch
  simp only [excludeRelated, ← cleared.eq_1, ← opened.eq_1, hjoin] at h
  obtain ⟨rfl, rfl⟩ := Prod.mk.inj h
  exact hclear.excludes (opened_excludes hclear.sound hch hcleared hjoin)

end Progress

end EntityFilter
