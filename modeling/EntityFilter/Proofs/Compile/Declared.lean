import EntityFilter.Proofs.Compile.Joins
import EntityFilter.Schema.Registration

/-!
# Declared attributes

A schema declares attributes of entities: by the store paths of its fields, and by what its fields
name at the ends of these. A comparison reads what its path names, and something at its end.

* `Model.steps`, `Model.destination`: what a path names, and what it reaches.
* `Schema.Declares`: what a schema declares.
* `Field.check_ok`: what a check of a field makes sure of.
* `Schema.register_entries`: what registration makes sure of for maps that are kept as entities.
* `Schema.declares_of_short`: a selector with at most one name below its field names what is
  declared.
* `Schema.declares_of_plan`: a comparison whose path names what is declared reads nothing else.
-/

namespace EntityFilter

namespace Model

variable (m : Model)

/-- **The attributes that a path names**, each with the entity that it is looked up in. -/
def steps : Option String → List String → List (String × String)
  | some e, segment :: rest =>
    (e, segment) :: steps (((m.entity e).attribute? segment).bind fun a => a.kind.target?) rest
  | _, _ => []

/-- The entity that a path reaches. -/
def destination : Option String → List String → Option String
  | o, [] => o
  | none, _ :: _ => none
  | some e, segment :: rest =>
    destination (((m.entity e).attribute? segment).bind fun a => a.kind.target?) rest

end Model

/-- **What a checked field declares**, as attributes of entities: those on its store path, those
that may be named below the entity that the path reaches, those of key and value where it is a map
that is kept as entities, and the one that ties a negation to its row. -/
inductive SchemaEntry.Declares (m : Model) (root : String) (entry : SchemaEntry) :
    String → String → Prop
  | path {e a : String} (h : (e, a) ∈ m.steps (some root) entry.segments) :
      Declares m root entry e a
  | sub {e a : String} (h : m.destination (some root) entry.segments = some e)
      (ha : a ∈ entry.field.subs) : Declares m root entry e a
  | key {e : String} {attributes : EntryAttributes}
      (h : m.destination (some root) entry.segments = some e)
      (hs : entry.shape = some (.entries attributes)) : Declares m root entry e attributes.key
  | value {e : String} {attributes : EntryAttributes}
      (h : m.destination (some root) entry.segments = some e)
      (hs : entry.shape = some (.entries attributes)) : Declares m root entry e attributes.value
  | identifier : Declares m root entry root entry.field.identifier

/-- A field that is no map declares what its path names, what may be named below it, and what ties a
negation to its row. -/
theorem SchemaEntry.declares_iff {m : Model} {root e a : String} {entry : SchemaEntry}
    (hs : entry.shape = none) : entry.Declares m root e a ↔
      (e, a) ∈ m.steps (some root) entry.segments ∨
      (m.destination (some root) entry.segments = some e ∧ a ∈ entry.field.subs) ∨
      (e, a) = (root, entry.field.identifier) := by
  constructor
  · rintro (h | ⟨h, ha⟩ | ⟨-, h⟩ | ⟨-, h⟩ | _)
    · exact Or.inl h
    · exact Or.inr (Or.inl ⟨h, ha⟩)
    · exact nomatch hs.symm.trans h
    · exact nomatch hs.symm.trans h
    · exact Or.inr (Or.inr rfl)
  · rintro (h | ⟨h, ha⟩ | h)
    · exact .path h
    · exact .sub h ha
    · obtain ⟨rfl, rfl⟩ := Prod.mk.inj h
      exact .identifier

/-- **What a schema declares**: what one of its fields does. -/
def Schema.Declares (m : Model) (s : Schema) (e a : String) : Prop :=
  ∃ entry ∈ s.entries, entry.Declares m s.entity e a

/-! ## Registration -/

/-- A computation succeeds if its steps do. -/
theorem bind_eq_ok {ε α β : Type} {x : Except ε α} {f : α → Except ε β} {b : β} :
    (x >>= f) = .ok b ↔ ∃ a, x = .ok a ∧ f a = .ok b := by
  cases x <;> simp [bind, Except.bind]

section Registration

variable {m : Model} {f : Field} {fields : List Field} {s s' : Schema} {entry : SchemaEntry}
  {owner root : Entity} {terminal : Attribute} {path : List String} {e : String}

theorem Model.destination_of_follow (h : m.follow (m.entity e) path = .ok (owner, terminal)) :
    m.destination (some e) path = terminal.kind.target? := by
  induction path generalizing e with
  | nil => cases h
  | cons segment rest ih =>
    cases rest with
    | nil =>
      rw [follow] at h
      cases ha : (m.entity e).attribute? segment with
      | none => simp [ha] at h
      | some a =>
        simp only [ha, Except.ok.injEq, Prod.mk.injEq] at h
        simp [destination, ha, h.2]
    | cons segment' rest =>
      rw [follow] at h
      · rw [destination]
        cases ht : ((m.entity e).attribute? segment).bind fun a => a.kind.target? with
        | none => simp [ht] at h
        | some target =>
          rw [ht] at h
          exact ih h
      · simp

/-- The attributes of key and value are looked up in the entity that is reached. -/
theorem Field.target_of_checkMap {attributes : EntryAttributes}
    (h : f.checkMap m terminal = .ok (.entries attributes)) :
    ∃ target, terminal.kind.target? = some target := by
  unfold checkMap at h
  split at h
  · cases h
  · exact ⟨_, ‹_›⟩
  · cases h

/-- **What a check of a field makes sure of**: the path ends at an attribute of an entity, where the
names below it are declared, and a map has the shape that is found there. -/
structure Field.Passes (m : Model) (root : Entity) (f : Field) (entry : SchemaEntry)
    (owner : Entity) (terminal : Attribute) : Prop where
  field : entry.field = f
  subs : f.isMap = true → f.subs = []
  identifier : root.declares f.identifier = true
  path : m.follow root entry.segments = .ok (owner, terminal)
  below : f.checkSubs m owner terminal = .ok ()
  map : f.isMap = true → ∃ shape, f.checkMap m terminal = .ok shape ∧ entry.shape = some shape
  plain : f.isMap = false → entry.shape = none

/-- A check that succeeds comes to an entry that passes. -/
theorem Field.check_ok (h : f.check m root = .ok entry) :
    ∃ owner terminal, f.Passes m root entry owner terminal := by
  cases hguard : f.isMap && !f.subs.isEmpty with
  | true => simp [check, hguard, bind, Except.bind, throw, throwThe, MonadExceptOf.throw] at h
  | false =>
    cases hid : root.declares f.identifier with
    | false =>
      simp [check, hguard, hid, bind, Except.bind, throw, throwThe, MonadExceptOf.throw] at h
    | true =>
      have hsubs : f.isMap = true → f.subs = [] := fun hmap => by simpa [hmap] using hguard
      simp only [check, hguard, hid, Bool.not_true, Bool.false_eq_true, if_false] at h
      cases hfollow : m.follow root (Text.segments f.path) with
      | error owner =>
        rw [hfollow] at h
        cases h
      | ok reached =>
        simp only [hfollow] at h
        obtain ⟨⟨⟩, hbelow, h⟩ := bind_eq_ok.1 h
        cases hmap : f.isMap with
        | false =>
          rw [hmap] at h
          obtain rfl := Except.ok.inj h
          exact ⟨_, _, rfl, hsubs, hid, hfollow, hbelow,
            fun hm => absurd (hmap.symm.trans hm) nofun, fun _ => rfl⟩
        | true =>
          rw [hmap] at h
          obtain ⟨shape, hshape, h⟩ := bind_eq_ok.1 h
          obtain rfl := Except.ok.inj h
          cases hcheck : f.checkMap m reached.2 with
          | error e =>
            rw [hcheck] at hshape
            cases hshape
          | ok found =>
            rw [hcheck] at hshape
            exact ⟨_, _, rfl, hsubs, hid, hfollow, hbelow,
              fun _ => ⟨found, hcheck, (Except.ok.inj hshape).symm⟩,
              fun hm => absurd (hmap.symm.trans hm) nofun⟩

/-- A map that is kept as entities has a path that reaches an entity. -/
theorem Field.check_entries (h : f.check m (m.entity e) = .ok entry)
    {attributes : EntryAttributes} (hs : entry.shape = some (.entries attributes)) :
    entry.field.isMap ∧ ∃ target, m.destination (some e) entry.segments = some target := by
  obtain ⟨owner, terminal, hpasses⟩ := check_ok h
  rw [hpasses.field, Model.destination_of_follow hpasses.path]
  cases hmap : f.isMap with
  | false => exact nomatch (hpasses.plain hmap).symm.trans hs
  | true =>
    obtain ⟨shape, hcheck, hshape⟩ := hpasses.map hmap
    obtain rfl : shape = .entries attributes := Option.some.inj (hshape.symm.trans hs)
    exact ⟨rfl, target_of_checkMap hcheck⟩

/-- The fields of a registered schema have been checked. -/
theorem Schema.checked_of_extend (h : Schema.extend m s fields = .ok s') :
    s'.entity = s.entity ∧ ∀ entry ∈ s'.entries,
      entry ∈ s.entries ∨ ∃ f : Field, f.check m (m.entity s.entity) = .ok entry := by
  induction fields generalizing s with
  | nil =>
    obtain rfl := Except.ok.inj h
    exact ⟨rfl, fun entry he => Or.inl he⟩
  | cons f rest ih =>
    rw [extend] at h
    split at h
    · cases h
    obtain ⟨added, hadded, h⟩ := bind_eq_ok.1 h
    obtain ⟨hentity, hentries⟩ := ih h
    refine ⟨hentity, fun entry he => ?_⟩
    rcases hentries entry he with he | he
    · rcases List.mem_append.1 he with he | he
      · exact Or.inl he
      · exact Or.inr ⟨f, List.mem_singleton.1 he ▸ hadded⟩
    · exact Or.inr he

/-- **In a registered schema** a map that is kept as entities has a path that reaches an entity. -/
theorem Schema.register_entries (h : Schema.register m e fields = .ok s) (he : entry ∈ s.entries)
    {attributes : EntryAttributes} (hs : entry.shape = some (.entries attributes)) :
    entry.field.isMap ∧ ∃ target, m.destination (some s.entity) entry.segments = some target := by
  obtain ⟨hentity, hentries⟩ := checked_of_extend h
  rcases hentries entry he with he | ⟨f, hf⟩
  · exact absurd he List.not_mem_nil
  · rw [hentity]
    exact Field.check_entries hf hs

end Registration

/-! ## Routes -/

/-- **Relations that lead from one entity to the next**, by attributes of a given kind, and the
entity where they lead. -/
inductive Model.Leads (m : Model) (seen : String → String → Prop) :
    Option String → List Attribute → Option String → Prop
  | nil {o : Option String} : Leads m seen o [] o
  | cons {e : String} {relation : Attribute} {rest : List Attribute} {o : Option String}
      (ha : (m.entity e).attribute? relation.name = some relation)
      (hk : relation.kind.isBasic = false) (hs : seen e relation.name)
      (h : Leads m seen relation.kind.target? rest o) : Leads m seen (some e) (relation :: rest) o

/-- **An expression sees an attribute** of the records of an entity, if it reads one at all. -/
def Expr.Sees (seen : String → String → Prop) (o : Option String) : Expr → Prop
  | column _ name => ∀ e, o = some e → seen e name
  | upper e => e.Sees seen o
  | _ => True

section Routes

variable {m : Model} {s : Schema} {seen : String → String → Prop} {o : Option String}
  {path rest : List String} {terminal : Attribute} {selector : String} {r : ResolvedSelector}
  {fields : List Field} {c : Comparison} {clause : Clause}

/-- **The first step of a path that does not break**: the path ends at a basic attribute, or at a
relation, or it goes on from what a relation reaches. -/
theorem Model.route_cases {e segment : String}
    (h : (m.route (some e) (segment :: rest)).ending = .ok terminal) :
    ∃ a, (m.entity e).attribute? a.name = some a ∧ a.name = segment ∧
      ((rest = [] ∧ a.kind.isBasic = true ∧ m.route (some e) (segment :: rest) = .stop (.ok a)) ∨
        (rest = [] ∧ a.kind.isBasic = false ∧
          m.route (some e) (segment :: rest) = .after a (.stop (.ok a))) ∨
        (a.kind.isBasic = false ∧
          m.route (some e) (segment :: rest) = .after a (m.route a.kind.target? rest))) := by
  cases ha : (m.entity e).attribute? segment with
  | none => simp [route, ha, Route.stop] at h
  | some a =>
    obtain rfl := Entity.name_of_attribute? ha
    refine ⟨a, ha, rfl, ?_⟩
    cases hb : a.kind.isBasic with
    | true =>
      cases rest with
      | nil => exact Or.inl ⟨rfl, rfl, by simp [route, ha, hb]⟩
      | cons segment' rest => simp [route, ha, hb, Route.stop] at h
    | false =>
      cases rest with
      | nil => exact Or.inr (Or.inl ⟨rfl, rfl, by simp [route, ha, hb]⟩)
      | cons segment' rest => exact Or.inr (Or.inr ⟨rfl, by simp [route, ha, hb]⟩)

/-- **The joins of a path lead through the attributes that the path names.** If the path ends at a
basic attribute, they lead to its entity, and otherwise where the path does. -/
theorem Model.leads_route (hseen : ∀ step ∈ m.steps o path, seen step.1 step.2)
    (h : (m.route o path).ending = .ok terminal) :
    ∃ o', m.Leads seen o (m.route o path).joins o' ∧
      (terminal.kind.isBasic = true →
        m.destination o path = none ∧ ∃ e, o' = some e ∧ seen e terminal.name) ∧
      (terminal.kind.isBasic = false → o' = m.destination o path) := by
  induction path generalizing o with
  | nil => cases o <;> cases h
  | cons segment rest ih =>
    cases o with
    | none => cases h
    | some e =>
      obtain ⟨hfirst, hrest⟩ := List.forall_mem_cons.1 hseen
      obtain ⟨a, ha, rfl, ⟨rfl, hb, hroute⟩ | ⟨rfl, hb, hroute⟩ | ⟨hb, hroute⟩⟩ := route_cases h
      · rw [hroute] at h ⊢
        obtain rfl := Except.ok.inj h
        obtain ⟨type, hk⟩ := (Kind.isBasic_iff _).1 hb
        refine ⟨some e, .nil, fun _ => ⟨?_, e, rfl, hfirst⟩, fun hne => ?_⟩
        · simp [destination, ha, hk, Kind.target?]
        · simp [hb] at hne
      · rw [hroute] at h ⊢
        obtain rfl := Except.ok.inj h
        refine ⟨a.kind.target?, .cons ha hb hfirst .nil, fun hne => ?_, fun _ => ?_⟩
        · simp [hb] at hne
        · simp [destination, ha]
      · rw [hroute] at h ⊢
        rw [ha] at hrest
        obtain ⟨o', hleads, hend⟩ := ih hrest h
        refine ⟨o', .cons ha hb hfirst hleads, ?_⟩
        rw [destination, ha]
        exact hend

@[simp] theorem Model.steps_nil (m : Model) (o : Option String) : m.steps o [] = [] := by
  cases o <;> rfl

theorem Model.steps_append (m : Model) (o : Option String) (path rest : List String) :
    m.steps o (path ++ rest) = m.steps o path ++ m.steps (m.destination o path) rest := by
  induction path generalizing o with
  | nil => cases o <;> rfl
  | cons segment path ih =>
    cases o with
    | none => cases rest <;> rfl
    | some e => rw [List.cons_append, steps, ih, steps, destination, List.cons_append]

/-- What is named below a field is declared there. -/
theorem Field.mem_subs_of_mapM {f : Field} {names subs : List String}
    (h : names.mapM f.sub? = some subs) : ∀ sub ∈ subs, sub ∈ f.subs := by
  induction names generalizing subs with
  | nil =>
    obtain rfl := Option.some.inj h
    exact fun sub hsub => absurd hsub List.not_mem_nil
  | cons name names ih =>
    rw [List.mapM_cons] at h
    obtain ⟨sub, hsub, h⟩ := Option.bind_eq_some_iff.1 h
    obtain ⟨rest, hrest, h⟩ := Option.bind_eq_some_iff.1 h
    obtain rfl := Option.some.inj h
    exact List.forall_mem_cons.2 ⟨List.mem_of_find?_eq_some hsub, ih hrest⟩

/-- What a selector resolves to: an entry of the schema with some of what may be named below it, and
nothing below a map. -/
theorem Schema.mem_of_resolve (h : s.resolve selector = .ok r) :
    r.entry ∈ s.entries ∧ (∀ sub ∈ r.subs, sub ∈ r.field.subs) ∧ (r.field.isMap → r.subs = []) := by
  unfold resolve resolveSegments at h
  split at h
  · cases h
  · split at h
    · cases h
    · rename_i entry hentry
      have hmem : entry ∈ s.entries := List.mem_of_find?_eq_some hentry
      split at h
      · split at h
        · split at h
          · cases h
          · obtain rfl := Except.ok.inj h
            exact ⟨hmem, by simp, fun _ => rfl⟩
        · cases h
      · rename_i hmap
        split at h
        · cases h
        · split at h
          · rename_i subs hsubs
            obtain rfl := Except.ok.inj h
            exact ⟨hmem, Field.mem_subs_of_mapM hsubs, fun hm => absurd hm hmap⟩
          · cases h

/-- **A selector with one name below its field, or none, walks what is declared.** -/
theorem Schema.declares_of_short (h : s.resolve selector = .ok r) (hshort : r.subs.length ≤ 1) :
    ∀ step ∈ m.steps (some s.entity) r.navigation, s.Declares m step.1 step.2 := by
  obtain ⟨hentry, hsubs, -⟩ := mem_of_resolve h
  intro step hstep
  rw [ResolvedSelector.navigation, Model.steps_append] at hstep
  refine ⟨r.entry, hentry, ?_⟩
  rcases List.mem_append.1 hstep with hstep | hstep
  · exact .path hstep
  · match hr : r.subs, hshort with
    | [], _ =>
      rw [hr, Model.steps_nil] at hstep
      cases hstep
    | [sub], _ =>
      rw [hr] at hstep
      cases hd : m.destination (some s.entity) r.entry.segments with
      | none =>
        rw [hd] at hstep
        cases hstep
      | some e =>
        rw [hd] at hstep
        obtain rfl : step = (e, sub) := by simpa [Model.steps] using hstep
        exact .sub hd (hsubs sub (by simp [hr]))

/-- A comparison that passes its check has a selector that resolves, and a path that does not
break. -/
theorem Schema.plan_ok (h : (s.plan m c).2 = .ok clause) :
    s.resolve c.selector = .ok clause.selector ∧
      (m.route (some s.entity) clause.selector.navigation).ending = .ok clause.terminal ∧
      (s.plan m c).1 = (m.route (some s.entity) clause.selector.navigation).joins := by
  unfold plan at h ⊢
  cases hr : s.resolve c.selector with
  | error e =>
    rw [hr] at h
    cases h
  | ok r =>
    simp only [hr] at h
    obtain ⟨terminal, hending, h⟩ := bind_eq_ok.1 h
    obtain ⟨values, -, h⟩ := bind_eq_ok.1 h
    split at h
    · cases h
    · obtain rfl := Except.ok.inj h
      exact ⟨rfl, hending, rfl⟩
    · cases h

/-- What is read at the end of a path: the attributes of key and value of an entry, or a basic
attribute, or none. -/
theorem Expr.sees_of_reads {shape : Option MapShape} {source : SourceId} {e : Expr}
    (hentries : ∀ attributes, shape = some (.entries attributes) → ∀ entity, o = some entity →
      seen entity attributes.key ∧ seen entity attributes.value)
    (hbasic : terminal.kind.isBasic = true → ∀ entity, o = some entity → seen entity terminal.name)
    (h : (Reading.ofSource shape terminal source).Reads e) : e.Sees seen o := by
  obtain ⟨name, kind⟩ := terminal
  have hread : (Reading.ofSource shape ⟨name, kind⟩ source).value.Sees seen o ∧
      ∀ e, (Reading.ofSource shape ⟨name, kind⟩ source).key = some e → e.Sees seen o := by
    rcases shape with _ | _ | attributes
    · cases kind <;> simp_all [Reading.ofSource, Sees, Kind.isBasic]
    · cases kind <;> simp_all [Reading.ofSource, Sees, Kind.isBasic]
    · have hseen := hentries attributes rfl
      refine ⟨fun entity he => (hseen entity he).2, fun e he => ?_⟩
      obtain rfl := Option.some.inj he
      exact fun entity he => (hseen entity he).1
  induction h with
  | value => exact hread.1
  | key hk => exact hread.2 _ hk
  | upper _ ih => exact ih

/-- **What a comparison reads is declared**, if its path names declared attributes: the attributes
on its path, those that it reads at its end, and the one that ties its negation to the row. -/
theorem Schema.declares_of_plan {root : String} (hreg : Schema.register m root fields = .ok s)
    (h : (s.plan m c).2 = .ok clause)
    (hwalk : ∀ step ∈ m.steps (some s.entity) clause.selector.navigation,
      s.Declares m step.1 step.2) :
    s.Declares m s.entity clause.selector.field.identifier ∧
      ∃ o, m.Leads (s.Declares m) (some s.entity) (s.plan m c).1 o ∧
        ∀ source e, (Reading.ofSource clause.selector.shape clause.terminal source).Reads e →
          e.Sees (s.Declares m) o := by
  obtain ⟨hresolve, hending, hjoins⟩ := plan_ok h
  obtain ⟨hentry, -, hmap⟩ := mem_of_resolve hresolve
  obtain ⟨o, hleads, hbasic, hrelation⟩ := Model.leads_route hwalk hending
  refine ⟨⟨_, hentry, .identifier⟩, o, hjoins ▸ hleads, fun source e he => ?_⟩
  refine Expr.sees_of_reads (fun attributes hs entity ho => ?_) (fun hb entity ho => ?_) he
  · obtain ⟨hisMap, target, htarget⟩ := register_entries hreg hentry hs
    have hnavigation : clause.selector.navigation = clause.selector.entry.segments := by
      rw [ResolvedSelector.navigation, hmap hisMap, List.append_nil]
    rw [hnavigation] at hbasic hrelation
    -- the path reaches an entity, so it does not end at a basic attribute
    cases hb : clause.terminal.kind.isBasic with
    | true => simp [(hbasic hb).1] at htarget
    | false =>
      rw [ho] at hrelation
      have hreached := (hrelation hb).symm
      exact ⟨⟨_, hentry, .key hreached hs⟩, ⟨_, hentry, .value hreached hs⟩⟩
  · obtain ⟨-, e', ho', hseen⟩ := hbasic hb
    obtain rfl := Option.some.inj (ho.symm.trans ho')
    exact hseen

end Routes

end EntityFilter
