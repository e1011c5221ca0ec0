import EntityFilter.Proofs.Compile.Declared
import EntityFilter.Proofs.Compile.Places

/-!
# The paths that tests read

A selector stands for a path, and the test of its comparison reads a source. From that source the
joins lead up to a root, whether they were made for the comparison, were shared by a disjunction, or
were made again below the root of a sub-query. Read from there they are the path.

* `Query.trail`: the root that a source hangs below, and the attributes joined on the way to it.
* `Query.trail_path`: joining a path adds its names to the trail.
* `Model.navigation_route`: a path that does not break is the names of its joins, with the attribute
  at its end if that one is not joined.
* `Predicate.tested`: the expressions that a predicate tests.
* `Query.Carries`, `Query.Spells`: how a comparison is tested, and what its tests are to read.
* `Context.spells_navigation`: every test reads the path that its selector stands for.
-/

namespace EntityFilter

/-! ## Trails -/

namespace Query

variable {q : Query} {s start last parent : SourceId} {src : Source} {relation : Attribute}
  {kind : JoinKind} {joins : List Attribute}

/-- **The root that a source hangs below**, and the attributes joined from there down to it. -/
def trail (q : Query) (s : SourceId) : SourceId × List String :=
  match (q.source? s).map Source.kind with
  | some (.join parent relation _) =>
    if parent < s then ((q.trail parent).1, (q.trail parent).2 ++ [relation.name]) else (s, [])
  | _ => (s, [])
termination_by s

/-- A root is where a trail begins. -/
theorem trail_root {entity : String} (hs : q.source? s = some src) (hk : src.kind = .root entity) :
    q.trail s = (s, []) := by
  rw [trail, hs, Option.map_some, hk]

/-- A join goes on where the trail of its parent ends. -/
theorem trail_join (hq : q.Arena) (hs : q.source? s = some src)
    (hk : src.kind = .join parent relation kind) :
    q.trail s = ((q.trail parent).1, (q.trail parent).2 ++ [relation.name]) := by
  have hlt : parent < s := (hq.parent hs (Source.parent?_of_join hk)).1
  rw [trail, hs, Option.map_some, hk]
  exact if_pos hlt

/-- **Along a path the trail goes on by the names of the joins.** -/
theorem trail_path (hq : q.Arena) (hp : q.Path start joins last) :
    q.trail last = ((q.trail start).1, (q.trail start).2 ++ joins.map Attribute.name) := by
  induction hp with
  | nil => simp
  | cons hs hk _ ih =>
    rw [ih, trail_join hq hs hk, List.append_assoc]
    rfl

end Query

/-! ## Paths and their joins -/

namespace Model

variable {m : Model} {o : Option String} {path : List String} {terminal : Attribute}

/-- **A path that does not break is the names of its joins**, with the attribute at its end if that
one is not joined. -/
theorem navigation_route (h : (m.route o path).ending = .ok terminal) :
    path = (m.route o path).joins.map Attribute.name ++
      if terminal.kind.isBasic then [terminal.name] else [] := by
  induction path generalizing o with
  | nil => cases o <;> cases h
  | cons segment rest ih =>
    cases o with
    | none => cases h
    | some e =>
      obtain ⟨a, -, rfl, ⟨rfl, hb, hroute⟩ | ⟨rfl, hb, hroute⟩ | ⟨hb, hroute⟩⟩ := route_cases h
      · rw [hroute] at h ⊢
        obtain rfl := Except.ok.inj h
        simp [hb, Route.stop]
      · rw [hroute] at h ⊢
        obtain rfl := Except.ok.inj h
        simp [hb, Route.stop, Route.after]
      · rw [hroute] at h ⊢
        have hrest := ih h
        rw [Route.after, List.map_cons, List.cons_append, ← hrest]

/-- The path of a field that is checked can be walked, to the same end. -/
theorem ending_of_follow {e : String} {owner : Entity}
    (h : m.follow (m.entity e) path = .ok (owner, terminal)) :
    (m.route (some e) path).ending = .ok terminal := by
  induction path generalizing e with
  | nil => cases h
  | cons segment rest ih =>
    cases rest with
    | nil =>
      rw [follow] at h
      cases ha : (m.entity e).attribute? segment with
      | none => simp [ha] at h
      | some a =>
        simp only [ha, Except.ok.injEq, Prod.mk.injEq] at h
        obtain rfl := h.2
        cases hb : a.kind.isBasic <;> simp [route, ha, hb, Route.stop, Route.after]
    | cons segment' rest =>
      rw [follow] at h
      · cases ha : (m.entity e).attribute? segment with
        | none => simp [ha] at h
        | some a =>
          cases ht : a.kind.target? with
          | none => simp [ha, ht] at h
          | some target =>
            simp only [ha, Option.bind_some, ht] at h
            -- what reaches an entity is not basic, so it is joined
            have hb : a.kind.isBasic = false := by
              cases hk : a.kind <;> simp_all [Kind.target?, Kind.isBasic]
            have hrest := ih h
            simpa [route, ha, hb, ht, Route.after] using hrest
      · simp

end Model

namespace Schema

variable {m : Model} {s : Schema} {root selector : String} {fields : List Field}
  {entry : SchemaEntry} {r : ResolvedSelector} {c : Comparison} {clause : Clause}

/-- Every field of a registered schema has passed its check. -/
theorem passes_of_register (h : Schema.register m root fields = .ok s) (he : entry ∈ s.entries) :
    ∃ f owner terminal, Field.Passes m (m.entity s.entity) f entry owner terminal := by
  obtain ⟨hentity, hentries⟩ := checked_of_extend h
  rcases hentries entry he with he | ⟨f, hf⟩
  · exact absurd he List.not_mem_nil
  · rw [hentity]
    exact ⟨f, Field.check_ok hf⟩

/-- A selector has a key exactly if its field is a map. -/
theorem mapKey_of_resolve (h : s.resolve selector = .ok r) :
    r.mapKey.isSome = r.field.isMap := by
  unfold resolve resolveSegments at h
  split at h
  · cases h
  · split at h
    · cases h
    · split at h
      · rename_i hmap
        split at h
        · split at h
          · cases h
          · obtain rfl := Except.ok.inj h
            exact hmap.symm
        · cases h
      · rename_i hmap
        split at h
        · cases h
        · split at h
          · obtain rfl := Except.ok.inj h
            exact (Bool.not_eq_true _ ▸ hmap : _ = false).symm
          · cases h

/-- **What is found at the end of the path of a map**: a map, or records that hold its entries.
Other fields have no key. -/
inductive Ending (clause : Clause) : Prop
  | plain (hs : clause.selector.shape = none) (hkey : clause.selector.mapKey = none)
  | native {key : String} {type : ScalarType} (hs : clause.selector.shape = some .native)
      (hkey : clause.selector.mapKey = some key) (hk : clause.terminal.kind = .map type)
  | entries {key : String} {attributes : EntryAttributes}
      (hs : clause.selector.shape = some (.entries attributes))
      (hkey : clause.selector.mapKey = some key) (hk : clause.terminal.kind.isBasic = false)

/-- In a registered schema, maps have the shape that is found at the end of their path. -/
theorem ending_of_plan (hreg : Schema.register m root fields = .ok s)
    (h : (s.plan m c).2 = .ok clause) : Ending clause := by
  obtain ⟨hresolve, hending, -⟩ := plan_ok h
  obtain ⟨hentry, -, hsubs⟩ := mem_of_resolve hresolve
  obtain ⟨f, owner, terminal, hpasses⟩ := passes_of_register hreg hentry
  have hkey := mapKey_of_resolve hresolve
  have hfield : clause.selector.field.isMap = f.isMap := congrArg Field.isMap hpasses.field
  cases hmap : f.isMap with
  | false =>
    have hnone : clause.selector.mapKey.isSome = false := hkey.trans (hfield.trans hmap)
    exact .plain (hpasses.plain hmap) (by simpa using hnone)
  | true =>
    obtain ⟨shape, hcheck, hshape⟩ := hpasses.map hmap
    obtain ⟨key, hkey⟩ := Option.isSome_iff_exists.1 (hkey.trans (hfield.trans hmap))
    -- a map has no names below it, so its path is the one that was checked
    have hnavigation : clause.selector.navigation = clause.selector.entry.segments := by
      rw [ResolvedSelector.navigation, hsubs (hfield.trans hmap), List.append_nil]
    have hchecked := Model.ending_of_follow hpasses.path
    rw [hnavigation, hchecked] at hending
    obtain rfl : terminal = clause.terminal := Except.ok.inj hending
    unfold Field.checkMap at hcheck
    split at hcheck
    · rename_i type hk
      obtain rfl := Except.ok.inj hcheck
      exact .native hshape hkey hk
    · rename_i attributes target _ htarget _
      split at hcheck
      · cases hcheck
      · obtain rfl := Except.ok.inj hcheck
        refine .entries hshape hkey ?_
        cases hk : clause.terminal.kind <;> simp_all [Kind.target?, Kind.isBasic]
    · cases hcheck

end Schema

/-! ## What predicates test -/

/-- An expression without its changes of case. -/
def Expr.bare : Expr → Expr
  | .upper e => e.bare
  | e => e

namespace Predicate

mutual

/-- **The expressions that a predicate tests**, without changes of case. -/
def tested : Predicate → List Expr
  | always => []
  | and ps => testedAll ps
  | or ps => testedAll ps
  | not p => p.tested
  | isNull e => [e.bare]
  | isNotNull e => [e.bare]
  | equal e _ => [e.bare]
  | notEqual e _ => [e.bare]
  | equalExpr l r => [l.bare, r.bare]
  | like e _ _ => [e.bare]
  | notLike e _ _ => [e.bare]
  | isIn e _ => [e.bare]
  | order e _ _ => [e.bare]
  | hasRow _ => []

/-- The expressions that the predicates of a list test. -/
def testedAll : List Predicate → List Expr
  | [] => []
  | p :: ps => p.tested ++ testedAll ps

end

variable {p : Predicate} {ps : List Predicate} {e e' : Expr}

theorem mem_testedAll : e ∈ testedAll ps ↔ ∃ p ∈ ps, e ∈ p.tested := by
  induction ps with
  | nil => simp [testedAll]
  | cons p ps ih => simp [testedAll, ih]

theorem tested_of_test? {d : Dialect} {f : Value → Truth} (h : test? d p = some (e, f)) :
    p.tested = [e.bare] := by
  cases p <;> simp only [test?, Option.some.injEq, Prod.mk.injEq, reduceCtorEq] at h <;>
    simp [tested, h.1]

/-- Predicates that test one expression do so together. -/
theorem testedAll_parts (hne : ps ≠ []) (h : ∀ p ∈ ps, ∀ e', e' ∈ p.tested ↔ e' = e) :
    e' ∈ testedAll ps ↔ e' = e := by
  rw [mem_testedAll]
  constructor
  · rintro ⟨p, hp, he⟩
    exact (h p hp e').1 he
  · rintro rfl
    obtain ⟨p, hp⟩ := List.exists_mem_of_ne_nil ps hne
    exact ⟨p, hp, (h p hp e').2 rfl⟩

/-- **Tests of the value of a reading** test that expression, and nothing else. -/
theorem Tests.mem_tested (h : p.Tests (Reading.Reads ⟨e, none⟩)) (e' : Expr) :
    e' ∈ p.tested ↔ e' = e.bare := by
  have hbare : ∀ {x}, (⟨e, none⟩ : Reading).Reads x → x.bare = e.bare := by
    intro x hx
    induction hx with
    | value => rfl
    | key hkey => cases hkey
    | upper _ ih => exact ih
  induction h generalizing e' with
  | test h he => rw [tested_of_test? (h .standard), hbare he, List.mem_singleton]
  | not _ ih => exact ih e'
  | and hne _ ih => exact testedAll_parts hne ih
  | or hne _ ih => exact testedAll_parts hne ih

end Predicate

/-- At the end of a path that is joined the value is the element, or the value of a map. -/
theorem Reading.value_of_joined {terminal : Attribute} (hb : terminal.kind.isBasic = false)
    (s : SourceId) : (Reading.ofSource none terminal s).value = .mapValue s ∨
      (Reading.ofSource none terminal s).value = .element s := by
  unfold Reading.ofSource
  cases hk : terminal.kind <;> simp_all [Kind.isBasic]

/-! ## What comparisons read -/

namespace Query

/-- **How a comparison is tested**: on the row at hand, below the outer root, or on the rows of a
sub-query that is tied to that row by an identifier, below the root of the sub-query. In a map the
test of the key comes first. -/
inductive Carries (q : Query) (identifier : String) :
    Predicate → SourceId → List Predicate → Prop
  | inPlace {test : Predicate} : Carries q identifier test root [test]
  | keyed {key test : Predicate} : Carries q identifier (.and [key, test]) root [key, test]
  | noneRelated {sub : SubqueryId} {top : SourceId} {tests : List Predicate}
      (h : q.subqueries[sub]? = some ⟨top, .and (.equalExpr (.column root identifier)
        (.column top identifier) :: tests)⟩) :
      Carries q identifier (.not (.hasRow sub)) top tests

/-- **Tests read the path of a selector**, from a root. The path ends at an attribute that is read
in place, or at a join. In a map the key is read from the same source as the value. -/
inductive Spells (q : Query) (st : Settings) (r : ResolvedSelector) (top : SourceId) :
    List Predicate → Prop
  | column {test : Predicate} {s : SourceId} {path : List String} {name : String}
      (hs : r.shape = none) (htrail : q.trail s = (top, path))
      (hpath : path ++ [name] = r.navigation)
      (htest : ∀ e, e ∈ test.tested ↔ e = .column s name) : Spells q st r top [test]
  | element {test : Predicate} {s : SourceId}
      (hs : r.shape = none) (htrail : q.trail s = (top, r.navigation))
      (htest : ∀ e, e ∈ test.tested ↔ e = .element s) : Spells q st r top [test]
  | mapValue {test : Predicate} {s : SourceId}
      (hs : r.shape = none) (htrail : q.trail s = (top, r.navigation))
      (htest : ∀ e, e ∈ test.tested ↔ e = .mapValue s) : Spells q st r top [test]
  | native {test : Predicate} {s : SourceId} {key : String}
      (hs : r.shape = some .native) (hkey : r.mapKey = some key)
      (htrail : q.trail s = (top, r.navigation))
      (htest : ∀ e, e ∈ test.tested ↔ e = .mapValue s) :
      Spells q st r top [.equal (st.caseExpr (.mapKey s)) (.text (st.caseText key)), test]
  | entries {test : Predicate} {s : SourceId} {key : String} {attributes : EntryAttributes}
      (hs : r.shape = some (.entries attributes)) (hkey : r.mapKey = some key)
      (htrail : q.trail s = (top, r.navigation))
      (htest : ∀ e, e ∈ test.tested ↔ e = .column s attributes.value) :
      Spells q st r top
        [.equal (st.caseExpr (.column s attributes.key)) (.text (st.caseText key)), test]

end Query

namespace Clause

open Query

variable {m : Model} {clause : Clause} {st : Settings} {q : Query} {s top : SourceId}
  {path : List String} {core : Predicate}

/-- **The tests of a clause read the path of its selector**, if its path was joined from a root down
to the source that they read. -/
theorem spells (hending : Schema.Ending clause) (htrail : q.trail s = (top, path))
    (hpath : clause.selector.navigation =
      path ++ if clause.terminal.kind.isBasic then [clause.terminal.name] else [])
    (hcore : core.Tests (Reading.Reads
      ⟨(Reading.ofSource clause.selector.shape clause.terminal s).value, none⟩)) :
    q.Spells st clause.selector top
      (st.keyTest (Reading.ofSource clause.selector.shape clause.terminal s)
        clause.selector.mapKey ++ [core]) := by
  have htested := hcore.mem_tested
  cases hending with
  | native hs hkey hk =>
    -- a map is joined, so the path is the trail
    have hnavigation : path = clause.selector.navigation := by simp [hpath, hk, Kind.isBasic]
    simp only [Reading.ofSource, hs, hk, Expr.bare] at htested
    simp only [Reading.ofSource, hs, hk, hkey, Settings.keyTest, List.singleton_append]
    exact .native hs hkey (hnavigation ▸ htrail) htested
  | entries hs hkey hk =>
    have hnavigation : path = clause.selector.navigation := by simp [hpath, hk]
    simp only [Reading.ofSource, hs, Expr.bare] at htested
    simp only [Reading.ofSource, hs, hkey, Settings.keyTest, List.singleton_append]
    exact .entries hs hkey (hnavigation ▸ htrail) htested
  | plain hs hkey =>
    have hnone : ∀ r, st.keyTest r clause.selector.mapKey = [] := by
      intro r
      unfold Settings.keyTest
      rw [hkey]
      cases r.key <;> rfl
    rw [hnone, List.nil_append]
    rw [hs] at htested
    cases hb : clause.terminal.kind.isBasic with
    | true =>
      obtain ⟨type, hk⟩ := (Kind.isBasic_iff _).1 hb
      simp only [hb, if_true] at hpath
      simp only [Reading.ofSource, hk, Expr.bare] at htested
      exact .column hs htrail hpath.symm htested
    | false =>
      have hnavigation : path = clause.selector.navigation := by simp [hpath, hb]
      rcases Reading.value_of_joined hb s with hvalue | hvalue
      · rw [hvalue] at htested
        exact .mapValue hs (hnavigation ▸ htrail) htested
      · rw [hvalue] at htested
        exact .element hs (hnavigation ▸ htrail) htested

end Clause

namespace Query

variable {ctx : Context} {q : Query} {identifier : String} {sub : SubqueryId} {top s : SourceId}
  {src : Source} {clause : Clause} {d : Demand} {c : Comparison} {f : Filter}
  {predicate core : Predicate} {p' : Progress}

/-- A test in place comes after the test of the key, if there is one. -/
theorem carries_withKey (q : Query) (identifier : String) (st : Settings) (r : Reading)
    (key : Option String) (core : Predicate) :
    q.Carries identifier (st.withKey r key core) root (st.keyTest r key ++ [core]) := by
  unfold Settings.withKey Settings.keyTest
  cases r.key with
  | none => exact .inPlace
  | some e =>
    cases key with
    | none => exact .inPlace
    | some k => exact .keyed

/-- The sub-query of a negation carries what related rows are looked for with. -/
theorem carries_exclusion (hq : q.Arena) (hsrc : q.source? top = some src)
    (hscope : src.scope = .subquery sub) (hroot : src.parent? = none) {st : Settings}
    (hrestr : q.restriction sub = clause.exclusion st d top s) :
    q.Carries clause.selector.field.identifier (.not (.hasRow sub)) top
      (clause.relatedTests st d s) := by
  have htop : (q.subqueries[sub]?).map Subquery.root = some top := hq.innerRoot hsrc hscope hroot
  obtain ⟨subquery, hsub, rfl⟩ := Option.map_eq_some_iff.1 htop
  refine .noneRelated (hsub.trans ?_)
  rw [restriction, hsub] at hrestr
  exact congrArg (fun restriction => some (Subquery.mk subquery.root restriction)) hrestr

/-- **A comparison that has been compiled reads the path of its selector**, on every query that the
compilation may still reach. -/
theorem spells_of_comparedIn {entity : String} {fields : List Field}
    (hreg : Schema.register ctx.model entity fields = .ok ctx.schema)
    (h : ctx.ComparedIn p' c predicate) (hq : q.Sound) (hg : p'.query.Grows q) :
    ∃ r top tests, ctx.schema.resolve c.selector = .ok r ∧
      q.Carries r.field.identifier predicate top tests ∧ q.Spells ctx.settings r top tests := by
  obtain ⟨clause, before, done, hplan, he, hcompared, hgrows⟩ := h
  obtain ⟨hresolve, hroute, hjoins⟩ := Schema.plan_ok hplan
  have hending := Schema.ending_of_plan hreg hplan
  have hnavigation := Model.navigation_route hroute
  rw [← hjoins] at hnavigation
  have hlater : done.query.Grows q := hgrows.trans hg
  refine ⟨clause.selector, ?_⟩
  rcases hcompared.lowered with ⟨last, hlower, hpath, -⟩ | ⟨_, d, start, -, -, hex⟩
  · -- the path hangs below the outer root
    obtain ⟨core, rfl, hcore⟩ := Clause.testsValue_of_inPlace hlower
    obtain ⟨r, hr⟩ := hq.root
    have htrail := trail_path hq.toArena (hlater.path hpath)
    rw [trail_root hr rfl, List.nil_append] at htrail
    exact ⟨root, _, hresolve, carries_withKey q _ _ _ _ core,
      Clause.spells hending htrail hnavigation hcore⟩
  · -- the path has been joined again below the root of the sub-query
    obtain ⟨src, hsrc, hk, hscope⟩ := hex.subRoot
    obtain ⟨src', hsrc', hk', hscope', -⟩ := hlater.kept hsrc
    obtain ⟨last, hpath, -, hrestr⟩ := hex.restriction
    have htrail := trail_path hq.toArena (hlater.path hpath)
    rw [trail_root hsrc' (hk'.trans hk), List.nil_append] at htrail
    have hrestr' := (hlater.restriction _ hex.opened).trans hrestr
    have hcarries := carries_exclusion hq.toArena hsrc' (hscope'.trans hscope)
      (Source.parent?_of_root (hk'.trans hk)) hrestr'
    rw [← hex.predicate] at hcarries
    exact ⟨_, _, hresolve, hcarries,
      Clause.spells hending htrail hnavigation (ctx.settings.tests_demandTest .value d)⟩

end Query

namespace Context

open Query

variable {ctx : Context} {f : Filter} {predicate : Predicate} {q : Query} {c : Comparison}
  {place : List Nat}

/-- **Every test reads the path that its selector stands for.** When a filter compiles, every
comparison in it, whatever its place, has a predicate, and this predicate tests the row at hand or
the rows of a sub-query. From the source that the tests read the joins lead up to the outer root, or
to the root of that sub-query. Downwards they are the path, with the attribute that is read at its
end if that one is not joined. In a map that is kept as records the value and the key are attributes
there, and in another map they are the value and the key of one source. -/
theorem spells_navigation {entity : String} {fields : List Field}
    (hreg : Schema.register ctx.model entity fields = .ok ctx.schema)
    (h : (recordsOf ctx.schema.entity).compile ctx f = (.ok predicate, q))
    (hc : f.part? place = some (.comparison c)) :
    ∃ test r top tests, f.counterpart? predicate place = some test ∧
      ctx.schema.resolve c.selector = .ok r ∧ q.Carries r.field.identifier test top tests ∧
      q.Spells ctx.settings r top tests := by
  have hsound : q.Sound := by
    have hsound := (compile_sound (sound_recordsOf ctx.schema.entity) ctx f).1
    rwa [h] at hsound
  obtain ⟨he, o, p', hcompiles, rfl, rfl⟩ := compiles_of_compile h
  have hstart := ready_start ctx.model (sound_recordsOf ctx.schema.entity)
  have hlocates := (hcompiles.proceeds hstart he).locates
  obtain ⟨test, htest, hcompared⟩ := hlocates 0 place c hc
  obtain ⟨r, top, tests, hresolve, hcarries, hspells⟩ :=
    spells_of_comparedIn hreg hcompared hsound (.discardUnused p'.query)
  refine ⟨test, r, top, tests, ?_, hresolve, hcarries, hspells⟩
  -- a filter with a comparison has a predicate
  cases o with
  | none => cases htest
  | some predicate => exact htest

end Context

namespace Shop

open Query

/-- Customers have labels, which are kept as records with a name and a text. -/
def ofLabel : Field :=
  ⟨"label", "customer.labels", [], true, some ⟨"name", "text"⟩, "id", none⟩

/-- Orders may be filtered by the text of the label of a name. -/
def labelled : Context :=
  ⟨⟨[], [⟨"Order", "id", [⟨"id", .basic .int⟩, ⟨"customer", .reference "Customer"⟩]⟩,
      ⟨"Customer", "id", [⟨"labels", .collection "Label"⟩]⟩,
      ⟨"Label", "id", [⟨"name", .basic .text⟩, ⟨"text", .basic .text⟩]⟩]⟩,
    ⟨"Order", [⟨ofLabel, ["customer", "labels"], some (.entries ⟨"name", "text"⟩)⟩]⟩,
    .standard, id⟩

/-- One of the comparisons stands in a conjunction of its own, behind text that is no expression. -/
def redOrNotBlue : Filter :=
  .or [.unrecognized "colors", .compareOne .equal "label.color" "red",
    .and [.compareOne .notEqual "label.color" "blue"]]

/-- The first comparison reads the end of its joins, the second one asks for a sub-query. -/
def labelTests : Predicate :=
  .or [.and [.equal (.column 2 "name") (.text "color"), .equal (.column 2 "text") (.text "red")],
    .and [.not (.hasRow 0)]]

theorem redOrNotBlue_spells :
    Schema.register labelled.model "Order" [ofLabel] = .ok labelled.schema ∧
      redOrNotBlue.part? [2, 0] = some (.comparison ⟨"label.color", "!=", ["blue"]⟩) ∧
      ∃ q, (recordsOf "Order").compile labelled redOrNotBlue = (.ok labelTests, q) ∧
        ∃ test r top tests, redOrNotBlue.counterpart? labelTests [2, 0] = some test ∧
          labelled.schema.resolve "label.color" = .ok r ∧
          q.Carries r.field.identifier test top tests ∧ q.Spells labelled.settings r top tests := by
  have hreg : Schema.register labelled.model "Order" [ofLabel] = .ok labelled.schema := by rfl
  have hsome : ((recordsOf "Order").compile labelled redOrNotBlue).1.toOption =
      some labelTests := by decide +kernel
  generalize hcompile : (recordsOf "Order").compile labelled redOrNotBlue = compiled at hsome
  obtain ⟨outcome, q⟩ := compiled
  have hok : outcome = .ok labelTests := by
    cases outcome with
    | error e => cases hsome
    | ok predicate => exact congrArg _ (Option.some.inj hsome)
  rw [hok] at hcompile
  have hc : redOrNotBlue.part? [2, 0] = some (.comparison ⟨"label.color", "!=", ["blue"]⟩) := by rfl
  exact ⟨hreg, hc, q, by rw [hok], Context.spells_navigation hreg hcompile hc⟩

end Shop

end EntityFilter
